import DeprecatOS.Proof.MakeDir

/-!
# When there is space for a file

A file of `n` blocks and its pointer blocks may fit on the disk and still not be written: `write_inode` takes one or two
pointer blocks more on the way. So an empty file, which has no block at all, cannot be made on a full disk.
-/

namespace DeprecatOS

open Bytes Bits Fault PointerTree

variable {static : UInt32 → Prop} {m : Machine} {fs i : Slot} {parentN d now : UInt32} {name : Buf}

def neededBlocks (size : UInt32) : Nat := sizeBlocks size + pointerBlocks (sizeBlocks size)

def spareBlocks (size : UInt32) : Nat := if 12 < sizeBlocks size ∧ sizeBlocks size ≤ 1036 then 2 else 1

theorem neededBlocks_add_spareBlocks (size : UInt32) :
    neededBlocks size + spareBlocks size = sizeBlocks size + takenPointerBlocks (sizeBlocks size) := by
  rw [neededBlocks, spareBlocks, pointerBlocks, takenPointerBlocks]
  split_ifs <;> omega

/-- Only blocks can be missing for a new file of this name: the parent is a directory with room for it, the name is valid
and new, and an inode is free. -/
structure Fileable (static : UInt32 → Prop) (m : Machine) (fs : Slot) (parentN : UInt32) (name : Buf) (i : Slot)
    (d : UInt32) : Prop where
  root : m.RootUnmounted
  parent : parentN ≠ 0
  resolve : (m.mntRoot fs parentN).2 = (i, d)
  consistent : Consistent static (m.fsEntries i)
  mark : (m.fsEntries i).marked .inode d = true
  type : ((m.fsEntries i).record d).type = inodeDirType
  dir : DirOk (m.fsEntries i) ((m.fsEntries i).record d)
  valid : ¬ (nameLength name = 0 ∨ nameLen ≤ nameLength name)
  absent : nameIn ((m.fsEntries i).record d) name (m.fsEntries i) = .ok (none, m.fsEntries i)
  inode : ∃ n, (m.fsEntries i).geo.Real .inode n ∧ (m.fsEntries i).marked .inode n = false
  room : (m.fsEntries i).HasRoom ((m.fsEntries i).record d) (nameLength name)

theorem Fileable.dirInsert_runs (hfile : Fileable static m fs parentN name i d) {fs₁ : FsInfo} {n : UInt32} {inode : Inode}
    (hput : Put static (m.fsEntries i) fs₁ n inode zero 0 false) :
    Runs (dirInsert now i d name n) (m.withFs i fs₁) fun ok _ => ok = true := by
  have hchanged := hput.allotted.changed
  obtain ⟨-, hsame, howner, hdir, htype⟩ := hput.allotted.keeps_dir hfile.mark hfile.type hfile.dir
  have hn : fs₁.geo.Real .inode n := FsInfo.real_of_marked hput.allotted.mark
  have hroom : fs₁.HasRoom (fs₁.record d) (nameLength name) :=
    (hsame.hasRoom_iff (FsInfo.owner_of_dir hfile.mark hfile.type) _).mpr hfile.room
  have hcons : Consistent static ((m.withFs i fs₁).fsEntries i) := by
    rw [Machine.withFs_fsEntries_self]
    exact hchanged.consistent
  have hresolve : ((m.withFs i fs₁).mntRoot i d).2 = (i, d) := by
    rw [Machine.mntRoot_withFs hchanged.geo]
    exact hfile.root.mntRoot_again hfile.parent hfile.resolve
  have hcall : dirInsert now i d name n (m.withFs i fs₁) =
      onFs i (insertEntry now d name (nameLength name) n (fs₁.record n)) (m.withFs i fs₁) := by
    rw [dirInsert_run hcons hfile.valid (by rwa [Machine.withFs_fsEntries_self]) hresolve, Machine.withFs_fsEntries_self]
  have hinsert : Runs (insertEntry now d name (nameLength name) n (fs₁.record n)) ((m.withFs i fs₁).fsEntries i)
      fun ok _ => ok = true := by
    rw [Machine.withFs_fsEntries_self]
    refine (insertEntry_room hchanged.consistent howner hdir htype hn ?_ hroom).mono fun ok _ hdone => hdone.1
    exact Nat.lt_of_not_le fun h => hfile.valid (.inr h)
  obtain ⟨ok, m', hrun, -, -, hok⟩ := onFs_runs hinsert
  exact ⟨ok, m', hcall.trans hrun, hok⟩

theorem Fileable.makeFile_iff (hfile : Fileable static m fs parentN name i d) (now : UInt32) :
    Runs (makeFile now fs parentN name) m fun made _ => made.isSome = true ↔ 1 ≤ (m.fsEntries i).freeBlocks := by
  rw [makeFile]
  refine Runs.bind_eq (makeIn_run hfile.resolve hfile.consistent hfile.mark hfile.type hfile.valid hfile.absent) ?_
  dsimp only
  refine (onFs_runs (putInode_spec hfile.consistent (by decide) now zero false).with_run).bind fun put m' hput => ?_
  obtain ⟨fs₁, rfl, hrun, hput⟩ := hput
  have henough := hfile.consistent.mounted.putInode_iff (show (0 : UInt32).toNat ≤ maxSize by decide) hrun
  rw [and_iff_right hfile.inode] at henough
  obtain ⟨rfl, -⟩ | ⟨n, inode, rfl, hput⟩ := hput
  · exact Runs.pure henough
  · dsimp only
    refine (hfile.dirInsert_runs hput).bind fun ok m' hok => ?_
    rw [if_pos hok]
    exact Runs.pure henough

/-- A file for which there are enough blocks is written, unless the blocks taken for a moment are missing; an empty file
is made where there is room for its name, unless the disk is full. -/
theorem space_suffices_iff (static : UInt32 → Prop) (m : Machine) (fs i : Slot) (parentN d now : UInt32) (name buf : Buf)
    (inode : Inode) :
    (Mounted static (m.fsEntries i) → inode.sizeLo.toNat ≤ maxSize →
      Runs (writeInode buf inode) (m.fsEntries i) fun result _ =>
        ((neededBlocks inode.sizeLo ≤ (m.fsEntries i).freeBlocks → result.1 = true) ↔
          ¬ (neededBlocks inode.sizeLo ≤ (m.fsEntries i).freeBlocks ∧
            (m.fsEntries i).freeBlocks < neededBlocks inode.sizeLo + spareBlocks inode.sizeLo))) ∧
    (Fileable static m fs parentN name i d → Runs (makeFile now fs parentN name) m fun made _ =>
      (made.isSome = true ↔ 1 ≤ (m.fsEntries i).freeBlocks)) := by
  constructor
  · intro hmounted hsize
    refine (writeInode_spec hmounted buf hsize).with_run.mono fun result fs' hdone => ?_
    rw [hmounted.writeInode_iff hsize hdone.1, ← neededBlocks_add_spareBlocks]
    omega
  · intro hfile
    exact hfile.makeFile_iff now

theorem fileable_of_smallRoot {info : FsInfo} (hmachine : ∀ part, m.fsEntries part = info) (hmount : info.mountpoint = 0)
    (hcons : Consistent static info) (hmark : info.marked .inode 2 = true) (hrecord : info.record 2 = smallRoot)
    (hdir : DirOk info smallRoot) (habsent : (nameIn smallRoot (cstr [97]) info).toOption.map Prod.fst = some none)
    (hfree : info.geo.Real .inode 4 ∧ info.marked .inode 4 = false) (hroom : info.HasRoom smallRoot 1) :
    Fileable static m 0 2 (cstr [97]) 0 2 where
  root := by rw [Machine.RootUnmounted, hmachine, hmount]
  parent := by decide
  resolve := by
    refine Machine.mntRoot_of_not_mountpoint fun _ part => ?_
    rw [hmachine, hmount]
    decide
  consistent := by rwa [hmachine]
  mark := by rwa [hmachine]
  type := by
    rw [hmachine, hrecord]
    rfl
  dir := by rwa [hmachine, hrecord]
  valid := by decide
  absent := by
    obtain ⟨⟨found, fs'⟩, hrun, rfl⟩ := eq_ok_of_toOption habsent
    rw [hmachine, hrecord, hrun, nameIn_read hrun]
  inode := by
    rw [hmachine]
    exact ⟨4, hfree⟩
  room := by
    rw [hmachine, hrecord]
    exact hroom

theorem fullMachine_fileable : Fileable fullStatic fullMachine 0 2 (cstr [97]) 0 2 := by
  refine fileable_of_smallRoot (fun _ => rfl) rfl (crowdedFs_consistent 0) (by decide) ?_ (by decide)
    (by decide) ⟨by decide, by decide⟩ ?_
  · exact (crowdedFs_record 0 2).trans smallFs_record.2.1
  · unfold FsInfo.HasRoom
    decide

/-- On a full disk the empty file, which needs no block, cannot be written or made. -/
theorem full_disk_refuses_empty_file : Fileable fullStatic fullMachine 0 2 (cstr [97]) 0 2 ∧
    neededBlocks Inode.zero.sizeLo ≤ fullFs.freeBlocks ∧
    (∃ inode' fs', writeInode zero .zero fullFs = .ok ((false, inode'), fs')) ∧
    ∃ m', makeFile 0 0 2 (cstr [97]) fullMachine = .ok (none, m') := by
  have hwrite : (writeInode zero .zero fullFs).toOption.map (fun done => done.1.1) = some false := by decide +kernel
  have hmake : (makeFile 0 0 2 (cstr [97]) fullMachine).toOption.map (fun done => done.1.isNone) = some true := by
    decide +kernel
  obtain ⟨⟨⟨ok, inode'⟩, fs'⟩, hwriteRun, rfl⟩ := eq_ok_of_toOption hwrite
  obtain ⟨⟨made, m'⟩, hmakeRun, hnone⟩ := eq_ok_of_toOption hmake
  obtain rfl : made = none := Option.isNone_iff_eq_none.mp hnone
  exact ⟨fullMachine_fileable, Nat.zero_le _, ⟨inode', fs', hwriteRun⟩, m', hmakeRun⟩

theorem smallMachine_fileable : Fileable smallStatic smallMachine 0 2 (cstr [97]) 0 2 := by
  refine fileable_of_smallRoot (fun _ => rfl) rfl smallFs_consistent (by decide) smallFs_record.2.1
    smallFs_dirOk (by decide) ⟨by decide, by decide⟩ ?_
  unfold FsInfo.HasRoom
  decide

theorem space_suffices_smallMachine :
    Runs (writeInode zero { Inode.zero with sizeLo := 70000 }) smallFs (fun result _ => result.1 = true) ∧
      Runs (makeFile 0 0 2 (cstr [97])) smallMachine fun made _ => made.isSome = true := by
  have hfree : smallFs.freeBlocks = 26 := by decide
  obtain ⟨hwrite, hmake⟩ := space_suffices_iff smallStatic smallMachine 0 0 2 2 0 (cstr [97]) zero
    { Inode.zero with sizeLo := 70000 }
  constructor
  · refine (hwrite smallFs_mounted (by decide)).mono fun result _ hiff => ?_
    change (_ ≤ smallFs.freeBlocks → _) ↔ ¬ (_ ≤ smallFs.freeBlocks ∧ smallFs.freeBlocks < _) at hiff
    rw [hfree] at hiff
    exact hiff.mpr (by decide) (by decide)
  · refine (hmake smallMachine_fileable).mono fun made _ hiff => hiff.mpr ?_
    change 1 ≤ smallFs.freeBlocks
    rw [hfree]
    decide

end DeprecatOS
