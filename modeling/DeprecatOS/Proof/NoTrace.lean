import DeprecatOS.Proof.DirMap
import DeprecatOS.Proof.Failure
import DeprecatOS.Proof.FileContents

/-!
# Calls that leave no trace

`make_file` and `make_symlink` allocate first and insert the name last. When the insertion fails, they release what they
allocated, and by then nothing else has been written: a failed insertion is idle. So a failed call leaves the bitmaps,
the counters and every allocated inode as they were. What is left behind is the record of the released inode and the
contents of free blocks.
-/

namespace DeprecatOS

open Bytes Bits Fault PointerTree

variable {static : UInt32 → Prop} {fs fs' fs₁ : FsInfo} {n : UInt32}

/-- The bitmaps, the counters, the records of the allocated inodes, which count their links, and the live entries of
all directories are what they were. -/
structure NoTrace (fs fs' : FsInfo) : Prop where
  space : SameSpace fs fs'
  dirCnt : fs'.dirCnt = fs.dirCnt
  record : ∀ n, fs.marked .inode n = true → fs'.record n = fs.record n
  entries : ∀ d, fs.marked .inode d = true → (fs.record d).type = inodeDirType →
    fs'.dirEntries (fs'.record d) = fs.dirEntries (fs.record d)

theorem Kept.noTrace (hcons : Consistent static fs) (hkept : Kept static fs fs') : NoTrace fs fs' where
  space := by
    refine sameSpace_of_marked hcons.mounted.sound hkept.consistent.mounted.sound hkept.geo fun kind => ?_
    cases kind with
    | block => exact funext fun b => Bool.eq_iff_iff.mpr (hkept.used b)
    | inode => exact hkept.marks
  dirCnt := hkept.dirCnt
  record n hn := (hkept.files n (FsInfo.real_of_marked hn)).record
  entries d hd htype := by
    have hsame := hkept.files d (FsInfo.real_of_marked hd)
    exact hsame.sameBody.dirEntries_eq (FsInfo.owner_of_dir hd htype)

theorem Change.noTrace (hcons : Consistent static fs) (hchange : Change static fs fs' n [] [])
    (hfree : fs.marked .inode n = false) (hmark : fs'.marked .inode n = false) (hdirCnt : fs'.dirCnt = fs.dirCnt) :
    NoTrace fs fs' := by
  have hold : ∀ b, b ∈ ([] : List UInt32) ↔ fs.Owner n ∧ b ∈ fs.owns n := fun b => by
    rw [FsInfo.Owner, hfree]
    simp
  have hfile : ∀ m, fs.marked .inode m = true → SameFile fs fs' m := by
    intro m hm
    refine hchange.sameFile hcons hold (FsInfo.real_of_marked hm) ?_
    rintro rfl
    rw [hfree] at hm
    cases hm
  refine ⟨sameSpace_of_marked hcons.mounted.sound hchange.mounted.sound hchange.geo fun kind => ?_, hdirCnt,
    fun m hm => (hfile m hm).record, fun d hd htype => ?_⟩
  · cases kind with
    | block =>
      funext b
      have hused := hchange.used b
      simp only [List.not_mem_nil, not_false_iff, and_true, or_false] at hused
      exact Bool.eq_iff_iff.mpr hused
    | inode =>
      funext m
      by_cases heq : m = n
      · rw [heq, hfree, hmark]
      · exact hchange.inodes m heq
  · exact (hfile d hd).sameBody.dirEntries_eq (FsInfo.owner_of_dir hd htype)

/-! ### Inserting the name -/

section Calls

variable {m m' : Machine} {i : Slot} {parentN childN now : UInt32} {name : Buf}

theorem onFs_getInode_eq_ok {found : Option Inode} (hrun : onFs i (getInode n) m = .ok (found, m')) :
    m' = m ∧ ∀ inode, found = some inode → (m.fsEntries i).geo.Real .inode n := by
  obtain ⟨fs', hget, rfl⟩ := onFs_eq_ok hrun
  obtain ⟨rfl, hreal⟩ := getInode_eq_ok hget
  exact ⟨m.withFs_self i, hreal⟩

theorem onFs_nameIn_eq_ok {inode : Inode} {found : Option UInt32} (hrun : onFs i (nameIn inode name) m = .ok (found, m')) :
    m' = m := by
  obtain ⟨fs', hfind, rfl⟩ := onFs_eq_ok hrun
  rw [nameIn_read hfind, m.withFs_self]

theorem dirInsert_fails (hmounted : Mounted static (m.fsEntries i))
    (hrun : dirInsert now i parentN name childN m = .ok (false, m')) :
    ∃ fs', m' = m.withFs i fs' ∧ Idle static (m.fsEntries i) fs' := by
  have hsame : ∃ fs', m = m.withFs i fs' ∧ Idle static (m.fsEntries i) fs' :=
    ⟨_, (m.withFs_self i).symm, .refl hmounted⟩
  rw [dirInsert] at hrun
  dsimp only at hrun
  split_ifs at hrun with hlen
  · cases hrun
    exact hsame
  obtain ⟨found, mid, hget, hnext⟩ := run_bind_eq_ok hrun
  obtain ⟨rfl, hreal⟩ := onFs_getInode_eq_ok hget
  obtain _ | child := found
  · cases hnext
    exact hsame
  dsimp only at hnext
  obtain ⟨root, mid, hroot, hlast⟩ := run_bind_eq_ok hnext
  cases hroot
  split_ifs at hlast with hother
  · cases hlast
    exact hsame
  · rw [not_not] at hother
    rw [hother] at hlast
    obtain ⟨fs', hinsert, rfl⟩ := onFs_eq_ok hlast
    exact ⟨fs', rfl, insertEntry_fails hmounted (hreal child rfl) hinsert⟩

/-! ### Files -/

theorem makeIn_eq_ok {fs : Slot} {result : Option (Slot × UInt32)} (hrun : makeIn fs parentN name m = .ok (result, m')) :
    m' = m ∧ ∀ found, result = some found → found = (m.mntRoot fs parentN).2 := by
  rw [makeIn] at hrun
  dsimp only at hrun
  by_cases hlen : nameLength name = 0 ∨ nameLen ≤ nameLength name
  · rw [if_pos hlen] at hrun
    cases hrun
    exact ⟨rfl, nofun⟩
  rw [if_neg hlen] at hrun
  obtain ⟨root, mid, hroot, hfound⟩ := run_bind_eq_ok hrun
  cases hroot
  obtain ⟨found, mid, hget, hparent⟩ := run_bind_eq_ok hfound
  obtain ⟨rfl, -⟩ := onFs_getInode_eq_ok hget
  obtain _ | parent := found
  · cases hparent
    exact ⟨rfl, nofun⟩
  dsimp only at hparent
  split_ifs at hparent with htype
  · cases hparent
    exact ⟨rfl, nofun⟩
  obtain ⟨taken, mid, hname, hlast⟩ := run_bind_eq_ok hparent
  obtain rfl := onFs_nameIn_eq_ok hname
  split_ifs at hlast
  · cases hlast
    exact ⟨rfl, nofun⟩
  · cases hlast
    exact ⟨rfl, fun found hfound => (Option.some.inj hfound).symm⟩

theorem makeFile_fails {fs : Slot} (hcons : Consistent static (m.fsEntries (m.mntRoot fs parentN).2.1))
    (hrun : makeFile now fs parentN name m = .ok (none, m')) :
    ∃ fs', m' = m.withFs (m.mntRoot fs parentN).2.1 fs' ∧ NoTrace (m.fsEntries (m.mntRoot fs parentN).2.1) fs' := by
  have hsame : ∃ fs', m = m.withFs (m.mntRoot fs parentN).2.1 fs' ∧
      NoTrace (m.fsEntries (m.mntRoot fs parentN).2.1) fs' :=
    ⟨_, (m.withFs_self _).symm, (Kept.refl hcons).noTrace hcons⟩
  rw [makeFile] at hrun
  obtain ⟨found, mid, hchecks, hput⟩ := run_bind_eq_ok hrun
  obtain ⟨rfl, hfound⟩ := makeIn_eq_ok hchecks
  obtain _ | ⟨i, p⟩ := found
  · cases hput
    exact hsame
  have hslot : i = (mid.mntRoot fs parentN).2.1 := congrArg Prod.fst (hfound _ rfl)
  rw [← hslot] at hcons ⊢
  obtain ⟨put, mid₁, halloc, hinsert⟩ := run_bind_eq_ok hput
  obtain ⟨fs₁, hruns, rfl⟩ := onFs_eq_ok halloc
  obtain ⟨rfl, hkept⟩ | ⟨n, inode, rfl, hnew⟩ := (putInode_spec hcons (by decide) now zero false).of_run hruns
  · cases hinsert
    exact ⟨fs₁, rfl, hkept.noTrace hcons⟩
  have hmounted := hnew.change.mounted
  have hchange : Change static (mid.fsEntries i) fs₁ n [] [] := by
    have howner : fs₁.Owner n := by
      refine ⟨hnew.allotted.mark, fun hinline => ?_⟩
      rw [hnew.allotted.record, Inode.Inline, hnew.type] at hinline
      exact absurd hinline.1 (by decide)
    have hok := hnew.allotted.changed.consistent.inode n howner
    rw [hnew.allotted.record] at hok
    have hnone := hnew.change
    rwa [(hok.empty hnew.size).2.2] at hnone
  have hreal : (mid.fsEntries i).geo.Real .inode n := by
    rw [← hchange.geo]
    exact FsInfo.real_of_marked hnew.allotted.mark
  obtain ⟨ok, mid₂, hdir, hlast⟩ := run_bind_eq_ok hinsert
  cases ok with
  | true => cases hlast
  | false =>
    obtain ⟨fs₂, rfl, hidle⟩ := dirInsert_fails (by rwa [Machine.withFs_fsEntries_self]) hdir
    rw [Machine.withFs_fsEntries_self] at hidle
    rw [Machine.withFs_withFs] at hlast
    obtain ⟨freed, mid₃, hfree, hend⟩ := run_bind_eq_ok hlast
    obtain ⟨fs₃, hfreeRun, rfl⟩ := onFs_eq_ok hfree
    cases hend
    rw [Machine.withFs_fsEntries_self] at hfreeRun
    have hchange₂ := hidle.change hcons.layout hchange
    obtain ⟨-, hremarked⟩ := (hidle.frame.mounted.freeInode_spec hnew.allotted.ne
      (by rwa [hchange₂.geo])).of_run hfreeRun
    refine ⟨fs₃, Machine.withFs_withFs .., ?_⟩
    refine (hchange₂.remarked hcons.layout hremarked).noTrace hcons hnew.allotted.free ?_ ?_
    · rw [hremarked.inodes, Function.update_self]
    · rw [hremarked.dirCnt, hidle.frame.dirCnt, hnew.dirCnt]
      rfl

/-! ### Links -/

section Links

variable {blockN : Option UInt32} {symlink : Inode} {junk target : Buf} {len : Nat}

theorem mapFileBlock_first_spec (hmounted : Mounted static fs) (hzero : symlink.dirBlockPtr 0 = 0) :
    Runs (mapFileBlock symlink 0 .alloc none) fs fun call fs' =>
      (call.status ≠ .writeSuccess ∧ fs' = fs) ∨
      ∃ b, call.status = .writeSuccess ∧ call.diskBlk = some b ∧ Took static fs fs' b := by
  rw [mapFileBlock, dif_pos (by decide), mapDirect, if_pos (by exact hzero), if_neg (by decide)]
  refine hmounted.allocBlock_spec.bind fun b fs' halloc => ?_
  obtain ⟨rfl, rfl⟩ | htook := halloc
  · rw [if_pos rfl]
    exact Runs.pure (.inl ⟨show Status.blockError ≠ .writeSuccess by decide, rfl⟩)
  · rw [if_neg htook.ne_zero]
    exact Runs.pure (.inr ⟨b, rfl, rfl, htook⟩)

theorem writeTarget_spec (hmounted : Mounted static fs) (hzero : symlink.dirBlockPtr 0 = 0) :
    Runs (writeTarget junk target len symlink) fs fun result fs' =>
      (result = none ∧ fs' = fs) ∨
      ∃ blockN symlink', result = some (blockN, symlink') ∧ Trade static [] blockN.toList fs fs' := by
  rw [writeTarget]
  split_ifs with hlong
  · refine (mapFileBlock_first_spec hmounted hzero).bind fun call fs₁ hcall => ?_
    obtain ⟨hstatus, rfl⟩ | ⟨b, hstatus, hdisk, htook⟩ := hcall
    · rw [if_neg hstatus]
      exact Runs.pure (.inl ⟨rfl, rfl⟩)
    · have hused := (htook.used b).mpr (.inr rfl)
      rw [if_pos hstatus, Mapped.blkOut, hdisk]
      refine Runs.bind_eq (run_pure _ _) ?_
      refine (htook.frame.mounted.writeBlock_spec hused htook.notStatic _).bind fun _ fs' hwrote => Runs.pure (.inr ?_)
      exact ⟨some b, _, rfl, (Trade.of_took htook).trans (.of_wrote hused hwrote)⟩
  · exact Runs.pure (.inr ⟨none, _, rfl, .refl hmounted (by simp)⟩)

theorem dropLink_spec (hmounted : Mounted static fs) (hne : n ≠ inodeError) (hreal : fs.geo.Real .inode n)
    (hown : Owned static fs blockN.toList) :
    Runs (dropLink n blockN) fs fun _ fs' =>
      ∃ mid, Remarked static fs mid n false ∧ Trade static blockN.toList [] mid fs' := by
  unfold dropLink
  refine (hmounted.freeInode_spec hne hreal).bind fun _ fs₁ hfreed => ?_
  have hremarked := hfreed.2
  cases blockN with
  | none => exact Runs.pure ⟨fs₁, hremarked, .refl hremarked.mounted (by simp)⟩
  | some b =>
    obtain ⟨hused, hstatic⟩ := hown b (by simp)
    refine (hremarked.mounted.freeBlock_spec ((hremarked.used b).mpr hused) hstatic).bind fun _ fs' hdropped => ?_
    exact Runs.pure ⟨fs₁, hremarked, .of_dropped hdropped⟩

theorem dropLink_noTrace (hcons : Consistent static fs) (hfree : fs.marked .inode n = false)
    (hne : n ≠ inodeError) (hreal : fs.geo.Real .inode n) (hchange : Change static fs fs₁ n [] blockN.toList)
    (hdirCnt : fs₁.dirCnt = fs.dirCnt) {u : Unit} (hrun : dropLink n blockN fs₁ = .ok (u, fs')) : NoTrace fs fs' := by
  have hown : Owned static fs₁ blockN.toList := by
    intro b hb
    refine ⟨(hchange.used b).mpr (.inr hb), fun hstatic => ?_⟩
    exact hchange.fresh b hb List.not_mem_nil (hcons.mounted.used b hstatic)
  obtain ⟨mid, hremarked, htrade⟩ := (dropLink_spec hchange.mounted hne (by rwa [hchange.geo]) hown).of_run hrun
  have hlast := (hchange.remarked hcons.layout hremarked).trade hcons.layout (fun b hb => (hown b hb).2) htrade
  refine hlast.noTrace hcons hfree ?_ ?_
  · rw [htrade.frame.inodes, hremarked.inodes, Function.update_self]
  · rw [htrade.frame.dirCnt, hremarked.dirCnt, hdirCnt]

theorem makeSymlink_fails {fs : Slot} (hcons : Consistent static (m.fsEntries (m.mntRoot fs parentN).2.1))
    (hrun : makeSymlink now junk fs parentN name target m = .ok (false, m')) :
    ∃ fs', m' = m.withFs (m.mntRoot fs parentN).2.1 fs' ∧ NoTrace (m.fsEntries (m.mntRoot fs parentN).2.1) fs' := by
  obtain ⟨root, hroot⟩ : ∃ root, root = m.mntRoot fs parentN := ⟨_, rfl⟩
  have hsame : ∃ fs', m = m.withFs root.2.1 fs' ∧ NoTrace (m.fsEntries root.2.1) fs' :=
    ⟨_, (m.withFs_self _).symm, (Kept.refl (hroot ▸ hcons)).noTrace (hroot ▸ hcons)⟩
  rw [← hroot] at hcons ⊢
  rw [makeSymlink] at hrun
  dsimp only at hrun
  split_ifs at hrun with hlen
  · cases hrun
    exact hsame
  obtain ⟨root', mid, hresolve, hmint⟩ := run_bind_eq_ok hrun
  cases hresolve
  rw [← hroot] at hmint
  obtain ⟨minted, mid₁, hminted, hbody⟩ := run_bind_eq_ok hmint
  obtain ⟨fs₁, hmintRun, rfl⟩ := onFs_eq_ok hminted
  obtain ⟨rfl, rfl⟩ | ⟨n, rfl, hne, hreal, hfree, hmarked⟩ :=
    (hcons.mounted.mintInode_spec now _ inodeSymlinkType).of_run hmintRun
  · cases hbody
    exact ⟨_, rfl, (Kept.refl hcons).noTrace hcons⟩
  have hstart : Change static (m.fsEntries root.2.1) fs₁ n [] [] :=
    (Change.refl hcons.mounted n (by simp)).remarked hcons.layout hmarked
  dsimp only at hbody
  obtain ⟨body, mid₂, hwrite, hstore⟩ := run_bind_eq_ok hbody
  obtain ⟨fs₂, hwriteRun, rfl⟩ := onFs_eq_ok hwrite
  rw [Machine.withFs_fsEntries_self] at hwriteRun
  rw [Machine.withFs_withFs] at hstore
  obtain ⟨rfl, rfl⟩ | ⟨blockN, symlink, rfl, htrade⟩ := (writeTarget_spec hmarked.mounted rfl).of_run hwriteRun
  · -- no block for the target: the inode is released
    obtain ⟨freed, mid₃, hfreed, hend⟩ := run_bind_eq_ok hstore
    obtain ⟨fs₃, hfreeRun, rfl⟩ := onFs_eq_ok hfreed
    cases hend
    rw [Machine.withFs_fsEntries_self] at hfreeRun
    obtain ⟨-, hremarked⟩ := (hmarked.mounted.freeInode_spec hne (by rwa [hmarked.geo])).of_run hfreeRun
    refine ⟨fs₃, Machine.withFs_withFs .., ?_⟩
    refine (hstart.remarked hcons.layout hremarked).noTrace hcons hfree ?_ ?_
    · rw [hremarked.inodes, Function.update_self]
    · rw [hremarked.dirCnt, hmarked.dirCnt]
  have hchange := hstart.trade hcons.layout (by simp) htrade
  dsimp only at hstore
  obtain ⟨stored, mid₃, hset, hinsert⟩ := run_bind_eq_ok hstore
  obtain ⟨fs₃, hsetRun, rfl⟩ := onFs_eq_ok hset
  rw [Machine.withFs_withFs] at hinsert
  rw [Machine.withFs_fsEntries_self] at hsetRun
  obtain ⟨rfl, hstored⟩ := (setInode_spec htrade.frame.mounted (hcons.layout.of_geo hchange.geo)
    (by rwa [hchange.geo]) symlink).of_run hsetRun
  rw [if_pos rfl] at hinsert
  obtain ⟨ok, mid₄, hdir, hlast⟩ := run_bind_eq_ok hinsert
  cases ok with
  | true => cases hlast
  | false =>
    obtain ⟨fs₄, rfl, hidle⟩ := dirInsert_fails (by
      rw [Machine.withFs_fsEntries_self]
      exact hstored.frame.mounted) hdir
    rw [Machine.withFs_fsEntries_self] at hidle
    rw [Machine.withFs_withFs] at hlast
    obtain ⟨_, mid₅, hdrop, hend⟩ := run_bind_eq_ok hlast
    obtain ⟨fs₅, hdropRun, rfl⟩ := onFs_eq_ok hdrop
    cases hend
    rw [Machine.withFs_fsEntries_self] at hdropRun
    refine ⟨fs₅, Machine.withFs_withFs .., ?_⟩
    refine dropLink_noTrace hcons hfree hne hreal (hidle.change hcons.layout (hchange.stored hstored)) ?_ hdropRun
    rw [hidle.frame.dirCnt, hstored.frame.dirCnt, htrade.frame.dirCnt, hmarked.dirCnt]

end Links

/-- A failed `make_file` or `make_symlink` changes one filesystem at most, and leaves no trace there. -/
theorem failed_make_noTrace {fs : Slot} (hcons : Consistent static (m.fsEntries (m.mntRoot fs parentN).2.1))
    (junk target : Buf) :
    (makeFile now fs parentN name m = .ok (none, m') →
      ∃ fs', m' = m.withFs (m.mntRoot fs parentN).2.1 fs' ∧ NoTrace (m.fsEntries (m.mntRoot fs parentN).2.1) fs') ∧
    (makeSymlink now junk fs parentN name target m = .ok (false, m') →
      ∃ fs', m' = m.withFs (m.mntRoot fs parentN).2.1 fs' ∧ NoTrace (m.fsEntries (m.mntRoot fs parentN).2.1) fs') :=
  ⟨makeFile_fails hcons, makeSymlink_fails hcons⟩

end Calls

def fullMachine : Machine := { smallMachine with fsEntries := fun _ => fullFs }

theorem failed_make_noTrace_fullMachine :
    (∃ m', makeFile 0 0 2 (cstr [97]) fullMachine = .ok (none, m') ∧
      ∃ fs', m' = fullMachine.withFs 0 fs' ∧ NoTrace fullFs fs') ∧
    ∃ m', makeSymlink 0 zero 0 2 (cstr [97]) (cstr (List.replicate 60 97)) fullMachine = .ok (false, m') ∧
      ∃ fs', m' = fullMachine.withFs 0 fs' ∧ NoTrace fullFs fs' := by
  have hfile : (makeFile 0 0 2 (cstr [97]) fullMachine).toOption.map (fun done => done.1.isNone) = some true := by
    decide
  have hlink : (makeSymlink 0 zero 0 2 (cstr [97]) (cstr (List.replicate 60 97)) fullMachine).toOption.map Prod.fst =
      some false := by
    decide
  have hroot : (fullMachine.mntRoot 0 2).2.1 = 0 := by decide
  have hcons : Consistent fullStatic (fullMachine.fsEntries (fullMachine.mntRoot 0 2).2.1) := (crowdedFs_consistent 0)
  obtain ⟨⟨made, m₁⟩, hmake, hnone⟩ := eq_ok_of_toOption hfile
  obtain rfl : made = none := Option.isNone_iff_eq_none.mp hnone
  obtain ⟨⟨linked, m₂⟩, hsymlink, rfl⟩ := eq_ok_of_toOption hlink
  have htrace := (failed_make_noTrace hcons zero zero).1 hmake
  have htrace' := (failed_make_noTrace hcons _ _).2 hsymlink
  rw [hroot] at htrace htrace'
  exact ⟨⟨m₁, hmake, htrace⟩, m₂, hsymlink, htrace'⟩

end DeprecatOS
