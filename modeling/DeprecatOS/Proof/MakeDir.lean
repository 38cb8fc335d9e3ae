import DeprecatOS.Proof.MountTable
import DeprecatOS.Proof.NoTrace
import DeprecatOS.Proof.Sample
import DeprecatOS.Proof.WriteNeeds

/-!
# Directories that could not be completed

`make_dir` allocates an inode and a block, writes `.` and `..` there and inserts the name into the parent last. It has
no way back: when the parent has no room for the name and cannot grow, the new inode stays allocated. That is the only
way for a failed call to leave a trace, and when it happens depends on the state before the call alone: one free block
less than the parent needs remains after the new directory took its own.
-/

namespace DeprecatOS

open Bytes Bits Fault PointerTree Tiling

variable {static : UInt32 → Prop} {fs fs' fs₁ : FsInfo} {inode : Inode} {d c n : UInt32}

/-! ### Room in a directory -/

def FsInfo.HasRoom (fs : FsInfo) (inode : Inode) (len : Nat) : Prop :=
  ∃ i < inode.dirBlocks, ∃ p ∈ records (fs.fileBlock inode i), roomAt (fs.fileBlock inode i) len p = true

theorem hasRoom_iff (hdir : DirOk fs inode) (len : Nat) : fs.HasRoom inode len ↔ ∃ i < inode.dirBlocks,
    ∃ p ∈ records (fs.data (mapped fs.entries inode i)), roomAt (fs.data (mapped fs.entries inode i)) len p = true := by
  apply exists_congr
  intro i
  apply and_congr_right
  intro hi
  refine ((hdir.block i hi).room_congr (fun k hk => ?_) len).symm
  exact (FsInfo.fileBlock_apply (hdir.mapped i hi) hk).symm

section SameBody

variable (hsame : SameBody fs fs' n) (howner : fs.Owner n)

include hsame howner

theorem SameBody.hasRoom_iff (len : Nat) : fs'.HasRoom (fs'.record n) len ↔ fs.HasRoom (fs.record n) len := by
  rw [FsInfo.HasRoom, FsInfo.HasRoom, hsame.dirBlocks_eq]
  apply exists_congr
  intro i
  apply and_congr_right
  intro hi
  rw [hsame.fileBlock_eq howner hi]

theorem SameBody.missingAt_eq (hok : InodeOk static fs (fs.record n)) (hok' : InodeOk static fs' (fs'.record n)) {idx : Nat}
    (hidx : idx < fileBlkLimit) :
    missingAt fs'.entries (fs'.record n) idx = missingAt fs.entries (fs.record n) idx := by
  obtain ⟨hroot, hbelow⟩ := locate_lt hidx
  refine missing_congr (hok'.tree.full _ hroot) (hok.tree.full _ hroot) (fun o ho => ?_) hbelow
  obtain ⟨hlimit, hlocate⟩ := locate_indexOf hroot ho
  have hholes := hsame.holes howner _ hlimit
  rwa [mapped, mapped, hlocate] at hholes

end SameBody

/-! ### Inserting when space is short -/

theorem DirOk.sizeLo_le (hdir : DirOk fs inode) : inode.sizeLo.toNat ≤ maxSize := by
  have hlt := inode.sizeLo.toNat_lt
  obtain ⟨k, hk⟩ := hdir.aligned
  rw [blockSize] at hk
  rw [maxSize]
  omega

theorem DirOk.blocksFor_eq (hdir : DirOk fs inode) : (blocksFor inode.sizeLo).toNat = inode.dirBlocks := by
  have haligned := hdir.aligned
  rw [toNat_blocksFor hdir.sizeLo_le, sizeBlocks, Inode.dirBlocks]
  rw [blockSize] at haligned ⊢
  omega

theorem Inode.dirBlocks_lt_limit (inode : Inode) : inode.dirBlocks < fileBlkLimit := by
  have hlt := inode.dirBlocks_lt
  rw [fileBlkLimit]
  omega

section Insert

variable (hcons : Consistent static fs) (howner : fs.Owner d) (hdir : DirOk fs (fs.record d))
  (htype : (fs.record d).type = inodeDirType) (hc : fs.geo.Real .inode c) {name : Buf} {len : Nat} (hlen : len < 256)
  {now : UInt32}

include hcons howner hdir hc

omit hc in
theorem mapFileBlock_grow_enough {call : Mapped}
    (hrun : mapFileBlock (fs.record d) (blocksFor (fs.record d).sizeLo) .alloc (some 0) fs = .ok (call, fs')) :
    call.status = .writeSuccess ↔ missingAt fs.entries (fs.record d) (fs.record d).dirBlocks ≤ fs.freeBlocks := by
  rw [← hdir.blocksFor_eq]
  refine mapFileBlock_alloc_enough hcons.mounted (hcons.inode d howner).tree ?_ hrun
  rw [hdir.blocksFor_eq]
  exact Inode.dirBlocks_lt_limit _

include htype hlen

theorem insertEntry_false (hrun : insertEntry now d name len c (fs.record c) fs = .ok (false, fs')) :
    ¬ fs.HasRoom (fs.record d) len ∧
      fs.freeBlocks < missingAt fs.entries (fs.record d) (fs.record d).dirBlocks := by
  have hd := FsInfo.real_of_marked howner.1
  rw [insertEntry, run_bind_ok (getInode_run hcons.mounted hcons.layout hd)] at hrun
  dsimp only at hrun
  rw [if_neg (not_not.mpr htype)] at hrun
  obtain ⟨result, mid, hscan, hlast⟩ := run_bind_eq_ok hrun
  obtain ⟨rfl, rfl, hfull⟩ | ⟨i, -, p, -, -, rfl, -⟩ := (insertInBlocks_room hcons howner hdir hc name hlen now).of_run hscan
  · refine ⟨?_, ?_⟩
    · rw [hasRoom_iff hdir]
      rintro ⟨i, hi, hroom⟩
      exact hfull i hi hroom
    · obtain ⟨hlong, -⟩ | ⟨call, hcall, hstatus⟩ := growDir_eq_false hd hc hlast
      · have hle := hdir.sizeLo_le
        rw [maxFileSize, align4] at hlong
        rw [maxSize] at hle
        omega
      · rw [← not_le]
        exact mt (mapFileBlock_grow_enough hcons howner hdir hcall).mpr hstatus
  · cases hlast

theorem insertEntry_full (hroom : ¬ fs.HasRoom (fs.record d) len)
    (hfree : fs.freeBlocks < missingAt fs.entries (fs.record d) (fs.record d).dirBlocks) :
    Runs (insertEntry now d name len c (fs.record c)) fs fun ok fs' => ok = false ∧ Idle static fs fs' := by
  suffices hruns : Runs (insertEntry now d name len c (fs.record c)) fs fun ok _ => ok = false by
    refine hruns.with_run.mono fun ok fs' hdone => ?_
    obtain ⟨hrun, rfl⟩ := hdone
    exact ⟨rfl, insertEntry_fails hcons.mounted hc hrun⟩
  rw [insertEntry]
  refine Runs.bind_eq (getInode_run hcons.mounted hcons.layout (FsInfo.real_of_marked howner.1)) ?_
  dsimp only
  rw [if_neg (not_not.mpr htype)]
  refine (insertInBlocks_room hcons howner hdir hc name hlen now).bind fun result fs' hresult => ?_
  obtain ⟨rfl, rfl, -⟩ | ⟨i, hi, p, hp, hroomAt, -⟩ := hresult
  · dsimp only
    rw [growDir]
    by_cases hlong : maxFileSize < (fs'.record d).sizeLo.toNat + align4 (8 + len)
    · rw [if_pos hlong]
      exact Runs.pure rfl
    · rw [if_neg hlong]
      have hlimit : (blocksFor (fs'.record d).sizeLo).toNat < fileBlkLimit := by
        rw [hdir.blocksFor_eq]
        exact Inode.dirBlocks_lt_limit _
      refine (mapFileBlock_alloc_within hcons.mounted (hcons.inode d howner).tree hlimit (some 0)).with_run.bind
        fun call fs'' hcall => ?_
      rw [if_neg (mt (mapFileBlock_grow_enough hcons howner hdir hcall.1).mp (not_le.mpr hfree))]
      exact Runs.pure rfl
  · exact absurd ((hasRoom_iff hdir len).mpr ⟨i, hi, p, hp, hroomAt⟩) hroom

theorem insertEntry_room (hroom : fs.HasRoom (fs.record d) len) :
    Runs (insertEntry now d name len c (fs.record c)) fs fun ok fs' => ok = true ∧
      Inserted static fs fs' d ⟨(List.range len).map name, c, entryType (fs.record c)⟩ := by
  obtain ⟨i, hi, hsome⟩ := (hasRoom_iff hdir len).mp hroom
  rw [insertEntry]
  refine Runs.bind_eq (getInode_run hcons.mounted hcons.layout (FsInfo.real_of_marked howner.1)) ?_
  dsimp only
  rw [if_neg (not_not.mpr htype)]
  refine (insertInBlocks_room hcons howner hdir hc name hlen now).bind fun result fs' hresult => ?_
  obtain ⟨-, -, hfull⟩ | ⟨-, -, -, -, -, rfl, hinserted, -⟩ := hresult
  · exact absurd hsome (hfull i hi)
  · exact Runs.pure ⟨rfl, hinserted⟩

end Insert

/-! ### The block of the new directory -/

theorem InodeOk.refs_one (hok : InodeOk static fs inode) (hsize : inode.sizeLo = 4096)
    (hmapped : mapped fs.entries inode 0 ≠ 0) : refs fs.entries inode = [mapped fs.entries inode 0] := by
  have hroot : ∀ r, 0 < r → r < 15 → inode.root r = 0 := by
    intro r hpos hr
    apply hok.root_eq_zero hr
    intro o
    rw [hsize, indexOf]
    change 1 ≤ _
    split_ifs <;> omega
  have hfirst : mapped fs.entries inode 0 = inode.root 0 := rfl
  rw [hfirst] at hmapped ⊢
  rw [refs, forest, List.range_succ_eq_map, List.flatMap_cons, List.flatMap_eq_nil_iff.mpr]
  · change blocks ptrsPerBlk fs.entries 0 (inode.root 0) ++ [] = _
    rw [blocks, if_neg hmapped, List.append_nil]
  · intro r hr
    obtain ⟨k, hk, rfl⟩ := List.mem_map.mp hr
    rw [hroot _ (Nat.succ_pos k) (by have := List.mem_range.mp hk; omega), blocks_zero_ptr]

structure OneRecord (fs : FsInfo) (inode : Inode) : Prop where
  size : inode.sizeLo = 4096
  present : mapped fs.entries inode 0 ≠ 0
  whole : entrySize (fs.data (mapped fs.entries inode 0)) 0 = blockSize

theorem blockOk_of_whole {buf : Buf} (hwhole : entrySize buf 0 = blockSize) : BlockOk buf ∧ records buf = [0] := by
  refine BlockOk.of_tiles (tiles_singleton.mpr ⟨rfl, by rw [hwhole]; decide, by rw [hwhole, Nat.zero_add]⟩) ?_
  intro p hp
  rw [List.mem_singleton.mp hp]
  have hname := entryNameLen_lt buf 0
  refine ⟨by rw [hwhole]; decide, ?_⟩
  rw [hwhole, trueSize, align4, blockSize]
  omega

section OneRecord

variable (hone : OneRecord fs inode)

include hone

theorem OneRecord.dirBlocks_eq : inode.dirBlocks = 1 := by
  rw [Inode.dirBlocks, hone.size]
  rfl

theorem OneRecord.dirOk : DirOk fs inode := by
  refine ⟨by rw [hone.size]; decide, fun i hi => ?_, fun i hi => ?_⟩
  · rw [hone.dirBlocks_eq, Nat.lt_one_iff] at hi
    rw [hi]
    exact hone.present
  · rw [hone.dirBlocks_eq, Nat.lt_one_iff] at hi
    rw [hi]
    refine ((blockOk_of_whole hone.whole).1.congr fun k hk => ?_).1
    exact FsInfo.fileBlock_apply hone.present hk

theorem OneRecord.hasRoom {len : Nat} (hlen : len < 256) : fs.HasRoom inode len := by
  rw [hasRoom_iff hone.dirOk, hone.dirBlocks_eq]
  refine ⟨0, Nat.one_pos, 0, ?_, ?_⟩
  · rw [(blockOk_of_whole hone.whole).2]
    exact List.mem_singleton.mpr rfl
  · have hname := entryNameLen_lt (fs.data (mapped fs.entries inode 0)) 0
    rw [roomAt, hone.whole, Bool.or_eq_true]
    refine .inr (decide_eq_true ?_)
    rw [trueSize, align4, align4, blockSize]
    omega

end OneRecord

theorem OneRecord.insertEntry_spec (hone : OneRecord fs (fs.record d)) (hcons : Consistent static fs)
    (howner : fs.Owner d) (htype : (fs.record d).type = inodeDirType) (hc : fs.geo.Real .inode c) (name : Buf) {len : Nat}
    (hlen : len < 256) (now : UInt32) :
    Runs (insertEntry now d name len c (fs.record c)) fs fun ok fs' => ok = true ∧
      Inserted static fs fs' d ⟨(List.range len).map name, c, entryType (fs.record c)⟩ ∧
      (∀ q, fs'.Used q ↔ fs.Used q) ∧
      (entryInode (fs.data (mapped fs.entries (fs.record d) 0)) 0 = 0 → OneRecord fs' (fs'.record d)) := by
  have hdir := hone.dirOk
  have hroom := (hasRoom_iff hdir len).mp (hone.hasRoom hlen)
  rw [insertEntry]
  refine Runs.bind_eq (getInode_run hcons.mounted hcons.layout (FsInfo.real_of_marked howner.1)) ?_
  dsimp only
  rw [if_neg (not_not.mpr htype)]
  refine (insertInBlocks_room hcons howner hdir hc name hlen now).bind fun result fs' hresult => ?_
  obtain ⟨-, -, hfull⟩ | ⟨i, hi, p, hp, -, rfl, hinserted, hrecord, hused, hplaced⟩ := hresult
  · obtain ⟨i, hi, hsome⟩ := hroom
    exact absurd hsome (hfull i hi)
  refine Runs.pure ⟨rfl, hinserted, hused, fun hdead => ?_⟩
  rw [hone.dirBlocks_eq, Nat.lt_one_iff] at hi
  subst hi
  rw [(blockOk_of_whole hone.whole).2, List.mem_singleton] at hp
  subst hp
  have hsize : (fs'.record d).sizeLo = 4096 := hrecord.sizeLo_eq.trans hone.size
  refine ⟨hsize, hinserted.dir.mapped 0 ?_, ?_⟩
  · rw [Inode.dirBlocks, hsize]
    decide
  · have hfits : align4 (8 + len) ≤ blockSize := by
      rw [align4, blockSize]
      omega
    rw [hplaced, placeEntry, if_pos ⟨hdead, by rw [hone.whole]; exact hfits⟩, writeEntry_size, hone.whole]

theorem Put.oneRecord (hput : Put static fs fs' n inode (setEntrySize zero 0 blockSize) 4096 true) :
    OneRecord fs' (fs'.record n) ∧ entryInode (fs'.data (mapped fs'.entries (fs'.record n) 0)) 0 = 0 := by
  obtain ⟨hne, hdata⟩ := hput.content 0 (by simp [sizeBlocks])
  have hsame : ∀ k, 0 ≤ k → k < 0 + 8 → fs'.data (mapped fs'.entries inode 0) k = setEntrySize zero 0 blockSize k := by
    intro k _ hk
    rw [hdata k (by rw [blockSize]; omega), if_pos, Nat.mul_zero, Nat.zero_add]
    change 4096 * 0 + k < 4096
    omega
  rw [hput.allotted.record]
  refine ⟨⟨hput.size, hne, ?_⟩, ?_⟩
  · rw [entrySize_congr hsame le_rfl]
    decide
  · rw [entryInode_congr hsame le_rfl]
    decide

theorem Put.freeBlocks (hcons : Consistent static fs) {buf : Buf} {isDir : Bool}
    (hput : Put static fs fs' n inode buf 4096 isDir) : fs'.freeBlocks + 1 = fs.freeBlocks := by
  have howner : fs'.Owner n := by
    refine ⟨hput.allotted.mark, fun hinline => ?_⟩
    rw [hput.allotted.record, Inode.Inline, hput.type] at hinline
    cases isDir <;> exact absurd hinline.1 (by decide)
  have hok := hput.allotted.changed.consistent.inode n howner
  rw [hput.allotted.record] at hok
  have hrefs := hok.refs_one hput.size (hput.content 0 (by simp [sizeBlocks])).ne_zero
  have hchange := hput.change
  rw [hrefs] at hchange
  refine freeBlocks_add hcons.mounted.sound hchange.mounted.sound hchange.geo (List.nodup_singleton _)
    (fun b hb => hchange.fresh b hb List.not_mem_nil) fun q => ?_
  rw [hchange.used]
  simp

/-! ### Crossings on the way -/

/-- The root filesystem is not mounted, and every mountpoint is an allocated inode of it. -/
structure Machine.MountsOk (m : Machine) : Prop where
  root : m.RootUnmounted
  live : ∀ part, (m.fsEntries part).mountpoint ≠ 0 →
    (m.fsEntries m.rootFs).marked .inode (m.fsEntries part).mountpoint = true

namespace Machine

variable {m : Machine} {i : Slot}

theorem mntRoot_of_not_mountpoint (hfree : i = m.rootFs → ∀ part, (m.fsEntries part).mountpoint ≠ n) :
    (m.mntRoot i n).2 = (i, n) := by
  rw [mntRoot]
  split_ifs with hslot
  · rfl
  · rw [List.find?_eq_none.mpr]
    intro part _
    simpa using hfree (not_not.mp hslot) part

theorem RootUnmounted.mntRoot_again (hroot : m.RootUnmounted) {fs : Slot} {parentN : UInt32} (hparent : parentN ≠ 0)
    (hresolve : (m.mntRoot fs parentN).2 = (i, d)) : (m.mntRoot i d).2 = (i, d) := by
  rw [mntRoot] at hresolve
  split_ifs at hresolve with hslot
  · cases hresolve
    exact mntRoot_of_not_mountpoint fun heq => absurd heq hslot
  · cases hfind : (List.finRange 8).find? fun part => (m.fsEntries part).mountpoint = parentN with
    | none =>
      rw [hfind] at hresolve
      cases hresolve
      refine mntRoot_of_not_mountpoint fun _ part => ?_
      simpa using List.find?_eq_none.mp hfind part (List.mem_finRange part)
    | some part =>
      rw [hfind] at hresolve
      cases hresolve
      have hmount : (m.fsEntries i).mountpoint = parentN := by simpa using List.find?_some hfind
      refine mntRoot_of_not_mountpoint fun heq => ?_
      rw [heq] at hmount
      exact absurd (hmount.symm.trans hroot) hparent

theorem mountpoint_withFs {info : FsInfo} (hgeo : info.geo = (m.fsEntries i).geo) (part : Slot) :
    ((m.withFs i info).fsEntries part).mountpoint = (m.fsEntries part).mountpoint := by
  change (Function.update m.fsEntries i info part).mountpoint = _
  rw [Function.update_apply]
  split_ifs with heq
  · rw [heq]
    exact congrArg Geo.mountpoint hgeo
  · rfl

theorem mntRoot_withFs {info : FsInfo} (hgeo : info.geo = (m.fsEntries i).geo) (fs : Slot) (n : UInt32) :
    (m.withFs i info).mntRoot fs n = m.mntRoot fs n := by
  rw [mntRoot, mntRoot]
  simp only [mountpoint_withFs hgeo]
  rfl

theorem mntMountpoint_withFs {info : FsInfo} (hgeo : info.geo = (m.fsEntries i).geo) (fs : Slot) (n : UInt32) :
    (m.withFs i info).mntMountpoint fs n = m.mntMountpoint fs n := by
  rw [mntMountpoint, mntMountpoint, mountpoint_withFs hgeo]
  rfl

theorem MountsOk.mntRoot_free (hmounts : m.MountsOk) (hreal : (m.fsEntries i).geo.Real .inode n)
    (hfree : (m.fsEntries i).marked .inode n = false) : (m.mntRoot i n).2 = (i, n) := by
  refine mntRoot_of_not_mountpoint fun heq part hmount => ?_
  have hlive := hmounts.live part (by rw [hmount]; exact UInt32.pos_iff_ne_zero.mp hreal.1)
  rw [hmount, ← heq, hfree] at hlive
  cases hlive

end Machine

section Calls

variable {m m' : Machine} {i : Slot} {parentN now : UInt32} {name : Buf}

theorem dirInsert_run (hcons : Consistent static (m.fsEntries i)) (hname : ¬ (nameLength name = 0 ∨ nameLen ≤ nameLength name))
    (hc : (m.fsEntries i).geo.Real .inode c) (hresolve : (m.mntRoot i parentN).2 = (i, d)) :
    dirInsert now i parentN name c m =
      onFs i (insertEntry now d name (nameLength name) c ((m.fsEntries i).record c)) m := by
  rw [dirInsert]
  dsimp only
  rw [if_neg hname, run_bind_ok (onFs_run_read (getInode_run hcons.mounted hcons.layout hc))]
  dsimp only
  rw [run_bind_ok (returnMntRoot_run hresolve)]
  dsimp only
  rw [if_neg (not_not.mpr rfl)]

/-- Both entries of a new directory were written: of the other inodes at most a link count changed. -/
structure Seeded (static : UInt32 → Prop) (fs fs' : FsInfo) (n : UInt32) : Prop extends Touched static fs fs' n where
  used : ∀ q, fs'.Used q ↔ fs.Used q

theorem makeDir_seeds (hcons : Consistent static fs₁) (hmark : fs₁.marked .inode n = true)
    (htype : (fs₁.record n).type = inodeDirType) (hone : OneRecord fs₁ (fs₁.record n))
    (hdead : entryInode (fs₁.data (mapped fs₁.entries (fs₁.record n) 0)) 0 = 0) (hd : fs₁.geo.Real .inode d)
    (hgeo : fs₁.geo = (m.fsEntries i).geo) (hresolve : (m.mntRoot i n).2 = (i, n)) (now : UInt32) :
    ∃ fs₃, Seeded static fs₁ fs₃ n ∧ ∀ last : MachineM (Option (Slot × UInt32)), (do
      if ← dirInsert now i n (cstr dot) n then
        if ← dirInsert now i n (cstr dotDot) d then last else pure none
      else pure none : MachineM (Option (Slot × UInt32))) (m.withFs i fs₁) = last (m.withFs i fs₃) := by
  have hn := FsInfo.real_of_marked hmark
  have hresolve₁ : ((m.withFs i fs₁).mntRoot i n).2 = (i, n) := by rwa [Machine.mntRoot_withFs hgeo]
  have howner := FsInfo.owner_of_dir hmark htype
  obtain ⟨ok, fs₂, hdot, rfl, hinserted, hused, hone₂⟩ :=
    hone.insertEntry_spec hcons howner htype hn (cstr dot) (show nameLength (cstr dot) < 256 by decide) now
  have hone₂ := hone₂ hdead
  have hmark₂ : fs₂.marked .inode n = true := by rw [hinserted.marks, hmark]
  have htype₂ : (fs₂.record n).type = inodeDirType := hinserted.type.trans htype
  have hgeo₂ : fs₂.geo = (m.fsEntries i).geo := hinserted.geo.trans hgeo
  have hresolve₂ : ((m.withFs i fs₂).mntRoot i n).2 = (i, n) := by rwa [Machine.mntRoot_withFs hgeo₂]
  have hd₂ : fs₂.geo.Real .inode d := by rwa [hinserted.geo]
  obtain ⟨ok, fs₃, hdotDot, rfl, hinserted₃, hused₃, -⟩ := hone₂.insertEntry_spec hinserted.consistent
    (FsInfo.owner_of_dir hmark₂ htype₂) htype₂ hd₂ (cstr dotDot) (show nameLength (cstr dotDot) < 256 by decide) now
  refine ⟨fs₃, ⟨⟨hinserted₃.consistent, hinserted₃.geo.trans hinserted.geo, hinserted₃.marks.trans hinserted.marks,
    hinserted₃.dirCnt.trans hinserted.dirCnt, fun k hk hne => ?_⟩, fun q => (hused₃ q).trans (hused q)⟩, fun last => ?_⟩
  · have hfirst := hinserted.others k hk hne
    refine hfirst.trans (hinserted₃.others k (by rwa [hinserted.geo]) hne) fun hk => ⟨?_, ?_⟩
    · rw [hinserted.marks]
      exact hk.1
    · rw [hfirst.record.inline_iff]
      exact hk.2
  · have hrun : dirInsert now i n (cstr dot) n (m.withFs i fs₁) = .ok (true, m.withFs i fs₂) := by
      rw [dirInsert_run (by rwa [Machine.withFs_fsEntries_self]) (by decide)
        (by rwa [Machine.withFs_fsEntries_self]) hresolve₁, onFs, zoom, Machine.withFs_fsEntries_self, hdot]
      dsimp only
      rw [Machine.withFs_withFs]
    have hrun₂ : dirInsert now i n (cstr dotDot) d (m.withFs i fs₂) = .ok (true, m.withFs i fs₃) := by
      have hcons₂ : Consistent static ((m.withFs i fs₂).fsEntries i) := by
        rw [Machine.withFs_fsEntries_self]
        exact hinserted.consistent
      rw [dirInsert_run hcons₂ (by decide)
        (by rwa [Machine.withFs_fsEntries_self]) hresolve₂, onFs, zoom, Machine.withFs_fsEntries_self, hdotDot]
      dsimp only
      rw [Machine.withFs_withFs]
    rw [run_bind_ok hrun, if_pos rfl, run_bind_ok hrun₂, if_pos rfl]

/-- The state in which a new directory can be made but not be named: the name is new, an inode and two blocks are free, no
record of the parent has room, and one block less than are free now is too few for the parent to grow. -/
structure Stuck (fs : FsInfo) (d : UInt32) (name : Buf) : Prop where
  valid : ¬ (nameLength name = 0 ∨ nameLen ≤ nameLength name)
  absent : nameIn (fs.record d) name fs = .ok (none, fs)
  inode : ∃ n, fs.geo.Real .inode n ∧ fs.marked .inode n = false
  blocks : 2 ≤ fs.freeBlocks
  full : ¬ fs.HasRoom (fs.record d) (nameLength name)
  short : fs.freeBlocks ≤ missingAt fs.entries (fs.record d) (fs.record d).dirBlocks

structure Ready (static : UInt32 → Prop) (fs fs₃ : FsInfo) (d n : UInt32) : Prop where
  consistent : Consistent static fs₃
  geo : fs₃.geo = fs.geo
  free : fs.marked .inode n = false
  mark : fs₃.marked .inode n = true
  owner : fs₃.Owner d
  dir : DirOk fs₃ (fs₃.record d)
  type : (fs₃.record d).type = inodeDirType
  room : ∀ len, fs₃.HasRoom (fs₃.record d) len ↔ fs.HasRoom (fs.record d) len
  missing : missingAt fs₃.entries (fs₃.record d) (fs₃.record d).dirBlocks =
    missingAt fs.entries (fs.record d) (fs.record d).dirBlocks
  blocks : fs₃.freeBlocks + 1 = fs.freeBlocks

theorem Allotted.keeps_dir (hallotted : Allotted static fs fs₁ n inode)
    (hmark : fs.marked .inode d = true) (htype : (fs.record d).type = inodeDirType) (hdir : DirOk fs (fs.record d)) :
    d ≠ n ∧ SameBody fs fs₁ d ∧ fs₁.Owner d ∧ DirOk fs₁ (fs₁.record d) ∧ (fs₁.record d).type = inodeDirType := by
  have hne : d ≠ n := by
    rintro rfl
    rw [hallotted.free] at hmark
    cases hmark
  have hchanged := hallotted.changed
  have hsame : SameBody fs fs₁ d := (hchanged.others d (FsInfo.real_of_marked hmark) hne).sameBody
  have htype₁ : (fs₁.record d).type = inodeDirType := hsame.record.type_eq.trans htype
  have howner₁ : fs₁.Owner d := FsInfo.owner_of_dir ((hchanged.marks d hne).trans hmark) htype₁
  exact ⟨hne, hsame, howner₁, (hsame.dir (FsInfo.owner_of_dir hmark htype) hdir).1, htype₁⟩

theorem Put.ready {fs₃ : FsInfo} (hcons : Consistent static fs) (hmark : fs.marked .inode d = true)
    (htype : (fs.record d).type = inodeDirType) (hdir : DirOk fs (fs.record d))
    (hput : Put static fs fs₁ n inode (setEntrySize zero 0 blockSize) 4096 true) (hseeded : Seeded static fs₁ fs₃ n) :
    Ready static fs fs₃ d n := by
  have hd := FsInfo.real_of_marked hmark
  have howner := FsInfo.owner_of_dir hmark htype
  have hchanged := hput.allotted.changed
  obtain ⟨hne, hfirst, howner₁, -⟩ := hput.allotted.keeps_dir hmark htype hdir
  have hsame : SameBody fs fs₃ d :=
    hfirst.trans (hseeded.others d (by rwa [hchanged.geo]) hne) fun _ => howner₁
  have howner₃ : fs₃.Owner d := by
    refine ⟨by rw [hseeded.marks]; exact howner₁.1, ?_⟩
    rw [hsame.record.inline_iff]
    exact howner.2
  obtain ⟨hdir₃, -⟩ := hsame.dir howner hdir
  refine ⟨hseeded.consistent, hseeded.geo.trans hchanged.geo, hput.allotted.free, ?_, howner₃, hdir₃,
    hsame.record.type_eq.trans htype, hsame.hasRoom_iff howner, ?_, ?_⟩
  · rw [hseeded.marks, hput.allotted.mark]
  · rw [hsame.dirBlocks_eq]
    exact hsame.missingAt_eq howner (hcons.inode d howner) (hseeded.consistent.inode d howner₃)
      (Inode.dirBlocks_lt_limit _)
  · rw [freeBlocks_eq hchanged.consistent.mounted.sound hseeded.consistent.mounted.sound hseeded.geo hseeded.used]
    exact hput.freeBlocks hcons

section MakeDir

variable {fs : Slot} (hmounts : m.MountsOk) (hparent : parentN ≠ 0) (hresolve : (m.mntRoot fs parentN).2 = (i, d))
  (hcons : Consistent static (m.fsEntries i)) (hmark : (m.fsEntries i).marked .inode d = true)
  (htype : ((m.fsEntries i).record d).type = inodeDirType) (hdir : DirOk (m.fsEntries i) ((m.fsEntries i).record d))

include hmounts hparent hresolve hcons hmark htype hdir

theorem makeDir_inserts (hput : Put static (m.fsEntries i) fs₁ n inode (setEntrySize zero 0 blockSize) 4096 true)
    (hname : ¬ (nameLength name = 0 ∨ nameLen ≤ nameLength name)) :
    ∃ fs₃, Ready static (m.fsEntries i) fs₃ d n ∧ (do
      if ← dirInsert now i n (cstr dot) n then
        if ← dirInsert now i n (cstr dotDot) d then
          if ← dirInsert now i d name n then pure (some (i, n)) else pure none
        else pure none
      else pure none : MachineM (Option (Slot × UInt32))) (m.withFs i fs₁) = (do
      if ← onFs i (insertEntry now d name (nameLength name) n (fs₃.record n)) then pure (some (i, n)) else pure none
        : MachineM (Option (Slot × UInt32))) (m.withFs i fs₃) := by
  have hchanged := hput.allotted.changed
  have hn : (m.fsEntries i).geo.Real .inode n := by
    rw [← hchanged.geo]
    exact FsInfo.real_of_marked hput.allotted.mark
  obtain ⟨hone, hdead⟩ := hput.oneRecord
  have hnewType : (fs₁.record n).type = inodeDirType := by
    rw [hput.allotted.record, hput.type]
    rfl
  obtain ⟨fs₃, hseeded, hrun⟩ := makeDir_seeds hchanged.consistent hput.allotted.mark hnewType hone hdead
    (by rw [hchanged.geo]; exact FsInfo.real_of_marked hmark) hchanged.geo
    (hmounts.mntRoot_free hn hput.allotted.free) now
  have hready := hput.ready hcons hmark htype hdir hseeded
  have hcons₃ : Consistent static ((m.withFs i fs₃).fsEntries i) := by
    rw [Machine.withFs_fsEntries_self]
    exact hready.consistent
  have hlast : dirInsert now i d name n (m.withFs i fs₃) =
      onFs i (insertEntry now d name (nameLength name) n (fs₃.record n)) (m.withFs i fs₃) := by
    rw [dirInsert_run hcons₃ hname (by rwa [Machine.withFs_fsEntries_self, hready.geo])
      (by rw [Machine.mntRoot_withFs hready.geo]; exact hmounts.root.mntRoot_again hparent hresolve),
      Machine.withFs_fsEntries_self]
  exact ⟨fs₃, hready, (hrun _).trans (run_bind_congr_left hlast)⟩

omit hmounts hparent htype hdir in
theorem makeIn_run (htype : ((m.fsEntries i).record d).type = inodeDirType)
    (hname : ¬ (nameLength name = 0 ∨ nameLen ≤ nameLength name))
    (habsent : nameIn ((m.fsEntries i).record d) name (m.fsEntries i) = .ok (none, m.fsEntries i)) :
    makeIn fs parentN name m = .ok (some (i, d), m) := by
  rw [makeIn]
  dsimp only
  rw [if_neg hname, run_bind_ok (returnMntRoot_run hresolve)]
  dsimp only
  rw [run_bind_ok (onFs_run_read (getInode_run hcons.mounted hcons.layout (FsInfo.real_of_marked hmark)))]
  dsimp only
  rw [if_neg (not_not.mpr htype), run_bind_ok (onFs_run_read habsent)]
  rfl

omit hmounts hparent hdir in
theorem makeIn_some {place : Slot × UInt32} (hrun : makeIn fs parentN name m = .ok (some place, m')) :
    ¬ (nameLength name = 0 ∨ nameLen ≤ nameLength name) ∧
      nameIn ((m.fsEntries i).record d) name (m.fsEntries i) = .ok (none, m.fsEntries i) := by
  rw [makeIn] at hrun
  dsimp only at hrun
  by_cases hlen : nameLength name = 0 ∨ nameLen ≤ nameLength name
  · rw [if_pos hlen] at hrun
    cases hrun
  rw [if_neg hlen, run_bind_ok (returnMntRoot_run hresolve)] at hrun
  dsimp only at hrun
  rw [run_bind_ok (onFs_run_read (getInode_run hcons.mounted hcons.layout (FsInfo.real_of_marked hmark)))] at hrun
  dsimp only at hrun
  rw [if_neg (not_not.mpr htype)] at hrun
  obtain ⟨found, mid, hname, hlast⟩ := run_bind_eq_ok hrun
  obtain ⟨fs', hsearch, -⟩ := onFs_eq_ok hname
  obtain rfl := nameIn_read hsearch
  obtain _ | child := found
  · exact ⟨hlen, hsearch⟩
  · cases hlast

theorem makeDir_stuck (hstuck : Stuck (m.fsEntries i) d name) : ∃ fs', makeDir now fs parentN name m =
    .ok (none, m.withFs i fs') ∧ fs'.geo = (m.fsEntries i).geo ∧
      ∃ n, (m.fsEntries i).marked .inode n = false ∧ fs'.marked .inode n = true := by
  have hruns : Runs (putInode now (setEntrySize zero 0 blockSize) 4096 true) (m.fsEntries i) fun result fs₁ =>
      ∃ n inode, result = some (n, inode) ∧
        Put static (m.fsEntries i) fs₁ n inode (setEntrySize zero 0 blockSize) 4096 true := by
    refine (putInode_spec hcons (by decide) now _ true).with_run.mono fun result fs₁ hdone => ?_
    obtain ⟨hrun, ⟨rfl, -⟩ | hput⟩ := hdone
    · exact absurd ((hcons.mounted.putInode_iff (by decide) hrun).mpr ⟨hstuck.inode, hstuck.blocks⟩) Bool.false_ne_true
    · exact hput
  obtain ⟨result, fs₁, hrun, n, inode, rfl, hput⟩ := hruns
  obtain ⟨fs₃, hready, hinserts⟩ := makeDir_inserts hmounts hparent hresolve hcons hmark htype hdir hput hstuck.valid
  have hn : fs₃.geo.Real .inode n := FsInfo.real_of_marked hready.mark
  have hlen : nameLength name < 256 := Nat.lt_of_not_le fun h => hstuck.valid (.inr h)
  obtain ⟨ok, fs', hlast, rfl, hidle⟩ := insertEntry_full hready.consistent hready.owner hready.dir hready.type hn hlen
    (mt (hready.room _).mp hstuck.full) (by
      have hshort := hstuck.short
      have hblocks := hready.blocks
      rw [hready.missing]
      omega)
  refine ⟨fs', ?_, hidle.frame.geo.trans hready.geo, n, hready.free, ?_⟩
  · rw [makeDir, run_bind_ok (makeIn_run hresolve hcons hmark htype hstuck.valid hstuck.absent)]
    dsimp only
    have hputRun : onFs i (putInode now (setEntrySize zero 0 blockSize) 4096 true) m =
        .ok (some (n, inode), m.withFs i fs₁) := by
      rw [onFs, zoom, hrun]
    have hlastRun : onFs i (insertEntry now d name (nameLength name) n (fs₃.record n)) (m.withFs i fs₃) =
        .ok (false, m.withFs i fs') := by
      rw [onFs, zoom, Machine.withFs_fsEntries_self, hlast]
      dsimp only
      rw [Machine.withFs_withFs]
    rw [run_bind_ok hputRun]
    exact hinserts.trans (run_bind_ok hlastRun)
  · rw [hidle.frame.inodes]
    exact hready.mark

theorem makeDir_noTrace (hstuck : ¬ Stuck (m.fsEntries i) d name)
    (hrun : makeDir now fs parentN name m = .ok (none, m')) :
    ∃ fs', m' = m.withFs i fs' ∧ NoTrace (m.fsEntries i) fs' := by
  rw [makeDir] at hrun
  obtain ⟨found, mid, hchecks, hnext⟩ := run_bind_eq_ok hrun
  obtain ⟨rfl, hfound⟩ := makeIn_eq_ok hchecks
  obtain _ | ⟨i', d'⟩ := found
  · cases hnext
    exact ⟨_, (Machine.withFs_self _ i).symm, (Kept.refl hcons).noTrace hcons⟩
  obtain ⟨rfl, rfl⟩ : i' = i ∧ d' = d := Prod.mk.inj ((hfound _ rfl).trans hresolve)
  obtain ⟨hvalid, habsent⟩ := makeIn_some hresolve hcons hmark htype hchecks
  dsimp only at hnext
  obtain ⟨put, mid₁, hputRun, hrest⟩ := run_bind_eq_ok hnext
  obtain ⟨fs₁, halloc, rfl⟩ := onFs_eq_ok hputRun
  obtain ⟨rfl, hkept⟩ | ⟨n, inode, rfl, hput⟩ := (putInode_spec hcons (by decide) now _ true).of_run halloc
  · cases hrest
    exact ⟨fs₁, rfl, hkept.noTrace hcons⟩
  -- the inode is there, so an insertion failed, and that is the state the call must not be in
  exfalso
  obtain ⟨hinode, hblocks⟩ := (hcons.mounted.putInode_iff (by decide) halloc).mp rfl
  obtain ⟨fs₃, hready, hinserts⟩ := makeDir_inserts hmounts hparent hresolve hcons hmark htype hdir hput hvalid
  have hlast := hinserts.symm.trans hrest
  obtain ⟨ok, mid₂, hinsert, hend⟩ := run_bind_eq_ok hlast
  cases ok with
  | true => cases hend
  | false =>
    obtain ⟨fs', hentry, -⟩ := onFs_eq_ok hinsert
    rw [Machine.withFs_fsEntries_self] at hentry
    obtain ⟨hroom, hfree⟩ := insertEntry_false hready.consistent hready.owner hready.dir hready.type
      (FsInfo.real_of_marked hready.mark) (Nat.lt_of_not_le fun h => hvalid (.inr h)) hentry
    refine hstuck ⟨hvalid, habsent, hinode, hblocks, mt (hready.room _).mpr hroom, ?_⟩
    have hone := hready.blocks
    rw [hready.missing] at hfree
    omega

/-- A failed `make_dir` leaves no trace, unless the new directory was made and could not be named. -/
theorem failed_makeDir_noTrace_iff : (∀ m', makeDir now fs parentN name m = .ok (none, m') →
    ∃ fs', m' = m.withFs i fs' ∧ NoTrace (m.fsEntries i) fs') ↔ ¬ Stuck (m.fsEntries i) d name := by
  constructor
  · intro hall hstuck
    obtain ⟨fs', hrun, hgeo, n, hfree, hmarked⟩ := makeDir_stuck hmounts hparent hresolve hcons hmark htype hdir hstuck
    obtain ⟨fs'', hsame, htrace⟩ := hall _ hrun
    have heq : fs' = fs'' := by
      have hslot := congrArg (fun m => Machine.fsEntries m i) hsame
      rwa [Machine.withFs_fsEntries_self, Machine.withFs_fsEntries_self] at hslot
    rw [heq] at hgeo hmarked
    rw [htrace.space.marked_eq hcons.mounted.sound.geo hgeo, hfree] at hmarked
    cases hmarked
  · intro hstuck m' hrun
    exact makeDir_noTrace hmounts hparent hresolve hcons hmark htype hdir hstuck hrun

end MakeDir

end Calls

/-! ### A directory that cannot be named -/

def packedRoot : Inode :=
  { Inode.zero with
    typeAndPermsLo := 0x4000
    sizeLo := 49152
    hardLinkCnt := 2
    diskSectors := 96
    dirBlockPtr := fun r => 5 + UInt32.ofNat r }

def deadRecords : Buf := fun k => if k % 256 = 5 then 1 else 0

def packed : Sample where
  inodes := [.zero, packedRoot]
  spare := [17, 18, 19, 20, 21, 22, 23, 24, 25, 26, 27, 28, 29]
  block b := if b = 5 then smallRecord (smallRecord deadRecords 0 2 256 1 2 46 0) 256 2 256 2 2 46 46 else deadRecords

theorem packed_ok : packed.Ok := by decide +kernel

theorem packed_dirOk : DirOk packed.fs packedRoot := by decide +kernel

def packedMachine : Machine where
  fsEntries _ := packed.fs
  rootFs := 0
  label _ := zero

def longName : Buf := fun k => if k < 255 then 97 else 0

theorem nameLength_longName : nameLength longName = 255 := by
  refine (nameLength_eq_iff longName (by decide)).mpr ⟨rfl, fun k hk => ?_⟩
  rw [longName, if_pos hk]
  decide

theorem packed_stuck : Stuck packed.fs 2 longName := by
  have hrecord : packed.fs.record 2 = packedRoot := Sample.fs_record (by decide)
  have hfree : packed.fs.freeBlocks = 2 := by decide +kernel
  refine ⟨by rw [nameLength_longName]; decide, ?_, ⟨3, by decide, by decide +kernel⟩, hfree.ge, ?_, ?_⟩
  · have hsearch : (nameIn packedRoot longName packed.fs).toOption.map Prod.fst = some none := by decide +kernel
    obtain ⟨⟨found, fs'⟩, hrun, rfl⟩ := eq_ok_of_toOption hsearch
    rw [hrecord, hrun, nameIn_read hrun]
  · rw [hrecord, nameLength_longName, hasRoom_iff packed_dirOk]
    decide +kernel
  · rw [hrecord, hfree]
    decide

theorem Machine.mountsOk_of_unmounted {m : Machine} (hmounts : ∀ part, (m.fsEntries part).mountpoint = 0) : m.MountsOk :=
  ⟨hmounts _, fun part hpart => absurd (hmounts part) hpart⟩

/-- With two free blocks beside a full directory of twelve blocks, `make_dir` fails and keeps an inode. -/
theorem failed_makeDir_keeps_inode : Consistent packed.static packed.fs ∧ packed.fs.marked .inode 2 = true ∧
    (packed.fs.record 2).type = inodeDirType ∧ DirOk packed.fs (packed.fs.record 2) ∧
      ∃ fs', makeDir 0 0 2 longName packedMachine = .ok (none, packedMachine.withFs 0 fs') ∧
        ∃ n, packed.fs.marked .inode n = false ∧ fs'.marked .inode n = true := by
  have hrecord : packed.fs.record 2 = packedRoot := Sample.fs_record (by decide)
  have hcons := Sample.consistent packed_ok
  have hmark : packed.fs.marked .inode 2 = true := (Sample.fs_marked_iff (by decide)).mpr (by decide)
  have htype : (packed.fs.record 2).type = inodeDirType := by
    rw [hrecord]
    rfl
  have hdir : DirOk packed.fs (packed.fs.record 2) := by
    rw [hrecord]
    exact packed_dirOk
  have hparent : (2 : UInt32) ≠ 0 := by decide
  have hresolve : (packedMachine.mntRoot 0 2).2 = (0, 2) := by decide
  obtain ⟨fs', hrun, -, hkept⟩ : ∃ fs', makeDir 0 0 2 longName packedMachine = _ ∧ _ ∧ _ :=
    makeDir_stuck (Machine.mountsOk_of_unmounted fun _ => rfl) hparent hresolve hcons hmark htype hdir packed_stuck
  exact ⟨hcons, hmark, htype, hdir, fs', hrun, hkept⟩

theorem failed_makeDir_noTrace_fullMachine : ∃ m', makeDir 0 0 2 (cstr [97]) fullMachine = .ok (none, m') ∧
    ∃ fs', m' = fullMachine.withFs 0 fs' ∧ NoTrace fullFs fs' := by
  have hfails : (makeDir 0 0 2 (cstr [97]) fullMachine).toOption.map (fun done => done.1.isNone) = some true := by
    decide +kernel
  obtain ⟨⟨made, m'⟩, hrun, hnone⟩ := eq_ok_of_toOption hfails
  obtain rfl : made = none := Option.isNone_iff_eq_none.mp hnone
  have hrecord : fullFs.record 2 = smallRoot := (crowdedFs_record 0 2).trans smallFs_record.2.1
  have hblocks : ¬ 2 ≤ fullFs.freeBlocks := by decide +kernel
  have hmark : fullFs.marked .inode 2 = true := by decide +kernel
  have htype : (fullFs.record 2).type = inodeDirType := by
    rw [hrecord]
    rfl
  have hdir : DirOk fullFs (fullFs.record 2) := by
    rw [hrecord]
    decide +kernel
  have hparent : (2 : UInt32) ≠ 0 := by decide
  have hresolve : (fullMachine.mntRoot 0 2).2 = (0, 2) := by decide
  refine ⟨m', hrun, ?_⟩
  apply (failed_makeDir_noTrace_iff (Machine.mountsOk_of_unmounted fun _ => rfl) hparent hresolve (crowdedFs_consistent 0)
    hmark htype hdir).mpr _ m' hrun
  exact fun hstuck => hblocks hstuck.blocks

end DeprecatOS
