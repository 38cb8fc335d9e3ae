import DeprecatOS.Machine
import DeprecatOS.Proof.Append
import DeprecatOS.Proof.Truncate

/-!
# Operations on whole inodes

`replace_inode` and `put_inode` write a new body with `write_inode`, `delete_inode` releases an inode
with all its blocks. Together with appending and truncating they keep a filesystem consistent, over runs
of any length.
-/

namespace DeprecatOS

open Bytes Bits Fault PointerTree

variable {static : UInt32 → Prop} {fs fs' fs₁ : FsInfo} {inode inode' : Inode} {n fSize : UInt32}

/-! ### Replacing -/

theorem Body.inodeOk {buf : Buf} (hbody : Body static fs fs' inode inode' buf) (hzero : inode.diskSectors = 0) :
    InodeOk static fs' inode' where
  tree := hbody.tree
  short j hj hpast := by
    refine hbody.holes j hj ?_
    have hsize : inode'.sizeLo = inode.sizeLo := by
      change inode'.bare.sizeLo = inode.bare.sizeLo
      rw [hbody.bare]
    rwa [← hsize]
  sectors := by
    have hle := hbody.tree.length_refs_le hbody.gain.trade.frame.mounted
    have height : (8 : UInt32).toNat = 8 := rfl
    rw [hbody.sectors, hzero, UInt32.zero_add, UInt32.toNat_mul, UInt32.toNat_ofNat', height]
    omega

theorem Body.byte_eq {buf : Buf} (hbody : Body static fs fs' inode inode' buf) {k : Nat} (hk : k < inode.sizeLo.toNat) :
    fs'.byte inode' k = buf k := by
  have hblock : k / blockSize < sizeBlocks inode.sizeLo := by
    rw [sizeBlocks, blockSize]
    omega
  have hchunk := hbody.content _ hblock
  have hsplit : blockSize * (k / blockSize) + k % blockSize = k := Nat.div_add_mod k blockSize
  rw [FsInfo.byte, if_neg hchunk.ne_zero, hchunk.data _ (Nat.mod_lt _ (by decide)), hsplit, if_pos hk]

theorem InodeOk.of_zero (fs : FsInfo) (hroot : ∀ r, inode.root r = 0) (hzero : inode.diskSectors = 0) :
    InodeOk static fs inode where
  tree := TreeOk.of_zero fs hroot
  short j _ _ := by
    rw [mapped, hroot, find_zero_ptr]
  sectors := by
    rw [refs_of_zero _ hroot, hzero]
    rfl

/-- What `replace_inode` leaves of the inode: the first `size` bytes of the buffer under the old type, in blocks that
were free or its own. -/
structure Replaced (static : UInt32 → Prop) (fs fs' : FsInfo) (n : UInt32) (buf : Buf) (size : UInt32) : Prop where
  edited : Edited static fs fs' n
  size : (fs'.record n).sizeLo = size
  type : (fs'.record n).type = (fs.record n).type
  links : (fs'.record n).hardLinkCnt = (fs.record n).hardLinkCnt
  used : ∀ b, fs'.Used b ↔ (fs.Used b ∧ b ∉ fs.owns n) ∨ b ∈ fs'.owns n
  fresh : ∀ b ∈ fs'.owns n, b ∉ fs.owns n → ¬ fs.Used b
  bytes : ∀ k < (fs'.record n).sizeLo.toNat, fs'.byte (fs'.record n) k = buf k

theorem Consistent.setInode_rebuilt (hcons : Consistent static fs) (howner : fs.Owner n)
    (htrade : Trade static (fs.owns n) (refs fs₁.entries inode) fs fs₁) (hok : InodeOk static fs₁ inode) :
    Runs (setInode n inode) fs₁ fun ok fs' => ok = true ∧ Rebuilt static fs fs₁ fs' n inode := by
  have hlayout := hcons.layout.of_geo htrade.frame.geo
  have hreal : fs₁.geo.Real .inode n := by
    rw [htrade.frame.geo]
    exact FsInfo.real_of_marked howner.1
  refine (setInode_spec htrade.frame.mounted hlayout hreal inode).mono fun ok fs' hstored => ?_
  exact ⟨hstored.1, hcons.rebuilt howner htrade hok hstored.2⟩

theorem Rebuilt.replaced {buf : Buf} {size : UInt32}
    (htrade : Trade static (fs.owns n) (refs fs₁.entries inode) fs fs₁) (hrebuilt : Rebuilt static fs fs₁ fs' n inode)
    (hsize : inode.bare.sizeLo = size) (htype : inode.bare.type = (fs.record n).type)
    (hlinks : inode.bare.hardLinkCnt = (fs.record n).hardLinkCnt)
    (hbytes : ∀ k < size.toNat, fs₁.byte inode k = buf k) : Replaced static fs fs' n buf size := by
  have hrecord := hrebuilt.record
  refine ⟨hrebuilt.toEdited, ?_, ?_, ?_, fun b => ?_, fun b hb hnot => ?_, fun k hk => ?_⟩
  · rw [hrecord]
    exact hsize
  · rw [hrecord]
    exact htype
  · rw [hrecord]
    exact hlinks
  · rw [hrebuilt.used, hrebuilt.owns, htrade.used]
  · rw [hrebuilt.owns] at hb
    exact htrade.fresh b hb hnot
  · have hlimit : k / blockSize < fileBlkLimit := by
      have hlt := (fs'.record n).sizeLo.toNat_lt
      rw [fileBlkLimit, blockSize]
      omega
    rw [hrecord, show inode.sizeLo = size from hsize] at hk
    rw [hrecord, (hrebuilt.same _ hlimit).byte_eq, hbytes k hk]

theorem replaceInode_spec (hcons : Consistent static fs) (howner : fs.Owner n)
    (hsize : fSize.toNat ≤ maxSize) (now : UInt32) (buf : Buf) :
    Runs (replaceInode now n buf fSize) fs fun result fs' =>
      (result = none ∧ Replaced static fs fs' n buf 0) ∨
      (result = some (fs'.record n) ∧ Replaced static fs fs' n buf fSize) := by
  have hreal := FsInfo.real_of_marked howner.1
  rw [replaceInode]
  refine Runs.bind_eq (getInode_run hcons.mounted hcons.layout hreal) ?_
  dsimp only
  refine (freeAll_spec hcons.mounted (hcons.inode n howner).tree).bind fun _ fs₁ hfreed => ?_
  refine (writeInode_spec hfreed.frame.mounted buf (by exact hsize)).bind fun result fs₂ hwritten => ?_
  obtain ⟨ok, written⟩ := result
  obtain ⟨hfalse, hbare, hnothing⟩ | ⟨htrue, hbody⟩ := hwritten
  · -- the body did not fit: the record is cleared
    dsimp only at hfalse hbare ⊢
    rw [hfalse, if_neg Bool.false_ne_true]
    have hroot : ∀ r, ({ written.clearPtrs with
        sizeLo := 0, diskSectors := 0, lastModTime := (fs.record n).lastModTime } : Inode).root r = 0 :=
      written.root_clearPtrs
    have htrade := hfreed.trans hnothing
    rw [← refs_of_zero fs₂.entries hroot] at htrade
    refine (hcons.setInode_rebuilt howner htrade (InodeOk.of_zero fs₂ hroot rfl)).bind
      fun stored fs' hstored => ?_
    obtain ⟨rfl, hrebuilt⟩ := hstored
    rw [if_pos rfl]
    refine Runs.pure (Or.inl ⟨rfl, hrebuilt.replaced htrade rfl ?_ ?_ fun k hk => absurd hk (Nat.not_lt_zero k)⟩)
    · change written.bare.type = _
      rw [hbare]
      rfl
    · change written.bare.hardLinkCnt = _
      rw [hbare]
      rfl
  · dsimp only at htrue hbody ⊢
    rw [htrue, if_pos rfl]
    have hbare := hbody.bare
    have htrade := hfreed.trans hbody.gain.trade
    refine (hcons.setInode_rebuilt howner htrade (hbody.inodeOk rfl)).bind fun stored fs' hstored => ?_
    obtain ⟨rfl, hrebuilt⟩ := hstored
    rw [if_pos rfl]
    refine Runs.pure (Or.inr ⟨by rw [hrebuilt.record], hrebuilt.replaced htrade ?_ ?_ ?_ fun k hk => ?_⟩)
    · rw [hbare]
      rfl
    · rw [hbare]
      rfl
    · rw [hbare]
      rfl
    · exact hbody.byte_eq hk

/-! ### Putting -/

def FsInfo.groupOf (fs : FsInfo) (n : UInt32) : Nat := ((n - firstInodeN) / fs.inodesPerGrp).toNat

theorem FsInfo.groupOf_of_geo (hgeo : fs'.geo = fs.geo) (n : UInt32) : fs'.groupOf n = fs.groupOf n := by
  have hper : fs'.inodesPerGrp = fs.inodesPerGrp := congrArg Geo.inodesPerGrp hgeo
  rw [groupOf, groupOf, hper]

/-- The state after inode `n`, which was free, was allocated with the record `inode`. -/
structure Allotted (static : UInt32 → Prop) (fs fs' : FsInfo) (n : UInt32) (inode : Inode) : Prop where
  changed : ChangedOnly static fs fs' n
  ne : n ≠ inodeError
  free : fs.marked .inode n = false
  mark : fs'.marked .inode n = true
  record : fs'.record n = inode

theorem Change.allotted {fs₂ : FsInfo} {new : List UInt32} (hcons : Consistent static fs)
    (hchange : Change static fs fs' n [] new) (hne : n ≠ inodeError) (hfree : fs.marked .inode n = false)
    (hmark : fs'.marked .inode n = true) (hrecord : fs'.record n = inode)
    (hnew : ∀ b, b ∈ new ↔ ¬ inode.Inline ∧ b ∈ refs fs₂.entries inode)
    (hok : ¬ inode.Inline → InodeOk static fs₂ inode) (hdata : ∀ b ∈ new, fs'.data b = fs₂.data b) :
    Allotted static fs fs' n inode := by
  have hold : ∀ b, b ∈ ([] : List UInt32) ↔ fs.Owner n ∧ b ∈ fs.owns n := fun b => by
    rw [FsInfo.Owner, hfree]
    simp
  have hok' : ¬ inode.Inline → InodeOk static fs' inode ∧
      refs fs'.entries inode = refs fs₂.entries inode := fun hnot => by
    have hkept := (hok hnot).of_data (fun b hb => (hchange.used b).mpr (Or.inr ((hnew b).mpr ⟨hnot, hb⟩)))
      fun b hb => hdata b ((hnew b).mpr ⟨hnot, hb⟩)
    exact ⟨hkept.1, hkept.2.1⟩
  refine ⟨⟨hchange.rework.consistent hcons hold (fun b => ?_) fun howner => ?_, hchange.geo, hchange.inodes,
    fun m hm hne => hchange.sameFile hcons hold hm hne⟩, hne, hfree, hmark, hrecord⟩
  · rw [FsInfo.Owner, FsInfo.owns, hrecord, hmark, hnew b, and_iff_right rfl]
    exact and_congr_right fun hnot => by rw [(hok' hnot).2]
  · rw [hrecord]
    exact (hok' (hrecord ▸ howner.2)).1

structure Put (static : UInt32 → Prop) (fs fs' : FsInfo) (n : UInt32) (inode : Inode) (buf : Buf)
    (fSize : UInt32) (isDir : Bool) : Prop where
  allotted : Allotted static fs fs' n inode
  change : Change static fs fs' n [] (refs fs'.entries inode)
  size : inode.sizeLo = fSize
  type : inode.type = if isDir then inodeDirType else inodeFileType
  links : inode.hardLinkCnt = 0
  content : ∀ j < sizeBlocks fSize, HoldsChunk fs' buf fSize j (mapped fs'.entries inode j)
  dirCnt : fs'.dirCnt =
    if isDir then Function.update fs.dirCnt (fs.groupOf n) (fs.dirCnt (fs.groupOf n) + 1) else fs.dirCnt

theorem Body.put {fs₂ : FsInfo} {now : UInt32} {buf : Buf} {isDir : Bool} (hcons : Consistent static fs)
    (hbody : Body static fs₁ fs₂ (Inode.mint now fSize (if isDir then inodeDirType else inodeFileType))
      inode buf)
    (hchange : Change static fs fs' n [] (refs fs₂.entries inode)) (hne : n ≠ inodeError)
    (hfree : fs.marked .inode n = false) (hmark : fs'.marked .inode n = true)
    (hrecord : fs'.record n = inode) (hdata : ∀ b, ¬ static b → fs'.data b = fs₂.data b)
    (hdirCnt : fs'.dirCnt = if isDir then
      Function.update fs.dirCnt (fs.groupOf n) (fs.dirCnt (fs.groupOf n) + 1) else fs.dirCnt) :
    Put static fs fs' n inode buf fSize isDir := by
  have hok := hbody.inodeOk rfl
  have hsize : inode.sizeLo = fSize := by
    change inode.bare.sizeLo = _
    rw [hbody.bare]
    rfl
  have hdata' : ∀ b ∈ refs fs₂.entries inode, fs'.data b = fs₂.data b := fun b hb =>
    hdata b (hok.tree.notStatic b hb)
  obtain ⟨-, hrefs, hsame⟩ := hok.of_data (fun b hb => (hchange.used b).mpr (Or.inr hb)) hdata'
  refine ⟨hchange.allotted hcons hne hfree hmark hrecord (fun b => ⟨fun hb => ⟨hok.not_inline hb, hb⟩,
    And.right⟩) (fun _ => hok) hdata', by rwa [hrefs], hsize, ?_, ?_, fun j hj => ?_, hdirCnt⟩
  · change inode.bare.type = _
    rw [hbody.bare]
    change (if isDir then inodeDirType else inodeFileType) &&& 0xF000 = _
    cases isDir <;> rfl
  · change inode.bare.hardLinkCnt = _
    rw [hbody.bare]
    rfl
  · have hlimit := lt_fileBlkLimit hj
    have hchunk : HoldsChunk fs₂ buf fSize j (mapped fs₂.entries inode j) := hbody.content j hj
    rw [(hsame j hlimit).1]
    refine ⟨hchunk.ne_zero, ?_⟩
    rw [(hsame j hlimit).2 hchunk.ne_zero]
    exact hchunk.data

theorem Mounted.mintInode_spec (hmounted : Mounted static fs) (now fSize : UInt32) (type : UInt16) :
    Runs (mintInode now fSize type) fs fun result fs' =>
      (result = none ∧ fs' = fs) ∨
      ∃ n, result = some (n, Inode.mint now fSize type) ∧ n ≠ inodeError ∧
        fs.geo.Real .inode n ∧ fs.marked .inode n = false ∧ Remarked static fs fs' n true := by
  rw [mintInode]
  refine hmounted.allocInode_spec.bind fun n fs' halloc => ?_
  obtain ⟨hnone, rfl⟩ | ⟨hne, hreal, hfree, hmarked⟩ := halloc
  · rw [if_pos hnone]
    exact Runs.pure (Or.inl ⟨rfl, rfl⟩)
  · rw [if_neg hne]
    exact Runs.pure (Or.inr ⟨n, rfl, hne, hreal, hfree, hmarked⟩)

theorem Change.given_back (hcons : Consistent static fs) (hchange : Change static fs fs₁ n [] [])
    (hfree : fs.marked .inode n = false) (hreal : fs.geo.Real .inode n)
    (hrecord : fs₁.record n = fs.record n) (hdirCnt : fs₁.dirCnt = fs.dirCnt)
    (hremarked : Remarked static fs₁ fs' n false) : Kept static fs fs' := by
  have hchange' := hchange.remarked hcons.layout hremarked
  have hmark : fs'.marked .inode n = false := by
    rw [hremarked.inodes, Function.update_self]
  have hnone : ∀ {s : FsInfo}, s.marked .inode n = false → ∀ b, b ∈ ([] : List UInt32) ↔
      s.Owner n ∧ b ∈ s.owns n := fun hs b => by
    rw [FsInfo.Owner, hs]
    simp
  have hrecord' : fs'.record n = fs.record n := by
    rw [← hrecord]
    refine Change.record_eq (hcons.layout.of_geo hchange.geo) hremarked.geo (fun b _ => ?_) ?_
    · rw [hremarked.data]
    · rw [hchange.geo]
      exact hreal
  have hfile : SameFile fs fs' n := by
    refine ⟨hrecord', fun howner => ?_, fun howner => ?_⟩
    all_goals
      have hcontra := howner.1
      rw [hfree] at hcontra
      exact absurd hcontra Bool.false_ne_true
  have hedited : Edited static fs fs' n := by
    refine ⟨⟨hchange'.rework.consistent hcons (hnone hfree) (hnone hmark) fun howner => ?_, hchange'.geo,
      hchange'.inodes, fun m hm hne => hchange'.sameFile hcons (hnone hfree) hm hne⟩,
      hmark.trans hfree.symm, hremarked.dirCnt.trans hdirCnt⟩
    have hcontra := howner.1
    rw [hmark] at hcontra
    exact absurd hcontra Bool.false_ne_true
  refine hedited.kept hfile fun b => ?_
  rw [hchange'.used]
  simp

theorem putInode_spec (hcons : Consistent static fs) (hsize : fSize.toNat ≤ maxSize) (now : UInt32)
    (buf : Buf) (isDir : Bool) :
    Runs (putInode now buf fSize isDir) fs fun result fs' =>
      (result = none ∧ Kept static fs fs') ∨
      ∃ n inode, result = some (n, inode) ∧ Put static fs fs' n inode buf fSize isDir := by
  rw [putInode]
  refine (hcons.mounted.mintInode_spec now fSize _).bind fun result fs₁ hminted => ?_
  obtain ⟨rfl, rfl⟩ | ⟨n, rfl, hne, hreal, hfree, hmarked⟩ := hminted
  · exact Runs.pure (Or.inl ⟨rfl, Kept.refl hcons⟩)
  dsimp only
  have hstart : Change static fs fs₁ n [] [] :=
    (Change.refl hcons.mounted n (by simp)).remarked hcons.layout hmarked
  refine (writeInode_spec hmarked.mounted buf (by exact hsize)).bind fun result fs₂ hwritten => ?_
  obtain ⟨ok, written⟩ := result
  obtain ⟨hfalse, -, hnothing⟩ | ⟨htrue, hbody⟩ := hwritten
  · dsimp only at hfalse ⊢
    rw [hfalse, if_neg Bool.false_ne_true]
    have hchange := hstart.trade hcons.layout (by simp) hnothing
    have hreal₂ : fs₂.geo.Real .inode n := by
      rw [hchange.geo]
      exact hreal
    refine (hnothing.frame.mounted.freeInode_spec hne hreal₂).bind fun _ fs' hfreed => Runs.pure (Or.inl ?_)
    refine ⟨rfl, hchange.given_back hcons hfree hreal ?_ ?_ hfreed.2⟩
    · refine Change.record_eq hcons.layout hchange.geo (fun b hb => ?_) hreal
      rw [hnothing.frame.data b (hmarked.mounted.used b hb) List.not_mem_nil, hmarked.data]
    · rw [hnothing.frame.dirCnt, hmarked.dirCnt]
  · dsimp only at htrue hbody ⊢
    rw [htrue, if_pos rfl]
    have hchange := hstart.trade hcons.layout (by simp) hbody.gain.trade
    have hreal₂ : fs₂.geo.Real .inode n := by
      rw [hchange.geo]
      exact hreal
    have hmark₂ : fs₂.marked .inode n = true := by
      rw [hbody.gain.trade.frame.inodes, hmarked.inodes, Function.update_self]
    have hok := hbody.inodeOk rfl
    refine Runs.bind_eq (run_get fs₂) ?_
    rw [if_neg (fun h => (inode_guard_iff hbody.gain.mounted.sound.geo n).mp h hreal₂)]
    refine (setInode_spec hbody.gain.mounted (hcons.layout.of_geo hchange.geo) hreal₂ written).bind
      fun stored fs₃ hstored => ?_
    obtain ⟨rfl, hstored⟩ := hstored
    rw [if_pos rfl]
    have hchange₃ := hchange.stored hstored
    have hmark₃ : fs₃.marked .inode n = true := by
      rw [hstored.frame.inodes, hmark₂]
    have hcnt : fs₃.dirCnt = fs.dirCnt := by
      rw [hstored.frame.dirCnt, hbody.gain.trade.frame.dirCnt, hmarked.dirCnt]
    cases isDir with
    | false =>
      rw [if_neg Bool.false_ne_true]
      refine Runs.pure (Or.inr ⟨n, written, rfl, ?_⟩)
      exact hbody.put hcons hchange₃ hne hfree hmark₃ hstored.record hstored.data hcnt
    | true =>
      rw [if_pos rfl]
      refine Runs.bind_eq (run_get fs₃) ?_
      refine Runs.bind_eq (run_set _ _) ?_
      refine hchange₃.mounted.writeBgdt_spec.bind fun _ fs' hcounted => ?_
      refine Runs.pure (Or.inr ⟨n, written, rfl, ?_⟩)
      refine hbody.put hcons (hchange₃.dirCounted hcons.layout hcounted) hne hfree ?_ ?_ ?_ ?_
      · rw [hcounted.marked, hmark₃]
      · rw [← hstored.record]
        refine Change.record_eq (hcons.layout.of_geo hchange₃.geo) hcounted.geo (fun b _ => ?_) ?_
        · rw [hcounted.data]
        · rw [hchange₃.geo]
          exact hreal
      · intro b hb
        rw [hcounted.data, hstored.data b hb]
      · have hgroup : fs₂.groupOf n = fs.groupOf n := FsInfo.groupOf_of_geo hchange.geo n
        rw [hcounted.dirCnt, hcnt, if_pos rfl, ← hgroup]
        rfl

/-! ### Deleting -/

structure Deleted (static : UInt32 → Prop) (fs fs' : FsInfo) (n now : UInt32) : Prop where
  changed : ChangedOnly static fs fs' n
  mark : fs'.marked .inode n = false
  record : fs'.record n = (fs.record n).deleted now
  dirCnt : fs'.dirCnt = if (fs.record n).type = inodeDirType then
    Function.update fs.dirCnt (fs.groupOf n) (fs.dirCnt (fs.groupOf n) - 1) else fs.dirCnt
  owns : ∀ m, fs.Owner m → m ≠ n → fs'.owns m = fs.owns m

section Delete

variable {now : UInt32} {old : List UInt32} (hcons : Consistent static fs) (hreal : fs.geo.Real .inode n)
  (hne : n ≠ inodeError) (hold : ∀ b, b ∈ old ↔ fs.Owner n ∧ b ∈ fs.owns n)

include hcons hreal hne hold

theorem Change.freeInode_spec (hchange : Change static fs fs₁ n old [])
    (hrecord : fs₁.record n = (fs.record n).deleted now)
    (hdirCnt : fs₁.dirCnt = if (fs.record n).type = inodeDirType then
      Function.update fs.dirCnt (fs.groupOf n) (fs.dirCnt (fs.groupOf n) - 1) else fs.dirCnt) :
    Runs (freeInode n) fs₁ fun ok fs' => ok = true ∧ Deleted static fs fs' n now := by
  have hreal₁ : fs₁.geo.Real .inode n := by
    rw [hchange.geo]
    exact hreal
  refine (hchange.mounted.freeInode_spec hne hreal₁).mono fun ok fs' hfreed => ⟨hfreed.1, ?_⟩
  have hremarked := hfreed.2
  have hchange' := hchange.remarked hcons.layout hremarked
  have hmark : fs'.marked .inode n = false := by
    rw [hremarked.inodes, Function.update_self]
  have hnot : ¬ fs'.Owner n := fun howner => by
    have hcontra := howner.1
    rw [hmark] at hcontra
    exact absurd hcontra Bool.false_ne_true
  refine ⟨⟨hchange'.rework.consistent hcons hold (fun b => ?_) fun howner => absurd howner hnot, hchange'.geo,
    hchange'.inodes, fun m hm hne => hchange'.sameFile hcons hold hm hne⟩, hmark, ?_,
    hremarked.dirCnt.trans hdirCnt, fun m hm hne => (hchange'.rework.other hcons hold hm hne).2.1⟩
  · exact iff_of_false List.not_mem_nil fun h => hnot h.1
  · rw [← hrecord]
    refine Change.record_eq (hcons.layout.of_geo hchange.geo) hremarked.geo (fun b _ => ?_) hreal₁
    rw [hremarked.data]

theorem Change.setInode_deleted (hchange : Change static fs fs₁ n old []) (hcnt : fs₁.dirCnt = fs.dirCnt) :
    Runs (do
        if ← setInode n ((fs.record n).deleted now) then
          if ((fs.record n).deleted now).type = inodeDirType then
            let fs ← get
            let groupN := ((n - firstInodeN) / fs.inodesPerGrp).toNat
            set (fs.setDirCnt groupN (fs.dirCnt groupN - 1))
            writeBgdt
          freeInode n
        else pure false) fs₁ fun ok fs' => ok = true ∧ Deleted static fs fs' n now := by
  have hreal₁ : fs₁.geo.Real .inode n := by
    rw [hchange.geo]
    exact hreal
  refine (setInode_spec hchange.mounted (hcons.layout.of_geo hchange.geo) hreal₁ _).bind
    fun stored fs₂ hstored => ?_
  obtain ⟨rfl, hstored⟩ := hstored
  rw [if_pos rfl]
  have hchange₂ := hchange.stored hstored
  have hcnt₂ := hstored.frame.dirCnt.trans hcnt
  by_cases hdir : (fs.record n).type = inodeDirType
  · rw [if_pos (by exact hdir)]
    refine Runs.bind_eq (run_get fs₂) ?_
    refine Runs.bind_eq (run_set _ _) ?_
    refine hchange₂.mounted.writeBgdt_spec.bind fun _ fs₃ hcounted => ?_
    refine Change.freeInode_spec hcons hreal hne hold (hchange₂.dirCounted hcons.layout hcounted) ?_ ?_
    · rw [← hstored.record]
      refine Change.record_eq (hcons.layout.of_geo hchange₂.geo) hcounted.geo (fun b _ => ?_) ?_
      · rw [hcounted.data]
      · rw [hchange₂.geo]
        exact hreal
    · have hgroup : fs₂.groupOf n = fs.groupOf n := FsInfo.groupOf_of_geo hchange₂.geo n
      rw [hcounted.dirCnt, hcnt₂, if_pos hdir, ← hgroup]
      rfl
  · rw [if_neg (by exact hdir)]
    refine Change.freeInode_spec hcons hreal hne hold hchange₂ hstored.record ?_
    rw [if_neg hdir, hcnt₂]

end Delete

theorem deleteInode_spec (hcons : Consistent static fs) (hmark : fs.marked .inode n = true)
    (hne : n ≠ inodeError) (now : UInt32) :
    Runs (deleteInode now n) fs fun ok fs' => ok = true ∧ Deleted static fs fs' n now := by
  have hreal := FsInfo.real_of_marked hmark
  rw [deleteInode]
  refine Runs.bind_eq (getInode_run hcons.mounted hcons.layout hreal) ?_
  dsimp only
  by_cases hsectors : 0 < (fs.record n).diskSectors
  · rw [if_pos hsectors]
    have howner : fs.Owner n := ⟨hmark, fun hinline => by
      rw [hinline.2] at hsectors
      exact UInt32.lt_irrefl _ hsectors⟩
    have htree := (hcons.inode n howner).tree
    refine (freeAll_spec hcons.mounted htree).bind fun _ fs₁ hfreed => ?_
    have hchange := (Change.refl hcons.mounted n htree.used).trade hcons.layout htree.notStatic hfreed
    exact hchange.setInode_deleted hcons hreal hne (fun b => (and_iff_right howner).symm)
      hfreed.frame.dirCnt
  · rw [if_neg hsectors]
    have hzero : (fs.record n).diskSectors = 0 := by
      rw [UInt32.lt_iff_toNat_lt] at hsectors
      exact UInt32.toNat_inj.mp (Nat.eq_zero_of_not_pos hsectors)
    have hold : ∀ b, b ∈ ([] : List UInt32) ↔ fs.Owner n ∧ b ∈ fs.owns n := fun b => by
      refine iff_of_false List.not_mem_nil fun ⟨howner, hb⟩ => ?_
      have hlength := (hcons.inode n howner).sectors
      rw [hzero] at hlength
      have hpos := List.length_pos_of_mem hb
      rw [FsInfo.owns] at hpos
      change 0 = _ at hlength
      omega
    have hchange : Change static fs fs n [] [] := Change.refl hcons.mounted n (by simp)
    exact hchange.setInode_deleted hcons hreal hne hold rfl

/-! ### Runs -/

inductive InodeOp where
  | put (now : UInt32) (buf : Buf) (fSize : UInt32) (isDir : Bool)
  | append (now : UInt32) (junk : Buf) (inodeN : UInt32) (buf : Buf) (fSize : UInt32)
  | truncate (now inodeN newSize : UInt32)
  | replace (now inodeN : UInt32) (buf : Buf) (fSize : UInt32)
  | delete (now inodeN : UInt32)

namespace InodeOp

def exec : InodeOp → FsM Unit
  | put now buf fSize isDir => do let _ ← putInode now buf fSize isDir
  | append now junk inodeN buf fSize => do let _ ← appendToInode now junk inodeN buf fSize
  | truncate now inodeN newSize => do let _ ← truncateInode now inodeN newSize
  | replace now inodeN buf fSize => do let _ ← replaceInode now inodeN buf fSize
  | delete now inodeN => do let _ ← deleteInode now inodeN

def target : InodeOp → Option UInt32
  | put .. => none
  | append _ _ inodeN _ _ => some inodeN
  | truncate _ inodeN _ => some inodeN
  | replace _ inodeN _ _ => some inodeN
  | delete _ inodeN => some inodeN

/-- The call is on an allocated regular file, and the sizes before and after it are at most `maxSize`.
The number 1 is no inode to delete: it is `INODE_ERROR`. -/
def Allowed (fs : FsInfo) (op : InodeOp) : Prop :=
  (∀ n ∈ op.target, fs.marked .inode n = true ∧ (fs.record n).type = inodeFileType) ∧
  match op with
  | put _ _ fSize _ => fSize.toNat ≤ maxSize
  | append _ _ inodeN _ fSize => (fs.record inodeN).sizeLo.toNat + fSize.toNat ≤ maxSize
  | truncate _ inodeN _ => (fs.record inodeN).sizeLo.toNat ≤ maxSize
  | replace _ _ _ fSize => fSize.toNat ≤ maxSize
  | delete _ inodeN => inodeN ≠ inodeError

end InodeOp

section Runs

variable {op : InodeOp}

theorem FsInfo.owner_of_file (hmark : fs.marked .inode n = true)
    (htype : (fs.record n).type = inodeFileType) : fs.Owner n :=
  ⟨hmark, fun hinline => absurd (htype.symm.trans hinline.1) (by decide)⟩

/-- The filesystem is consistent after the call, and the allocated inodes it does not name are as they
were. -/
def InodeOp.Preserves (static : UInt32 → Prop) (op : InodeOp) (fs fs' : FsInfo) : Prop :=
  Consistent static fs' ∧ ∀ m, fs.marked .inode m = true → m ∉ op.target → SameFile fs fs' m

theorem ChangedOnly.preserves (hchanged : ChangedOnly static fs fs' n) (htarget : n ∈ op.target) :
    op.Preserves static fs fs' := by
  refine ⟨hchanged.consistent, fun m hm hnot => hchanged.others m (FsInfo.real_of_marked hm) ?_⟩
  rintro rfl
  exact hnot htarget

theorem Kept.preserves (hkept : Kept static fs fs') : op.Preserves static fs fs' :=
  ⟨hkept.consistent, fun m hm _ => hkept.files m (FsInfo.real_of_marked hm)⟩

theorem InodeOp.exec_spec (hcons : Consistent static fs) (hallowed : op.Allowed fs) :
    Runs op.exec fs fun _ fs' => op.Preserves static fs fs' := by
  obtain ⟨htarget, hsize⟩ := hallowed
  cases op with
  | put now buf fSize isDir =>
    refine (putInode_spec hcons hsize now buf isDir).bind fun _ fs' hput => Runs.pure ?_
    obtain ⟨-, hkept⟩ | ⟨n, inode, -, hput⟩ := hput
    · exact hkept.preserves
    · refine ⟨hput.allotted.changed.consistent, fun m hm _ =>
        hput.allotted.changed.others m (FsInfo.real_of_marked hm) ?_⟩
      rintro rfl
      rw [hput.allotted.free] at hm
      exact absurd hm Bool.false_ne_true
  | append now junk inodeN buf fSize =>
    obtain ⟨hmark, htype⟩ := htarget inodeN rfl
    refine (appendToInode_spec hcons (FsInfo.owner_of_file hmark htype) hsize now junk buf).bind
      fun _ fs' happend => Runs.pure ?_
    obtain ⟨-, hkept⟩ | ⟨inode, -, hextended⟩ := happend
    · exact hkept.preserves
    · exact hextended.edited.toChangedOnly.preserves rfl
  | truncate now inodeN newSize =>
    obtain ⟨hmark, htype⟩ := htarget inodeN rfl
    refine (truncateInode_spec hcons (FsInfo.owner_of_file hmark htype) hsize now newSize).bind
      fun _ fs' htruncate => Runs.pure ?_
    obtain ⟨-, -, rfl⟩ | ⟨-, inode, -, hshortened⟩ := htruncate
    · exact (Kept.refl hcons).preserves
    · exact hshortened.edited.toChangedOnly.preserves rfl
  | replace now inodeN buf fSize =>
    obtain ⟨hmark, htype⟩ := htarget inodeN rfl
    refine (replaceInode_spec hcons (FsInfo.owner_of_file hmark htype) hsize now buf).bind
      fun _ fs' hreplace => Runs.pure ?_
    obtain ⟨-, hreplaced⟩ | ⟨-, hreplaced⟩ := hreplace
    · exact hreplaced.edited.toChangedOnly.preserves rfl
    · exact hreplaced.edited.toChangedOnly.preserves rfl
  | delete now inodeN =>
    obtain ⟨hmark, -⟩ := htarget inodeN rfl
    refine (deleteInode_spec hcons hmark hsize now).bind fun _ fs' hdeleted => Runs.pure ?_
    exact hdeleted.2.changed.preserves rfl

/-- In every state that operations on regular files reach from a consistent filesystem, the filesystem
is consistent, and so it is after one more call, which leaves every inode it does not name alone. -/
theorem inode_runs_consistent {s : FsInfo} (hcons : Consistent static fs)
    (hreach : Reach InodeOp.Allowed InodeOp.exec fs s) :
    Consistent static s ∧ ∀ op : InodeOp, op.Allowed s →
      Runs op.exec s fun _ s' => op.Preserves static s s' := by
  have hcons' : Consistent static s := hreach.invariant hcons fun mid op hmid hallowed =>
    (InodeOp.exec_spec hmid hallowed).mono fun _ _ hpreserves => hpreserves.1
  exact ⟨hcons', fun op hallowed => InodeOp.exec_spec hcons' hallowed⟩

end Runs

/-! ### The small filesystem -/

theorem smallFs_marked_inode {n : UInt32} (hn : smallFs.marked .inode n = true) :
    n = 1 ∨ n = 2 ∨ n = 3 := by
  have hreal := FsInfo.real_of_marked hn
  have hle : n.toNat ≤ 32 := UInt32.le_iff_toNat_le.mp hreal.2
  have hall : ∀ k : Fin 33, smallFs.marked .inode (UInt32.ofNat k) = true →
      UInt32.ofNat k = 1 ∨ UInt32.ofNat k = 2 ∨ UInt32.ofNat k = 3 := by decide
  have hk := hall ⟨n.toNat, by omega⟩
  rw [UInt32.ofNat_toNat] at hk
  exact hk hn

theorem smallFs_inodeSlot {n : UInt32} (hn : smallFs.geo.Real .inode n) :
    smallFs.inodeSlot n = (4, 128 * (n.toNat - 1)) := by
  have hle : n.toNat ≤ 32 := UInt32.le_iff_toNat_le.mp hn.2
  have hall : ∀ k : Fin 33, 0 < k.val →
    smallFs.inodeSlot (UInt32.ofNat k) = (4, 128 * (k.val - 1)) := by decide
  have hk := hall ⟨n.toNat, by omega⟩ (UInt32.lt_iff_toNat_lt.mp hn.1)
  rwa [UInt32.ofNat_toNat] at hk

theorem smallFs_data_four : smallFs.data 4 = smallFile.store (smallRoot.store zero 128) 256 := by
  rw [FsInfo.data, if_neg (by decide)]
  rfl

theorem smallFs_record : smallFs.record 1 = Inode.zero ∧ smallFs.record 2 = smallRoot ∧
    smallFs.record 3 = smallFile := by
  have hslot : ∀ n, smallFs.geo.Real .inode n →
      smallFs.record n = Inode.load (smallFile.store (smallRoot.store zero 128) 256) (128 * (n.toNat - 1)) :=
    fun n hn => by rw [FsInfo.record, smallFs_inodeSlot hn, smallFs_data_four]
  have hone : Inode.load (smallFile.store (smallRoot.store zero 128) 256) 0 = Inode.load zero 0 :=
    Inode.load_congr fun k _ hk => by
      rw [Inode.store_apply_of_disjoint _ _ (by omega), Inode.store_apply_of_disjoint _ _ (by omega)]
  have htwo : Inode.load (smallFile.store (smallRoot.store zero 128) 256) 128 =
      Inode.load (smallRoot.store zero 128) 128 :=
    Inode.load_congr fun k _ hk => Inode.store_apply_of_disjoint _ _ (by omega)
  exact ⟨(hslot 1 (by decide)).trans hone, (hslot 2 (by decide)).trans (htwo.trans (Inode.load_store_self ..)),
    (hslot 3 (by decide)).trans (Inode.load_store_self ..)⟩

theorem smallFs_layout : Layout smallStatic smallFs where
  inodeSize_ge := by decide
  inodeSize_dvd := ⟨32, rfl⟩
  static n hn := by
    rw [smallFs_inodeSlot hn]
    exact (by decide : (4 : UInt32) < 5)
  notBook n hn := by
    rw [smallFs_inodeSlot hn]
    exact (by decide : smallFs.geo.isBook 4 = false)
  apart m n hm hn _ := by
    have hgroup : ∀ n, smallFs.geo.Real .inode n → (n - 1) / smallFs.inodesPerGrp = 0 := fun n hn => by
      have hle : n.toNat ≤ 32 := UInt32.le_iff_toNat_le.mp hn.2
      have hall : ∀ k : Fin 33, 0 < k.val → (UInt32.ofNat k - 1) / smallFs.inodesPerGrp = 0 := by decide
      have hk := hall ⟨n.toNat, by omega⟩ (UInt32.lt_iff_toNat_lt.mp hn.1)
      rwa [UInt32.ofNat_toNat] at hk
    rw [hgroup m hm, hgroup n hn]

theorem smallRoot_inodeOk : InodeOk smallStatic smallFs smallRoot where
  tree := smallRoot_treeOk
  short j _ hpast := by
    have hlow : 1 ≤ (locate j).1 := le_locate (by omega) hpast
    have hroot : ∀ r, 1 ≤ r → smallRoot.root r = 0 := fun r hr => by
      rw [Inode.root]
      split_ifs with hdirect
      · have hne : (⟨r, hdirect⟩ : Fin 12) ≠ 0 := fun heq => by
          have hzero : r = 0 := congrArg Fin.val heq
          omega
        change Function.update (fun _ : Fin 12 => (0 : UInt32)) 0 5 ⟨r, hdirect⟩ = 0
        rw [Function.update_of_ne hne]
      all_goals rfl
    rw [mapped, hroot _ hlow, find_zero_ptr]
  sectors := by
    rw [smallRoot_refs]
    rfl

theorem smallFs_owns {n : UInt32} (hn : smallFs.marked .inode n = true) :
    smallFs.owns n = if n = 2 then [5] else [] := by
  obtain ⟨hone, htwo, hthree⟩ := smallFs_record
  obtain rfl | rfl | rfl := smallFs_marked_inode hn
  · rw [FsInfo.owns, hone]
    exact refs_of_zero _ fun r => Inode.root_clearPtrs Inode.zero r
  · rw [FsInfo.owns, htwo, smallRoot_refs]
    rfl
  · rw [FsInfo.owns, hthree]
    exact refs_of_zero _ fun r => Inode.root_clearPtrs smallFile r

theorem smallFs_consistent : Consistent smallStatic smallFs where
  mounted := smallFs_mounted
  layout := smallFs_layout
  inode n hn := by
    obtain ⟨hone, htwo, hthree⟩ := smallFs_record
    obtain rfl | rfl | rfl := smallFs_marked_inode hn.1
    · rw [hone]
      exact InodeOk.of_zero _ (fun r => Inode.root_clearPtrs Inode.zero r) rfl
    · rw [htwo]
      exact smallRoot_inodeOk
    · rw [hthree]
      exact InodeOk.of_zero _ (fun r => Inode.root_clearPtrs smallFile r) rfl
  apart m n hm hn hne b hbm hbn := by
    rw [smallFs_owns hm.1] at hbm
    rw [smallFs_owns hn.1] at hbn
    split_ifs at hbm hbn with h1 h2
    · exact hne (h1.trans h2.symm)
    all_goals simp at hbm hbn
  covered b hb := by
    have hreal : b < 32 := FsInfo.real_of_marked hb
    have hlt : b.toNat < 32 := UInt32.lt_iff_toNat_lt.mp hreal
    have hall : ∀ k : Fin 32, smallFs.marked .block (UInt32.ofNat k) = true →
        UInt32.ofNat k < 5 ∨ UInt32.ofNat k = 5 := by decide
    have hk := hall ⟨b.toNat, hlt⟩
    rw [UInt32.ofNat_toNat] at hk
    refine (hk hb).imp id ?_
    rintro rfl
    refine ⟨2, ⟨by decide, ?_⟩, ?_⟩
    · rw [smallFs_record.2.1]
      decide
    · rw [smallFs_owns (by decide)]
      exact List.mem_cons_self

def smallMachine : Machine where
  fsEntries _ := smallFs
  rootFs := 0
  label _ := zero

theorem inode_runs_consistent_smallFs :
    Consistent smallStatic smallFs ∧ (InodeOp.append 0 zero 3 zero 70000).Allowed smallFs ∧
      Runs (InodeOp.append 0 zero 3 zero 70000).exec smallFs fun _ fs' =>
        (InodeOp.append 0 zero 3 zero 70000).Preserves smallStatic smallFs fs' := by
  have hallowed : (InodeOp.append 0 zero 3 zero 70000).Allowed smallFs := by
    refine ⟨fun n hn => ?_, ?_⟩
    · obtain rfl : 3 = n := Option.some.inj hn
      rw [smallFs_record.2.2]
      exact ⟨by decide, by decide⟩
    · change (smallFs.record 3).sizeLo.toNat + 70000 ≤ maxSize
      rw [smallFs_record.2.2]
      decide
  exact ⟨smallFs_consistent, hallowed, (inode_runs_consistent smallFs_consistent .refl).2 _ hallowed⟩

end DeprecatOS
