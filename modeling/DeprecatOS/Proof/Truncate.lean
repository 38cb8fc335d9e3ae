import DeprecatOS.Proof.Change
import DeprecatOS.Proof.WriteInode

/-!
# Shrinking a file

`truncate_inode` unmaps the file blocks past the new end one at a time, releases their data blocks and
clears the rest of the last block that stays.
-/

namespace DeprecatOS

open Bytes Bits Fault PointerTree

variable {static : UInt32 → Prop} {fs fs' : FsInfo} {inode inode' : Inode}

theorem truncateBlocks_spec (cnt : Nat) {blk freeCnt : UInt32} (hmounted : Mounted static fs)
    (htree : TreeOk static fs inode) (hblk : blk.toNat + cnt ≤ 1048576) :
    Runs (truncateBlocks cnt blk inode freeCnt) fs fun result fs' =>
      ∃ inode' n, result = some (inode', freeCnt + UInt32.ofNat n) ∧
        Unmapped static fs fs' inode inode' (fun j => blk.toNat ≤ j ∧ j < blk.toNat + cnt) n := by
  induction cnt generalizing fs inode blk freeCnt with
  | zero => exact Runs.pure ⟨inode, 0, by simp, Unmapped.of_holes hmounted htree fun j _ hj => by omega⟩
  | succ cnt ih =>
    have hidx : blk.toNat < fileBlkLimit := by
      rw [fileBlkLimit]
      omega
    have hnext : (blk + 1).toNat = blk.toNat + 1 := toNat_add_one (by omega)
    have hrest : (blk + 1).toNat + cnt ≤ 1048576 := by omega
    -- whether the first index was a hole or is released, the rest of the loop takes the others
    have hcons : ∀ j, (j = blk.toNat ∨ ((blk + 1).toNat ≤ j ∧ j < (blk + 1).toNat + cnt)) ↔
        (blk.toNat ≤ j ∧ j < blk.toNat + (cnt + 1)) := fun j => by omega
    rw [truncateBlocks, truncateBlocksWith]
    refine (mapFileBlock_free_within hmounted htree hidx (some freeCnt)).bind fun call mid hcall => ?_
    obtain ⟨⟨hhole, rfl, rfl⟩ | ⟨gone, hne, hstatus, hblkOut, hcnt, hshrank⟩, hwithin⟩ := hcall
    · refine (ih hmounted htree hrest).mono fun result fs' hlater => ?_
      obtain ⟨inode', n, hresult, hlater⟩ := hlater
      refine ⟨inode', n, hresult, ?_⟩
      have hfirst : Unmapped static mid mid inode inode (· = blk.toNat) 0 :=
        Unmapped.of_holes hmounted htree fun j _ hj => by rw [hj, hhole]
      have hall := (hfirst.trans hlater).congr hcons
      rwa [Nat.zero_add] at hall
    · rw [hstatus]
      simp only [Mapped.blkOut, hblkOut, pure_bind]
      refine (hshrank.freeBlock_spec htree hidx hne hwithin).bind fun _ fs₁ hunmapped => ?_
      refine (ih hunmapped.reshaped.trade.frame.mounted hunmapped.reshaped.tree hrest).mono
        fun result fs' hlater => ?_
      obtain ⟨inode', n, hresult, hlater⟩ := hlater
      refine ⟨inode', gone.length + 1 + n, ?_, (hunmapped.trans hlater).congr hcons⟩
      rw [hresult, hcnt, addCnt, Option.map_some, Option.getD_some, UInt32.ofNat_add _ n,
        UInt32.add_assoc]

/-- The last block that stays was cleared past the new end, unless there is a hole or it is full. -/
structure TailCleared (static : UInt32 → Prop) (fs fs' : FsInfo) (inode : Inode) (newSize : UInt32) : Prop where
  reshaped : Reshaped static fs fs' inode inode
  refs_eq : refs fs'.entries inode = refs fs.entries inode
  mapped_eq : ∀ j < fileBlkLimit, mapped fs'.entries inode j = mapped fs.entries inode j
  within : Within fs'.entries fs.entries inode inode
  others : ∀ j < fileBlkLimit, j ≠ newSize.toNat / 4096 → SameData fs fs' inode inode j
  data : newSize % 4096 ≠ 0 → mapped fs.entries inode (newSize.toNat / 4096) ≠ 0 →
    ∀ k, fs'.data (mapped fs.entries inode (newSize.toNat / 4096)) k =
      if newSize.toNat % 4096 ≤ k then 0 else fs.data (mapped fs.entries inode (newSize.toNat / 4096)) k

theorem TailCleared.refl {newSize : UInt32} (hmounted : Mounted static fs) (htree : TreeOk static fs inode)
    (hnone : newSize % 4096 ≠ 0 → mapped fs.entries inode (newSize.toNat / 4096) = 0) :
    TailCleared static fs fs inode newSize where
  reshaped := Reshaped.refl hmounted htree
  refs_eq := rfl
  mapped_eq _ _ := rfl
  within := (Within.of_same fun _ _ => rfl).1
  others _ _ _ := ⟨rfl, fun _ => rfl⟩
  data hoff hne := absurd (hnone hoff) hne

theorem clearTail_spec {newSize : UInt32} (hmounted : Mounted static fs) (htree : TreeOk static fs inode) :
    Runs (clearTail inode newSize) fs fun ok fs' => ok = true ∧ TailCleared static fs fs' inode newSize := by
  have hquot : (newSize / 4096).toNat = newSize.toNat / 4096 := UInt32.toNat_div _ _
  have hidx : (newSize / 4096).toNat < fileBlkLimit := by
    have hlt := newSize.toNat_lt
    rw [hquot, fileBlkLimit]
    omega
  rw [clearTail, clearTailWith]
  refine (mapFileBlock_lookup_spec hmounted htree hidx none).bind fun call mid hcall => ?_
  obtain ⟨rfl, rfl⟩ := hcall
  by_cases hhole : mapped mid.entries inode (newSize / 4096).toNat = 0
  · rw [if_pos hhole]
    exact Runs.pure ⟨rfl, .refl hmounted htree fun _ => hquot ▸ hhole⟩
  · rw [if_neg hhole]
    have hmem := mapped_mem_refs hidx hhole
    simp only [Mapped.blkOut, pure_bind]
    refine Runs.bind_eq (hmounted.readBlock_data (htree.used _ hmem) (htree.notStatic _ hmem)) ?_
    refine (htree.writeBlock_spec hmounted hidx hhole _).bind fun _ fs' hwrote => Runs.pure ?_
    have hmod : (newSize % 4096).toNat = newSize.toNat % 4096 := UInt32.toNat_mod _ _
    rw [hquot, hmod] at hwrote
    exact ⟨rfl, hwrote.reshaped, hwrote.refs_eq, hwrote.mapped_eq, hwrote.inside, hwrote.others,
      fun _ _ k => congrFun hwrote.data_eq k⟩

def Inode.shortened (inode : Inode) (freeCnt newSize now : UInt32) : Inode :=
  { inode with
    diskSectors := inode.diskSectors - freeCnt * sectorsPerBlk
    sizeLo := newSize
    lastModTime := now
    lastAccessTime := now }

theorem Unmapped.inodeOk_shortened {fs₁ fs₂ : FsInfo} {inode₁ : Inode} {newSize : UInt32} {cnt : Nat}
    (htruncated : Unmapped static fs fs₁ inode inode₁
      (fun j => sizeBlocks newSize ≤ j ∧ j < sizeBlocks inode.sizeLo) cnt)
    (hinode : InodeOk static fs inode) (htree : TreeOk static fs₂ inode₁)
    (hrefs : refs fs₂.entries inode₁ = refs fs₁.entries inode₁)
    (hmapped : ∀ j < fileBlkLimit, mapped fs₂.entries inode₁ j = mapped fs₁.entries inode₁ j)
    (now : UInt32) :
    InodeOk static fs₂ (inode₁.shortened (0 + UInt32.ofNat cnt) newSize now) where
  tree := htree.of_root rfl
  short j hj hpast := by
    rw [mapped_of_root (show (inode₁.shortened _ newSize now).root = inode₁.root from rfl), hmapped j hj]
    change sizeBlocks newSize ≤ j at hpast
    by_cases hin : sizeBlocks newSize ≤ j ∧ j < sizeBlocks inode.sizeLo
    · exact htruncated.holes j hj hin
    · rw [(htruncated.others j hj hin).1]
      exact hinode.short j hj (by omega)
  sectors := by
    rw [refs_of_root (show (inode₁.shortened _ newSize now).root = inode₁.root from rfl), hrefs]
    have hlength := htruncated.length
    have hsectors := hinode.sectors
    have hlt := inode.diskSectors.toNat_lt
    have hsame : inode₁.diskSectors = inode.diskSectors := by
      change inode₁.clearPtrs.diskSectors = inode.clearPtrs.diskSectors
      rw [htruncated.reshaped.fields]
    have hfreed : ((0 + UInt32.ofNat cnt) * sectorsPerBlk).toNat = 8 * cnt := by
      rw [UInt32.zero_add, UInt32.toNat_mul, UInt32.toNat_ofNat']
      change cnt % 4294967296 * 8 % 4294967296 = _
      omega
    change (inode₁.diskSectors - (0 + UInt32.ofNat cnt) * sectorsPerBlk).toNat = _
    rw [hsame, UInt32.toNat_sub_of_le, hfreed]
    · omega
    · rw [UInt32.le_iff_toNat_le, hfreed]
      omega

structure Shortened (static : UInt32 → Prop) (fs fs' : FsInfo) (n newSize : UInt32) (inode : Inode) :
    Prop where
  edited : Edited static fs fs' n
  record : fs'.record n = inode
  size : inode.sizeLo = newSize
  type : inode.type = (fs.record n).type
  links : inode.hardLinkCnt = (fs.record n).hardLinkCnt
  kept : ∀ j < newSize.toNat / 4096, SameData fs fs' (fs.record n) inode j
  mapped_eq : ∀ j < sizeBlocks newSize, mapped fs'.entries inode j = mapped fs.entries (fs.record n) j
  tail : newSize % 4096 ≠ 0 → mapped fs.entries (fs.record n) (newSize.toNat / 4096) ≠ 0 →
    ∀ k, fs'.data (mapped fs.entries (fs.record n) (newSize.toNat / 4096)) k = if newSize.toNat % 4096 ≤ k then 0
      else fs.data (mapped fs.entries (fs.record n) (newSize.toNat / 4096)) k
  within : Within fs'.entries fs.entries inode (fs.record n)
  used : ∀ b, fs'.Used b ↔ (fs.Used b ∧ b ∉ fs.owns n) ∨ b ∈ fs'.owns n

theorem Unmapped.shortened {fs₁ fs₂ : FsInfo} {inode₁ : Inode} {n newSize now : UInt32} {cnt : Nat}
    (hcons : Consistent static fs) (howner : fs.Owner n)
    (htruncated : Unmapped static fs fs₁ (fs.record n) inode₁
      (fun j => sizeBlocks newSize ≤ j ∧ j < sizeBlocks (fs.record n).sizeLo) cnt)
    (hcleared : TailCleared static fs₁ fs₂ inode₁ newSize)
    (hstored : Stored static fs₂ fs' n (inode₁.shortened (0 + UInt32.ofNat cnt) newSize now)) :
    Shortened static fs fs' n newSize (inode₁.shortened (0 + UInt32.ofNat cnt) newSize now) := by
  have hok := htruncated.inodeOk_shortened (hcons.inode n howner) hcleared.reshaped.tree hcleared.refs_eq
    hcleared.mapped_eq now
  have hroot : (inode₁.shortened (0 + UInt32.ofNat cnt) newSize now).root = inode₁.root := rfl
  have hfields := htruncated.reshaped.fields
  have htrade := (htruncated.reshaped.trans hcleared.reshaped).trade
  rw [← refs_of_root hroot] at htrade
  have hrebuilt := hcons.rebuilt howner htrade hok hstored
  have hlimit : ∀ j < sizeBlocks newSize, j < fileBlkLimit := fun j hj => lt_fileBlkLimit hj
  have hothers : ∀ j < sizeBlocks newSize, SameData fs fs₁ (fs.record n) inode₁ j := fun j hj =>
    htruncated.others j (hlimit j hj) fun hgone => absurd hgone.1 (Nat.not_le_of_lt hj)
  have hlast : ∀ j < sizeBlocks newSize, SameData fs₂ fs' inode₁ (inode₁.shortened _ newSize now) j := fun j hj =>
    hrebuilt.same j (hlimit j hj)
  refine ⟨hrebuilt.toEdited, hstored.record, rfl, ?_, ?_, fun j hj => ?_, fun j hj => ?_, fun hoff hne k => ?_, ?_,
    fun b => ?_⟩
  · change inode₁.clearPtrs.type = (fs.record n).clearPtrs.type
    rw [hfields]
  · change inode₁.clearPtrs.hardLinkCnt = (fs.record n).clearPtrs.hardLinkCnt
    rw [hfields]
  · have hj' : j < sizeBlocks newSize := by
      rw [sizeBlocks]
      omega
    exact ((hothers j hj').trans (hcleared.others j (hlimit j hj') (Nat.ne_of_lt hj))).trans (hlast j hj')
  · rw [(hlast j hj).1, hcleared.mapped_eq j (hlimit j hj), (hothers j hj).1]
  · have hmod : newSize.toNat % 4096 ≠ 0 := fun hzero => hoff (UInt32.toNat_inj.mp ((UInt32.toNat_mod _ _).trans hzero))
    have hquot : newSize.toNat / 4096 < sizeBlocks newSize := by
      rw [sizeBlocks]
      omega
    obtain ⟨hsame, hdata⟩ := hothers _ hquot
    obtain ⟨-, hdata'⟩ := hlast _ hquot
    have hcut := hcleared.data hoff
    rw [hcleared.mapped_eq _ (hlimit _ hquot), hsame] at hdata'
    rw [hsame] at hcut
    rw [hdata' hne, hcut hne, hdata hne]
  · have hnodes : ∀ b, IsNode fs₂.entries (inode₁.shortened _ newSize now) b → fs'.entries b = fs₂.entries b :=
      fun b hb => FsInfo.entries_congr (hstored.data b (hok.tree.notStatic b (isNode_mem_refs hb)))
    exact (Within.of_same hnodes).2.trans (hcleared.within.trans htruncated.within)
  · rw [hrebuilt.used, hrebuilt.owns, htrade.used]
    rfl

theorem truncateInode_spec {n : UInt32} (hcons : Consistent static fs) (howner : fs.Owner n)
    (hsize : (fs.record n).sizeLo.toNat ≤ maxSize) (now newSize : UInt32) :
    Runs (truncateInode now n newSize) fs fun result fs' =>
      ((fs.record n).sizeLo < newSize ∧ result = none ∧ fs' = fs) ∨
      (¬ (fs.record n).sizeLo < newSize ∧ ∃ inode, result = some inode ∧
        Shortened static fs fs' n newSize inode) := by
  have hreal := FsInfo.real_of_marked howner.1
  have hinode := hcons.inode n howner
  rw [truncateInode, truncateInodeWith]
  refine Runs.bind_eq (getInode_run hcons.mounted hcons.layout hreal) ?_
  dsimp only
  by_cases hlarger : (fs.record n).sizeLo < newSize
  · rw [if_pos hlarger]
    exact Runs.pure (Or.inl ⟨hlarger, rfl, rfl⟩)
  rw [if_neg hlarger]
  have hle : newSize.toNat ≤ (fs.record n).sizeLo.toNat :=
    UInt32.le_iff_toNat_le.mp (UInt32.not_lt.mp hlarger)
  have hstart := toNat_blocksFor (hle.trans hsize)
  have htotal := toNat_blocksFor hsize
  have hlt := sizeBlocks_lt hsize
  have hmono : sizeBlocks newSize ≤ sizeBlocks (fs.record n).sizeLo := by
    rw [sizeBlocks, sizeBlocks]
    omega
  rw [hstart, htotal]
  refine (truncateBlocks_spec _ hcons.mounted hinode.tree (by rw [hstart]; omega)).bind
    fun result fs₁ htruncated => ?_
  obtain ⟨inode₁, cnt, rfl, htruncated⟩ := htruncated
  rw [hstart, Nat.add_sub_cancel' hmono] at htruncated
  dsimp only
  have htail : Runs (if newSize % 4096 = 0 then pure true else clearTail inode₁ newSize) fs₁
      fun ok fs₂ => ok = true ∧ TailCleared static fs₁ fs₂ inode₁ newSize := by
    have hmounted := htruncated.reshaped.trade.frame.mounted
    split_ifs with hfull
    · exact Runs.pure ⟨rfl, .refl hmounted htruncated.reshaped.tree fun hoff => absurd hfull hoff⟩
    · exact clearTail_spec hmounted htruncated.reshaped.tree
  refine htail.bind fun ok fs₂ hcleared => ?_
  obtain ⟨rfl, hcleared⟩ := hcleared
  rw [if_pos rfl]
  have hall := htruncated.reshaped.trans hcleared.reshaped
  have hlayout := hcons.layout.of_geo hall.trade.frame.geo
  have hreal₂ : fs₂.geo.Real .inode n := by
    rw [hall.trade.frame.geo]
    exact hreal
  refine (setInode_spec hall.trade.frame.mounted hlayout hreal₂ _).bind fun stored fs' hstored => ?_
  obtain ⟨rfl, hstored⟩ := hstored
  rw [if_pos rfl]
  exact Runs.pure (Or.inr ⟨hlarger, _, rfl, htruncated.shortened hcons howner hcleared hstored⟩)

end DeprecatOS
