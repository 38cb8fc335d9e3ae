import DeprecatOS.Consistent
import DeprecatOS.Proof.Ownership

/-!
# The data blocks of a file

In a well-formed tree the data blocks at different indices are different, and none of them is a pointer
block. So a change of one index, and a write to one data block, leaves the data at every other index
alone. Of the trees inside one tree each is determined by the indices it maps, so what was added to a tree and taken
away again leaves no trace.
-/

namespace DeprecatOS

open Bytes Bits Fault PointerTree

/-! ### Indices -/

def indexOf (r o : Nat) : Nat :=
  if r < 12 then r else if r = 12 then 12 + o else if r = 13 then 1036 + o else 1049612 + o

theorem locate_indexOf {r o : Nat} (hr : r < 15) (ho : o < ptrsPerBlk ^ rootHeight r) :
    indexOf r o < fileBlkLimit ∧ locate (indexOf r o) = (r, o) := by
  rw [fileBlkLimit, indexOf]
  by_cases hdirect : r < 12
  · have hheight : rootHeight r = 0 := by
      rw [rootHeight]
      omega
    rw [hheight, pow_zero, Nat.lt_one_iff] at ho
    rw [if_pos hdirect, locate, if_pos hdirect, ho]
    exact ⟨by omega, rfl⟩
  have hcases : r = 12 ∨ r = 13 ∨ r = 14 := by omega
  rcases hcases with rfl | rfl | rfl
  · have ho : o < 1024 := ho
    change 12 + o < _ ∧ locate (12 + o) = _
    rw [locate, if_neg (by omega), if_pos (by omega), Nat.add_sub_cancel_left]
    exact ⟨by omega, rfl⟩
  · have ho : o < 1048576 := ho
    change 1036 + o < _ ∧ locate (1036 + o) = _
    rw [locate, if_neg (by omega), if_neg (by omega), if_pos (by omega), Nat.add_sub_cancel_left]
    exact ⟨by omega, rfl⟩
  · have ho : o < 1073741824 := ho
    change 1049612 + o < _ ∧ locate (1049612 + o) = _
    rw [locate, if_neg (by omega), if_neg (by omega), if_neg (by omega), Nat.add_sub_cancel_left]
    exact ⟨by omega, rfl⟩

theorem mapped_indexOf (c : Store UInt32) (inode : Inode) {r o : Nat} (hr : r < 15)
    (ho : o < ptrsPerBlk ^ rootHeight r) :
    mapped c inode (indexOf r o) = find ptrsPerBlk c (rootHeight r) (inode.root r) o := by
  rw [mapped, (locate_indexOf hr ho).2]

section Tree

variable {static : UInt32 → Prop} {fs fs' : FsInfo} {inode inode' : Inode} {i j : Nat}

theorem TreeOk.mapped_inj (htree : TreeOk static fs inode) (hi : i < fileBlkLimit)
    (hj : j < fileBlkLimit) (hne : mapped fs.entries inode i ≠ 0)
    (heq : mapped fs.entries inode i = mapped fs.entries inode j) : i = j := by
  obtain ⟨hri, hoi⟩ := locate_lt hi
  obtain ⟨hrj, hoj⟩ := locate_lt hj
  have hmemI := find_mem_blocks hoi hne
  have hmemJ := find_mem_blocks hoj (show mapped fs.entries inode j ≠ 0 from heq ▸ hne)
  have hslot : (locate i).1 = (locate j).1 := by
    refine forest_slot_unique htree.nodup hri hrj hmemI ?_
    change mapped fs.entries inode i ∈ _
    rw [heq]
    exact hmemJ
  refine locate_inj hslot ?_
  rw [mapped, mapped, ← hslot] at heq
  rw [← hslot] at hoj
  exact find_inj (nodup_of_forest htree.nodup hri) hoi hoj hne heq

theorem TreeOk.mapped_not_node (htree : TreeOk static fs inode) (hj : j < fileBlkLimit)
    (hne : mapped fs.entries inode j ≠ 0) : ¬ IsNode fs.entries inode (mapped fs.entries inode j) := by
  rintro ⟨r, hr, hnode⟩
  obtain ⟨hrj, hoj⟩ := locate_lt hj
  have hslot : (locate j).1 = r :=
    forest_slot_unique htree.nodup hrj hr (find_mem_blocks hoj hne) (blocks_of_mem_nodes hnode)
  rw [← hslot] at hnode
  exact find_notMem_nodes (nodup_of_forest htree.nodup hrj) hoj hne hnode

theorem TreeOk.agree {c : Store UInt32} {whole : Inode} (htree : TreeOk static fs inode) (htree' : TreeOk static fs' inode')
    (hwithin : Within fs.entries c inode whole) (hwithin' : Within fs'.entries c inode' whole)
    (hsame : ∀ j < fileBlkLimit, mapped fs.entries inode j = 0 ↔ mapped fs'.entries inode' j = 0) :
    inode'.root = inode.root ∧ refs fs'.entries inode' = refs fs.entries inode ∧
      ∀ j < fileBlkLimit, mapped fs'.entries inode' j = mapped fs.entries inode j := by
  have hagree : ∀ r (hr : r < 15), _ := fun r hr =>
    Inside.agree (htree.full r hr) (htree'.full r hr) (hwithin r hr) (hwithin' r hr) fun o ho => by
      rw [← mapped_indexOf _ _ hr ho, ← mapped_indexOf _ _ hr ho]
      exact hsame _ (locate_indexOf hr ho).1
  refine ⟨funext fun r => ?_, ?_, fun j hj => ?_⟩
  · by_cases hr : r < 15
    · exact (hagree r hr).1
    · have hnone : ∀ ino : Inode, ino.root r = 0 := fun ino => by
        rw [Inode.root, dif_neg (by omega), if_neg (by omega), if_neg (by omega), if_neg (by omega)]
      rw [hnone, hnone]
  · rw [refs, refs, forest, forest]
    apply List.flatMap_congr
    intro r hr
    exact (hagree r (List.mem_range.mp hr)).2.1
  · exact (hagree _ (locate_lt hj).1).2.2 _ (locate_lt hj).2

/-! ### Ownership -/

theorem TreeGrew.trade {idx : Nat} {diskBlk : UInt32} {adds : List UInt32}
    (htree : TreeOk static fs inode) (hgrew : TreeGrew static fs fs' inode inode' idx diskBlk adds) :
    Trade static (refs fs.entries inode) (refs fs'.entries inode') fs fs' where
  frame := hgrew.frame.mono fun _ => isNode_mem_refs
  used b := by
    rw [hgrew.used, hgrew.perm.mem_iff, List.mem_append]
    constructor
    · rintro (hb | hadd)
      · by_cases hmem : b ∈ refs fs.entries inode
        · exact Or.inr (Or.inr hmem)
        · exact Or.inl ⟨hb, hmem⟩
      · exact Or.inr (Or.inl hadd)
    · rintro (⟨hb, -⟩ | hadd | hmem)
      · exact Or.inl hb
      · exact Or.inr hadd
      · exact Or.inl (htree.used b hmem)
  fresh b hb hold := by
    rw [hgrew.perm.mem_iff, List.mem_append] at hb
    exact hgrew.fresh b (hb.resolve_right hold)

theorem TreeShrank.trade {idx : Nat} {diskBlk : UInt32} {gone : List UInt32}
    (htree : TreeOk static fs inode) (hshrank : TreeShrank static fs fs' inode inode' idx diskBlk gone) :
    Trade static (refs fs.entries inode) (diskBlk :: refs fs'.entries inode') fs fs' := by
  have hsplit : ∀ b, b ∈ refs fs.entries inode ↔
      b ∈ diskBlk :: refs fs'.entries inode' ∨ b ∈ gone := fun b => by
    rw [← hshrank.perm.mem_iff, List.mem_append, List.mem_cons, List.mem_cons]
    tauto
  have hdisjoint : ∀ b ∈ diskBlk :: refs fs'.entries inode', b ∉ gone := by
    have hnodup := hshrank.perm.nodup_iff.mpr htree.nodup
    obtain ⟨-, htail, hapart⟩ := List.nodup_append'.mp hnodup
    intro b hb hgone
    obtain rfl | hmem := List.mem_cons.mp hb
    · exact (List.nodup_cons.mp htail).1 hgone
    · exact hapart hmem (List.mem_cons_of_mem _ hgone)
  refine ⟨hshrank.frame.mono fun _ => isNode_mem_refs, fun b => ?_, fun b hb hold => ?_⟩
  · rw [hshrank.used]
    constructor
    · rintro ⟨hb, hgone⟩
      by_cases hmem : b ∈ refs fs.entries inode
      · exact Or.inr (((hsplit b).mp hmem).resolve_right hgone)
      · exact Or.inl ⟨hb, hmem⟩
    · rintro (⟨hb, hmem⟩ | hkept)
      · exact ⟨hb, fun hgone => hmem ((hsplit b).mpr (Or.inr hgone))⟩
      · exact ⟨htree.used b ((hsplit b).mpr (Or.inl hkept)), hdisjoint b hkept⟩
  · exact absurd ((hsplit b).mpr (Or.inl hb)) hold

/-! ### Changes of a file -/

/-- From `fs` to `fs'` the tree of `inode` became that of `inode'`, without touching other blocks. -/
structure Reshaped (static : UInt32 → Prop) (fs fs' : FsInfo) (inode inode' : Inode) : Prop where
  tree : TreeOk static fs' inode'
  trade : Trade static (refs fs.entries inode) (refs fs'.entries inode') fs fs'
  fields : inode'.clearPtrs = inode.clearPtrs

theorem Reshaped.refl (hmounted : Mounted static fs) (htree : TreeOk static fs inode) :
    Reshaped static fs fs inode inode :=
  ⟨htree, Trade.refl hmounted htree.used, rfl⟩

theorem Reshaped.trans {fs'' : FsInfo} {inode'' : Inode} (hfirst : Reshaped static fs fs' inode inode')
    (hsecond : Reshaped static fs' fs'' inode' inode'') : Reshaped static fs fs'' inode inode'' :=
  ⟨hsecond.tree, hfirst.trade.trans hsecond.trade, hsecond.fields.trans hfirst.fields⟩

theorem Reshaped.of_grew {idx : Nat} {diskBlk : UInt32} {adds : List UInt32}
    (htree : TreeOk static fs inode) (hgrew : TreeGrew static fs fs' inode inode' idx diskBlk adds) :
    Reshaped static fs fs' inode inode' :=
  ⟨hgrew.tree, hgrew.trade htree, hgrew.fields⟩

/-- The data at index `j` is the same: the index maps to the same block, with the same contents. -/
def SameData (fs fs' : FsInfo) (inode inode' : Inode) (j : Nat) : Prop :=
  mapped fs'.entries inode' j = mapped fs.entries inode j ∧
    (mapped fs.entries inode j ≠ 0 →
      fs'.data (mapped fs.entries inode j) = fs.data (mapped fs.entries inode j))

theorem SameData.trans {fs'' : FsInfo} {inode'' : Inode} (hfirst : SameData fs fs' inode inode' j)
    (hsecond : SameData fs' fs'' inode' inode'' j) : SameData fs fs'' inode inode'' j := by
  refine ⟨hsecond.1.trans hfirst.1, fun hne => ?_⟩
  have hnext := hsecond.2
  rw [hfirst.1] at hnext
  rw [hnext hne, hfirst.2 hne]

theorem SameData.of_root {inode'' : Inode} (hsame : SameData fs fs' inode inode' j)
    (hroot : inode''.root = inode'.root) : SameData fs fs' inode inode'' j :=
  ⟨(mapped_of_root hroot _ _).trans hsame.1, hsame.2⟩

theorem SameData.byte_eq {k : Nat} (hsame : SameData fs fs' inode inode' (k / blockSize)) :
    fs'.byte inode' k = fs.byte inode k := by
  rw [FsInfo.byte, FsInfo.byte, hsame.1]
  split_ifs with hzero
  · rfl
  · rw [hsame.2 hzero]

theorem TreeGrew.sameData {idx : Nat} {diskBlk : UInt32} {adds : List UInt32}
    (htree : TreeOk static fs inode) (hgrew : TreeGrew static fs fs' inode inode' idx diskBlk adds)
    (hj : j < fileBlkLimit) (hne : j ≠ idx) : SameData fs fs' inode inode' j := by
  refine ⟨by rw [hgrew.mapped_eq j hj, if_neg hne], fun hmapped => ?_⟩
  exact hgrew.frame.data _ (htree.used _ (mapped_mem_refs hj hmapped)) (htree.mapped_not_node hj hmapped)

structure Rewrote (static : UInt32 → Prop) (fs fs' : FsInfo) (inode : Inode) (idx : Nat) (buf : Buf) :
    Prop where
  reshaped : Reshaped static fs fs' inode inode
  refs_eq : refs fs'.entries inode = refs fs.entries inode
  mapped_eq : ∀ j < fileBlkLimit, mapped fs'.entries inode j = mapped fs.entries inode j
  data_eq : fs'.data (mapped fs.entries inode idx) = buf
  within : Within fs.entries fs'.entries inode inode
  inside : Within fs'.entries fs.entries inode inode
  others : ∀ j < fileBlkLimit, j ≠ idx → SameData fs fs' inode inode j

theorem TreeOk.writeBlock_spec (hmounted : Mounted static fs) (htree : TreeOk static fs inode)
    (hj : j < fileBlkLimit) (hne : mapped fs.entries inode j ≠ 0) (buf : Buf) :
    Runs (writeBlock (mapped fs.entries inode j) buf) fs fun _ fs' =>
      Rewrote static fs fs' inode j buf := by
  have hmem := mapped_mem_refs hj hne
  have hown := htree.used _ hmem
  refine (hmounted.writeBlock_spec hown (htree.notStatic _ hmem) buf).mono fun _ fs' hwrote => ?_
  have hnodes : ∀ b, IsNode fs.entries inode b → fs'.data b = fs.data b := by
    intro b hb
    rw [hwrote.data, Function.update_of_ne]
    rintro rfl
    exact htree.mapped_not_node hj hne hb
  obtain ⟨htree', hrefs, hmapped⟩ := htree.of_data (fun b hb => (hwrote.used b).mpr (htree.used b hb)) hnodes
  have hwithin := Within.of_same fun b hb => FsInfo.entries_congr (hnodes b hb)
  refine ⟨⟨htree', ?_, rfl⟩, hrefs, hmapped, ?_, hwithin.1, hwithin.2, fun i hi hij => ⟨hmapped i hi, fun hmi => ?_⟩⟩
  · rw [hrefs]
    refine ⟨hwrote.frame.mono fun b hb => hb ▸ hmem, fun b => ?_, fun b hb hnot => absurd hb hnot⟩
    rw [hwrote.used]
    constructor
    · intro hb
      by_cases hin : b ∈ refs fs.entries inode
      · exact Or.inr hin
      · exact Or.inl ⟨hb, hin⟩
    · exact fun hb => hb.elim And.left (htree.used b)
  · rw [hwrote.data, Function.update_self]
  · rw [hwrote.data, Function.update_of_ne]
    exact fun heq => hij (htree.mapped_inj hi hj hmi heq)

/-- The state after the indices `gone` were unmapped and their data blocks released: `cnt` blocks
fewer. -/
structure Unmapped (static : UInt32 → Prop) (fs fs' : FsInfo) (inode inode' : Inode) (gone : Nat → Prop)
    (cnt : Nat) : Prop where
  reshaped : Reshaped static fs fs' inode inode'
  length : (refs fs.entries inode).length = (refs fs'.entries inode').length + cnt
  holes : ∀ j < fileBlkLimit, gone j → mapped fs'.entries inode' j = 0
  within : Within fs'.entries fs.entries inode' inode
  others : ∀ j < fileBlkLimit, ¬ gone j → SameData fs fs' inode inode' j

theorem Unmapped.of_holes {gone : Nat → Prop} (hmounted : Mounted static fs)
    (htree : TreeOk static fs inode)
    (hholes : ∀ j < fileBlkLimit, gone j → mapped fs.entries inode j = 0) :
    Unmapped static fs fs inode inode gone 0 where
  reshaped := Reshaped.refl hmounted htree
  length := rfl
  holes := hholes
  within := (Within.of_same fun _ _ => rfl).1
  others _ _ _ := ⟨rfl, fun _ => rfl⟩

theorem Unmapped.trans {fs'' : FsInfo} {inode'' : Inode} {gone gone' : Nat → Prop} {cnt cnt' : Nat}
    (hfirst : Unmapped static fs fs' inode inode' gone cnt)
    (hsecond : Unmapped static fs' fs'' inode' inode'' gone' cnt') :
    Unmapped static fs fs'' inode inode'' (fun j => gone j ∨ gone' j) (cnt + cnt') where
  reshaped := hfirst.reshaped.trans hsecond.reshaped
  length := by
    have := hfirst.length
    have := hsecond.length
    omega
  holes j hj hgone := by
    by_cases hlater : gone' j
    · exact hsecond.holes j hj hlater
    · rw [(hsecond.others j hj hlater).1]
      exact hfirst.holes j hj (hgone.resolve_right hlater)
  within := hsecond.within.trans hfirst.within
  others j hj hnot :=
    (hfirst.others j hj fun h => hnot (Or.inl h)).trans (hsecond.others j hj fun h => hnot (Or.inr h))

theorem Unmapped.congr {gone gone' : Nat → Prop} {cnt : Nat}
    (hunmapped : Unmapped static fs fs' inode inode' gone cnt) (hiff : ∀ j, gone j ↔ gone' j) :
    Unmapped static fs fs' inode inode' gone' cnt := by
  rw [← funext fun j => propext (hiff j)]
  exact hunmapped

theorem TreeShrank.freeBlock_spec {idx : Nat} {gone : List UInt32}
    (htree : TreeOk static fs inode) (hidx : idx < fileBlkLimit) (hne : mapped fs.entries inode idx ≠ 0)
    (hshrank : TreeShrank static fs fs' inode inode' idx (mapped fs.entries inode idx) gone)
    (hwithin : Within fs'.entries fs.entries inode' inode) :
    Runs (freeBlock (mapped fs.entries inode idx)) fs' fun _ fs'' =>
      Unmapped static fs fs'' inode inode' (· = idx) (gone.length + 1) := by
  have htrade := hshrank.trade htree
  have hmem := mapped_mem_refs hidx hne
  have hown : Owned static fs' [mapped fs.entries inode idx] := by
    intro b hb
    rw [List.mem_singleton.mp hb]
    exact ⟨(htrade.used _).mpr (Or.inr List.mem_cons_self), htree.notStatic _ hmem⟩
  refine (htrade.frame.mounted.freeBlock_trade hown).mono fun _ fs'' hfree => ?_
  have hnodup := hshrank.perm.nodup_iff.mpr htree.nodup
  have hnot : ∀ b ∈ refs fs'.entries inode', b ∉ [mapped fs.entries inode idx] := by
    intro b hb heq
    rw [List.mem_singleton.mp heq] at hb
    exact (List.nodup_append'.mp hnodup).2.2 hb List.mem_cons_self
  obtain ⟨htree', hrefs, hmapped⟩ := hshrank.tree.of_frame hfree.frame hnot
  have hextended := hfree.extend (fun b hb => hshrank.tree.used b hb) hnot
  have hnodes : ∀ b, IsNode fs'.entries inode' b → fs''.entries b = fs'.entries b := fun b hb =>
    FsInfo.entries_congr (hfree.frame.data b (hshrank.tree.used b (isNode_mem_refs hb)) (hnot b (isNode_mem_refs hb)))
  refine ⟨⟨htree', ?_, hshrank.fields⟩, ?_, ?_, (Within.of_same hnodes).2.trans hwithin, ?_⟩
  · rw [hrefs]
    exact htrade.trans hextended
  · have hlength := hshrank.perm.length_eq
    rw [List.length_append, List.length_cons] at hlength
    rw [hrefs, ← hlength]
  · rintro j hj rfl
    rw [hmapped j hj, hshrank.mapped_eq j hj, if_pos rfl]
  · intro j hj hji
    have hkept : mapped fs'.entries inode' j = mapped fs.entries inode j := by
      rw [hshrank.mapped_eq j hj, if_neg hji]
    refine ⟨(hmapped j hj).trans hkept, fun hmj => ?_⟩
    have hmem' : mapped fs.entries inode j ∈ refs fs'.entries inode' := by
      rw [← hkept] at hmj ⊢
      exact mapped_mem_refs hj hmj
    rw [hfree.frame.data _ (hshrank.tree.used _ hmem') (hnot _ hmem')]
    exact hshrank.frame.data _ (htree.used _ (mapped_mem_refs hj hmj)) (htree.mapped_not_node hj hmj)

theorem TreeOk.length_refs_le (hmounted : Mounted static fs) (htree : TreeOk static fs inode) :
    (refs fs.entries inode).length ≤ 4194304 := by
  have hnodup : ((refs fs.entries inode).map UInt32.toNat).Nodup :=
    htree.nodup.map fun _ _ heq => UInt32.toNat_inj.mp heq
  have hsubset : (refs fs.entries inode).map UInt32.toNat ⊆ List.range 4194304 := by
    intro k hk
    obtain ⟨b, hb, rfl⟩ := List.mem_map.mp hk
    have hused := htree.used b hb
    rw [FsInfo.Used, FsInfo.marked, Bool.and_eq_true] at hused
    have hreal : b < fs.geo.blockCnt := of_decide_eq_true hused.1
    rw [UInt32.lt_iff_toNat_lt] at hreal
    exact List.mem_range.mpr (hreal.trans_le hmounted.sound.geo.blockCnt_lt)
  have hle := (hnodup.subperm hsubset).length_le
  rwa [List.length_map, List.length_range] at hle

/-- The state after an unmapped index was mapped to a new block holding `content`. -/
structure Placed (static : UInt32 → Prop) (fs fs' : FsInfo) (inode inode' : Inode) (idx : Nat)
    (content : Buf) (cnt : Nat) : Prop where
  reshaped : Reshaped static fs fs' inode inode'
  length : (refs fs'.entries inode').length = (refs fs.entries inode).length + cnt
  mapped_ne : mapped fs'.entries inode' idx ≠ 0
  content_eq : fs'.data (mapped fs'.entries inode' idx) = content
  within : Within fs.entries fs'.entries inode inode'
  others : ∀ j < fileBlkLimit, j ≠ idx → SameData fs fs' inode inode' j

theorem TreeGrew.writeBlock_spec {idx : Nat} {diskBlk : UInt32} {adds : List UInt32}
    (htree : TreeOk static fs inode) (hidx : idx < fileBlkLimit) (hne : diskBlk ≠ 0)
    (hgrew : TreeGrew static fs fs' inode inode' idx diskBlk adds)
    (hwithin : Within fs.entries fs'.entries inode inode') (content : Buf) :
    Runs (writeBlock diskBlk content) fs' fun _ fs'' =>
      Placed static fs fs'' inode inode' idx content adds.length := by
  have hmapped : mapped fs'.entries inode' idx = diskBlk := by
    rw [hgrew.mapped_eq idx hidx, if_pos rfl]
  have hwrite := hgrew.tree.writeBlock_spec hgrew.frame.mounted hidx (by rwa [hmapped]) content
  rw [hmapped] at hwrite
  refine hwrite.mono fun _ fs'' hwrote => ?_
  refine ⟨(Reshaped.of_grew htree hgrew).trans hwrote.reshaped, ?_, ?_, ?_, hwithin.trans hwrote.within,
    fun j hj hji => (hgrew.sameData htree hj hji).trans (hwrote.others j hj hji)⟩
  · rw [hwrote.refs_eq, hgrew.perm.length_eq, List.length_append, Nat.add_comm]
  · rw [hwrote.mapped_eq idx hidx, hmapped]
    exact hne
  · rw [hwrote.mapped_eq idx hidx]
    exact hwrote.data_eq

theorem Placed.byte_eq {idx k cnt : Nat} {content : Buf}
    (hplaced : Placed static fs fs' inode inode' idx content cnt) (hk : k / blockSize = idx) :
    fs'.byte inode' k = content (k % blockSize) := by
  rw [FsInfo.byte, hk, if_neg hplaced.mapped_ne, hplaced.content_eq]

end Tree

end DeprecatOS
