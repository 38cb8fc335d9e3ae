import DeprecatOS.BlockController
import DeprecatOS.Proof.FileTree

/-!
# Trading blocks

A call that works on some blocks of its own exchanges the blocks `old` for the blocks `new`: what it
gives back was its own, what it takes was free, and whatever else is in use keeps its contents.
Exchanges compose, and blocks that are not part of one can be added to both of its sides.
-/

namespace DeprecatOS

open Bytes Bits Fault PointerTree

structure Trade (static : UInt32 → Prop) (old new : List UInt32) (fs fs' : FsInfo) : Prop where
  frame : Frame static (· ∈ old) fs fs'
  used : ∀ b, fs'.Used b ↔ (fs.Used b ∧ b ∉ old) ∨ b ∈ new
  fresh : ∀ b ∈ new, b ∉ old → ¬ fs.Used b

def Owned (static : UInt32 → Prop) (fs : FsInfo) (own : List UInt32) : Prop :=
  ∀ b ∈ own, fs.Used b ∧ ¬ static b

section

variable {static : UInt32 → Prop} {fs fs' fs'' : FsInfo} {old mid new rest : List UInt32} {b : UInt32}

namespace Trade

theorem refl (hmounted : Mounted static fs) (hown : ∀ b ∈ old, fs.Used b) : Trade static old old fs fs where
  frame := Frame.refl hmounted
  used b := by
    constructor
    · intro hb
      by_cases hmem : b ∈ old
      · exact Or.inr hmem
      · exact Or.inl ⟨hb, hmem⟩
    · rintro (⟨hb, -⟩ | hmem)
      · exact hb
      · exact hown b hmem
  fresh b hnew hold := absurd hnew hold

theorem notMem_new (htrade : Trade static old new fs fs') (hb : fs.Used b) (hold : b ∉ old) : b ∉ new :=
  fun hnew => htrade.fresh b hnew hold hb

theorem trans (hfirst : Trade static old mid fs fs') (hsecond : Trade static mid new fs' fs'') :
    Trade static old new fs fs'' where
  frame := by
    refine ⟨hsecond.frame.mounted, hsecond.frame.geo.trans hfirst.frame.geo,
      hsecond.frame.inodes.trans hfirst.frame.inodes, hsecond.frame.dirCnt.trans hfirst.frame.dirCnt,
      hfirst.frame.book.trans hfirst.frame.geo hsecond.frame.book, fun b hb hold => ?_, fun b hb hold => ?_⟩
    · exact hsecond.frame.used b (hfirst.frame.used b hb hold) (hfirst.notMem_new hb hold)
    · rw [hsecond.frame.data b (hfirst.frame.used b hb hold) (hfirst.notMem_new hb hold),
        hfirst.frame.data b hb hold]
  used b := by
    rw [hsecond.used, hfirst.used]
    constructor
    · rintro (⟨hb | hmid, hnot⟩ | hnew)
      · exact Or.inl hb
      · exact absurd hmid hnot
      · exact Or.inr hnew
    · rintro (⟨hb, hold⟩ | hnew)
      · exact Or.inl ⟨Or.inl ⟨hb, hold⟩, hfirst.notMem_new hb hold⟩
      · exact Or.inr hnew
  fresh b hnew hold hb :=
    hsecond.fresh b hnew (hfirst.notMem_new hb hold) (hfirst.frame.used b hb hold)

theorem extend (htrade : Trade static old new fs fs') (hrest : ∀ b ∈ rest, fs.Used b)
    (hdisjoint : ∀ b ∈ rest, b ∉ old) : Trade static (old ++ rest) (new ++ rest) fs fs' where
  frame := htrade.frame.mono fun b hb => List.mem_append_left _ hb
  used b := by
    rw [htrade.used, List.mem_append, List.mem_append]
    constructor
    · rintro (⟨hb, hold⟩ | hnew)
      · by_cases hmem : b ∈ rest
        · exact Or.inr (Or.inr hmem)
        · exact Or.inl ⟨hb, not_or.mpr ⟨hold, hmem⟩⟩
      · exact Or.inr (Or.inl hnew)
    · rintro (⟨hb, hnot⟩ | hnew | hmem)
      · exact Or.inl ⟨hb, fun hold => hnot (Or.inl hold)⟩
      · exact Or.inr hnew
      · exact Or.inl ⟨hrest b hmem, hdisjoint b hmem⟩
  fresh b hmem hnot := by
    rw [List.mem_append, not_or] at hnot
    obtain hnew | hin := List.mem_append.mp hmem
    · exact htrade.fresh b hnew hnot.1
    · exact absurd hin hnot.2

theorem congr {old' new' : List UInt32} (htrade : Trade static old new fs fs')
    (hold : ∀ b, b ∈ old' ↔ b ∈ old) (hnew : ∀ b, b ∈ new' ↔ b ∈ new) :
    Trade static old' new' fs fs' where
  frame := htrade.frame.mono fun b hb => (hold b).mpr hb
  used b := by rw [htrade.used, hold, hnew]
  fresh b hb hnot := htrade.fresh b ((hnew b).mp hb) fun h => hnot ((hold b).mpr h)

theorem of_took (htook : Took static fs fs' b) : Trade static [] [b] fs fs' where
  frame := htook.frame.mono fun _ => False.elim
  used q := by simp [htook.used]
  fresh q hq _ := by
    rw [List.mem_singleton.mp hq]
    exact htook.fresh

theorem of_dropped (hdropped : Dropped static fs fs' b) : Trade static [b] [] fs fs' where
  frame := hdropped.frame.mono fun q hq => List.mem_singleton.mpr hq
  used q := by simp [hdropped.used]
  fresh q hq _ := absurd hq List.not_mem_nil

theorem of_wrote {buf : Buf} (hb : fs.Used b) (hwrote : Wrote static fs fs' b buf) :
    Trade static [b] [b] fs fs' where
  frame := hwrote.frame.mono fun q hq => List.mem_singleton.mpr hq
  used q := by
    rw [hwrote.used, List.mem_singleton]
    constructor
    · intro hq
      by_cases heq : q = b
      · exact Or.inr heq
      · exact Or.inl ⟨hq, heq⟩
    · rintro (⟨hq, -⟩ | rfl)
      · exact hq
      · exact hb
  fresh q hq hnot := absurd hq hnot

theorem owned (htrade : Trade static old new fs fs') (hmounted : Mounted static fs)
    (hold : ∀ b ∈ old, ¬ static b) : Owned static fs' new := by
  intro b hb
  refine ⟨(htrade.used b).mpr (Or.inr hb), fun hstatic => ?_⟩
  by_cases hmem : b ∈ old
  · exact hold b hmem hstatic
  · exact htrade.fresh b hb hmem (hmounted.used b hstatic)

end Trade

end

/-! ### Releasing whole trees -/

section Free

variable {static : UInt32 → Prop} {fs fs' : FsInfo}

theorem Mounted.allocBlock_trade (hmounted : Mounted static fs) :
    Runs allocBlock fs fun b fs' =>
      (b = 0 ∧ fs' = fs) ∨ (b ≠ 0 ∧ Trade static [] [b] fs fs') :=
  hmounted.allocBlock_spec.mono fun _ _ hcall =>
    hcall.imp_right fun htook => ⟨htook.ne_zero, Trade.of_took htook⟩

theorem Mounted.freeBlock_trade (hmounted : Mounted static fs) {b : UInt32}
    (hown : Owned static fs [b]) : Runs (freeBlock b) fs fun _ fs' => Trade static [b] [] fs fs' :=
  have hb := hown b List.mem_cons_self
  (hmounted.freeBlock_spec hb.1 hb.2).mono fun _ _ hdropped => Trade.of_dropped hdropped

theorem Trade.entries_eq {old new : List UInt32} (htrade : Trade static old new fs fs') {n : Nat}
    {p : UInt32} (hused : ∀ b ∈ blocks ptrsPerBlk fs.entries n p, fs.Used b)
    (hdisjoint : ∀ b ∈ blocks ptrsPerBlk fs.entries n p, b ∉ old) :
    ∀ q ∈ nodes ptrsPerBlk fs.entries n p, fs'.entries q = fs.entries q := fun q hq =>
  have hmem := blocks_of_mem_nodes hq
  FsInfo.entries_congr (htrade.frame.data q (hused q hmem) (hdisjoint q hmem))

def freeTrees (trees : List (Nat × UInt32)) : FsM Unit :=
  trees.forM fun tree => indirFreeBlock tree.1 tree.2

def treeBlocks (fs : FsInfo) (trees : List (Nat × UInt32)) : List UInt32 :=
  trees.flatMap fun tree => blocks ptrsPerBlk fs.entries tree.1 tree.2

theorem Trade.treeBlocks_eq {old new : List UInt32} (htrade : Trade static old new fs fs')
    {trees : List (Nat × UInt32)} (hused : ∀ b ∈ treeBlocks fs trees, fs.Used b)
    (hdisjoint : ∀ b ∈ treeBlocks fs trees, b ∉ old) : treeBlocks fs' trees = treeBlocks fs trees := by
  apply List.flatMap_congr
  intro tree htree
  have hmem : ∀ b ∈ blocks ptrsPerBlk fs.entries tree.1 tree.2, b ∈ treeBlocks fs trees :=
    fun b hb => List.mem_flatMap.mpr ⟨tree, htree, hb⟩
  exact blocks_congr (htrade.entries_eq (fun b hb => hused b (hmem b hb))
    fun b hb => hdisjoint b (hmem b hb))

theorem freeTrees_of_each {trees : List (Nat × UInt32)}
    (hone : ∀ tree ∈ trees, ∀ fs, Mounted static fs →
      (blocks ptrsPerBlk fs.entries tree.1 tree.2).Nodup →
      Owned static fs (blocks ptrsPerBlk fs.entries tree.1 tree.2) →
      Runs (indirFreeBlock tree.1 tree.2) fs fun _ fs' =>
        Trade static (blocks ptrsPerBlk fs.entries tree.1 tree.2) [] fs fs')
    (hmounted : Mounted static fs) (hnodup : (treeBlocks fs trees).Nodup)
    (hown : Owned static fs (treeBlocks fs trees)) :
    Runs (freeTrees trees) fs fun _ fs' => Trade static (treeBlocks fs trees) [] fs fs' := by
  induction trees generalizing fs with
  | nil => exact Runs.pure (Trade.refl hmounted fun b hb => (hown b hb).1)
  | cons tree trees ih =>
    rw [treeBlocks, List.flatMap_cons] at hnodup hown
    obtain ⟨hfirst, hlater, hdisjoint⟩ := List.nodup_append'.mp hnodup
    have hownLater : Owned static fs (treeBlocks fs trees) :=
      fun b hb => hown b (List.mem_append_right _ hb)
    refine (hone tree List.mem_cons_self fs hmounted hfirst
      fun b hb => hown b (List.mem_append_left _ hb)).bind fun _ mid htrade => ?_
    have hsame := htrade.treeBlocks_eq (fun b hb => (hownLater b hb).1)
      fun b hb hold => hdisjoint hold hb
    have hextended := htrade.extend (fun b hb => (hownLater b hb).1) fun b hb hold =>
      hdisjoint hold hb
    refine (ih (fun t ht => hone t (List.mem_cons_of_mem _ ht)) htrade.frame.mounted ?_ ?_).mono
      fun _ fs' hrest => ?_
    · rw [hsame]
      exact hlater
    · rw [hsame]
      exact fun b hb => ⟨(hextended.used b).mpr (Or.inr hb), (hownLater b hb).2⟩
    · rw [hsame] at hrest
      rw [treeBlocks, List.flatMap_cons]
      exact hextended.trans hrest

def entryTrees (layer : Nat) (entries : Buf) : List (Nat × UInt32) :=
  (List.range ptrsPerBlk).map fun k => (layer, ptr entries k)

theorem freeEntries_eq (layer : Nat) (entries : Buf) :
    freeEntries layer entries = freeTrees (entryTrees layer entries) := by
  rw [freeEntries, freeTrees, entryTrees, List.forM_eq_forM, List.forM_eq_forM, List.forM_map]

theorem treeBlocks_entryTrees (fs : FsInfo) (layer : Nat) (entries : Buf) :
    treeBlocks fs (entryTrees layer entries)
      = forest ptrsPerBlk fs.entries (fun _ => layer) (ptr entries) ptrsPerBlk := by
  rw [treeBlocks, entryTrees, List.flatMap_map, forest]

theorem indirFreeBlock_spec {layer : Nat} {p : UInt32} (hmounted : Mounted static fs)
    (hnodup : (blocks ptrsPerBlk fs.entries layer p).Nodup)
    (hown : Owned static fs (blocks ptrsPerBlk fs.entries layer p)) :
    Runs (indirFreeBlock layer p) fs fun _ fs' =>
      Trade static (blocks ptrsPerBlk fs.entries layer p) [] fs fs' := by
  induction layer generalizing fs p with
  | zero =>
    rw [indirFreeBlock]
    by_cases hp : p = 0
    · rw [if_pos hp, hp, blocks_zero_ptr]
      exact Runs.pure (Trade.refl hmounted (by simp))
    · rw [if_neg hp]
      rw [blocks, if_neg hp] at hown ⊢
      exact (hmounted.freeBlock_trade hown).bind fun _ fs' htrade => Runs.pure htrade
  | succ layer ih =>
    rw [indirFreeBlock]
    by_cases hp : p = 0
    · rw [if_pos hp, hp, blocks_zero_ptr]
      exact Runs.pure (Trade.refl hmounted (by simp))
    rw [if_neg hp]
    obtain ⟨hself, hforest⟩ := nodup_children hp hnodup
    rw [blocks_succ hp] at hown ⊢
    have hownSelf := hown p List.mem_cons_self
    have hownForest : Owned static fs (forest ptrsPerBlk fs.entries (fun _ => layer) (fs.entries p) ptrsPerBlk) :=
      fun b hb => hown b (List.mem_cons_of_mem _ hb)
    refine Runs.bind_eq (hmounted.readBlock_data hownSelf.1 hownSelf.2) ?_
    have hblocks : treeBlocks fs (entryTrees layer (fs.data p))
        = forest ptrsPerBlk fs.entries (fun _ => layer) (fs.entries p) ptrsPerBlk :=
      treeBlocks_entryTrees fs layer (fs.data p)
    have hentries := freeEntries_eq layer (fs.data p)
    rw [freeEntries] at hentries
    rw [hentries]
    rw [← hblocks] at hforest hownForest hself
    refine (freeTrees_of_each (fun tree htree fs hmounted hnodup hown => ?_) hmounted hforest
      hownForest).bind fun _ mid htrade => ?_
    · obtain ⟨k, -, rfl⟩ := List.mem_map.mp htree
      exact ih hmounted hnodup hown
    have hextended : Trade static (_ ++ [p]) ([] ++ [p]) fs mid :=
      htrade.extend (by simp [hownSelf.1]) fun b hb => by
        rw [List.mem_singleton.mp hb]
        exact hself
    refine (htrade.frame.mounted.freeBlock_trade ?_).bind fun _ fs' hlast => Runs.pure ?_
    · exact fun b hb => ⟨(hextended.used b).mpr (Or.inr hb), by
        rw [List.mem_singleton.mp hb]
        exact hownSelf.2⟩
    · refine (hextended.trans hlast).congr (fun b => ?_) fun _ => Iff.rfl
      rw [hblocks, List.mem_append, List.mem_cons, List.mem_singleton, or_comm]

theorem freeTrees_spec {trees : List (Nat × UInt32)} (hmounted : Mounted static fs)
    (hnodup : (treeBlocks fs trees).Nodup) (hown : Owned static fs (treeBlocks fs trees)) :
    Runs (freeTrees trees) fs fun _ fs' => Trade static (treeBlocks fs trees) [] fs fs' :=
  freeTrees_of_each (fun _ _ _ hmounted hnodup hown => indirFreeBlock_spec hmounted hnodup hown) hmounted
    hnodup hown

theorem freeTrees_of_perm {trees : List (Nat × UInt32)} {own : List UInt32} (hmounted : Mounted static fs)
    (hperm : (treeBlocks fs trees).Perm own) (hnodup : own.Nodup) (hown : Owned static fs own) :
    Runs (freeTrees trees) fs fun _ fs' => Trade static own [] fs fs' :=
  (freeTrees_spec hmounted (hperm.nodup_iff.mpr hnodup)
    fun b hb => hown b (hperm.mem_iff.mp hb)).mono
    fun _ _ hfree => hfree.congr (fun _ => hperm.symm.mem_iff) fun _ => Iff.rfl

def Inode.trees (inode : Inode) (n : Nat) : List (Nat × UInt32) :=
  (List.range n).map fun r => (rootHeight r, inode.root r)

theorem freeDirect_eq (inode : Inode) : freeDirect inode = freeTrees (inode.trees 12) := rfl

theorem freeTrees_append (left right : List (Nat × UInt32)) :
    freeTrees (left ++ right) = (freeTrees left >>= fun _ => freeTrees right) := by
  simp only [freeTrees, List.forM_eq_forM, List.forM_append]

theorem freeTrees_singleton (layer : Nat) (p : UInt32) :
    freeTrees [(layer, p)] = indirFreeBlock layer p := by
  simp only [freeTrees, List.forM_eq_forM, List.forM_cons, List.forM_nil]
  exact bind_pure (indirFreeBlock layer p)

theorem freeTrees_bind {α : Type} (left right : List (Nat × UInt32)) (rest : FsM α) :
    (freeTrees left >>= fun _ => freeTrees right >>= fun _ => rest)
      = (freeTrees (left ++ right) >>= fun _ => rest) := by
  rw [freeTrees_append, bind_assoc]

theorem freeBlock_bind {α : Type} {p : UInt32} (hp : p ≠ 0) (rest : FsM α) :
    (freeBlock p >>= fun _ => rest) = (freeTrees [(0, p)] >>= fun _ => rest) := by
  rw [freeTrees_singleton, indirFreeBlock, if_neg hp, bind_assoc]
  rfl

theorem treeBlocks_append (fs : FsInfo) (left right : List (Nat × UInt32)) :
    treeBlocks fs (left ++ right) = treeBlocks fs left ++ treeBlocks fs right := by
  rw [treeBlocks, List.flatMap_append]
  rfl

theorem treeBlocks_singleton (fs : FsInfo) {p : UInt32} (hp : p ≠ 0) :
    treeBlocks fs [(0, p)] = [p] := by
  rw [treeBlocks, List.flatMap_singleton, blocks, if_neg hp]

theorem freeAll_eq (inode : Inode) : freeAll inode = freeTrees (inode.trees 15) := by
  have hsplit : inode.trees 15 = inode.trees 12 ++ ([(1, inode.singlyIndirBlockPtr)] ++
      ([(2, inode.doublyIndirBlockPtr)] ++ [(3, inode.triplyIndirBlockPtr)])) := rfl
  rw [freeAll, freeDirect_eq, hsplit, freeTrees_append, freeTrees_append, freeTrees_append,
    freeTrees_singleton, freeTrees_singleton, freeTrees_singleton]

theorem treeBlocks_trees (fs : FsInfo) (inode : Inode) :
    treeBlocks fs (inode.trees 15) = refs fs.entries inode := by
  rw [treeBlocks, Inode.trees, List.flatMap_map]
  rfl

theorem freeAll_spec {inode : Inode} (hmounted : Mounted static fs) (htree : TreeOk static fs inode) :
    Runs (freeAll inode) fs fun _ fs' => Trade static (refs fs.entries inode) [] fs fs' := by
  rw [freeAll_eq]
  exact freeTrees_of_perm hmounted (List.Perm.of_eq (treeBlocks_trees fs inode)) htree.nodup
    fun b hb => ⟨htree.used b hb, htree.notStatic b hb⟩

end Free

end DeprecatOS
