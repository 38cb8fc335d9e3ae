import DeprecatOS.Consistent
import DeprecatOS.Proof.WriteBlocks

/-!
# Writing a file body

`write_inode` takes blocks one at a time, fills them and hangs them into a tree. While it runs, the
blocks it has taken are those of the inode, those below the doubly indirect block it still holds in
memory, and two pointer blocks that may turn out not to be needed; on failure it gives back exactly
these.
-/

namespace DeprecatOS

open Bytes Bits Fault PointerTree

/-! ### The doubly indirect block -/

theorem locate_singly {j : Nat} (hslot : (locate j).1 = 12) :
    12 ≤ j ∧ j < 1036 ∧ (locate j).2 = j - 12 := by
  unfold locate at hslot ⊢
  split_ifs at hslot ⊢ with h1 h2 h3
  · exact absurd hslot (by change j ≠ 12; omega)
  · exact ⟨by omega, h2, rfl⟩
  · cases hslot
  · cases hslot

def below (fs : FsInfo) (blk : Buf) : List UInt32 :=
  forest ptrsPerBlk fs.entries (fun _ => 1) (ptr blk) ptrsPerBlk

/-- The blocks the loop over a doubly indirect block has hung into the two trees it builds. -/
def Doubly.held (d : Doubly) (fs : FsInfo) : List UInt32 :=
  refs fs.entries d.progress.inode ++ below fs d.currDoublyIndirBlk

/-- The state of the loop over the first doubly indirect block before entry `idx`, for a file of `size`
bytes. The blocks `temps` are pointer blocks that are not hung in yet. -/
structure DoublyOk (static : UInt32 → Prop) (fs : FsInfo) (buf : Buf) (size : UInt32) (idx : Nat) (d : Doubly)
    (temps : List UInt32) : Prop where
  tree : TreeOk static fs d.progress.inode
  nodup : (d.held fs ++ temps).Nodup
  own : Owned static fs (d.held fs ++ temps)
  full : ∀ k < ptrsPerBlk, Full ptrsPerBlk fs.entries 1 (ptr d.currDoublyIndirBlk k)
  singly : idx = 0 → d.progress.inode.root 12 = 0
  upper : ∀ r, 13 ≤ r → d.progress.inode.root r = 0
  slots : ∀ k < ptrsPerBlk, idx - 1 ≤ k → ptr d.currDoublyIndirBlk k = 0
  hasDouble : d.hasDouble = true ↔ ∃ k < ptrsPerBlk, ptr d.currDoublyIndirBlk k ≠ 0
  flushed : d.flushed = true → d.progress.blocksLeft = 0
  sizeLo : d.progress.inode.sizeLo = size
  next : d.progress.At (12 + 1024 * idx)
  holes : ∀ j < fileBlkLimit, sizeBlocks size ≤ j + d.progress.blocksLeft.toNat →
    mapped fs.entries d.progress.inode j = 0
  holesBelow : ∀ k < ptrsPerBlk, ∀ o < ptrsPerBlk,
    sizeBlocks size ≤ 1036 + 1024 * k + o + d.progress.blocksLeft.toNat →
      find ptrsPerBlk fs.entries 1 (ptr d.currDoublyIndirBlk k) o = 0
  content : ∀ j < 1036, j + d.progress.blocksLeft.toNat < sizeBlocks size →
    HoldsChunk fs buf size j (mapped fs.entries d.progress.inode j)
  contentBelow : ∀ k < ptrsPerBlk, ∀ o < ptrsPerBlk,
    1036 + 1024 * k + o + d.progress.blocksLeft.toNat < sizeBlocks size →
      HoldsChunk fs buf size (1036 + 1024 * k + o) (find ptrsPerBlk fs.entries 1 (ptr d.currDoublyIndirBlk k) o)

namespace DoublyOk

variable {static : UInt32 → Prop} {fs fs' : FsInfo} {buf : Buf} {size : UInt32} {idx : Nat} {d d' : Doubly}
  {temps new : List UInt32}

theorem count (hok : DoublyOk static fs buf size idx d temps) (hleft : d.progress.blocksLeft ≠ 0) :
    d.progress.blocksLeft.toNat + (12 + 1024 * idx) = sizeBlocks size := by
  rw [← hok.sizeLo]
  exact (hok.next hleft).2

theorem below_used (hok : DoublyOk static fs buf size idx d temps) {k : Nat} (hk : k < ptrsPerBlk) :
    ∀ b ∈ blocks ptrsPerBlk fs.entries 1 (ptr d.currDoublyIndirBlk k), fs.Used b := fun b hb =>
  (hok.own b (List.mem_append_left _ (List.mem_append_right _ (mem_forest.mpr ⟨k, hk, hb⟩)))).1

theorem temp_ne_zero (hok : DoublyOk static fs buf size idx d temps) (hmounted : Mounted static fs)
    {b : UInt32} (hb : b ∈ temps) : b ≠ 0 := by
  rintro rfl
  exact (hok.own 0 (List.mem_append_right _ hb)).2 hmounted.zero_static

theorem held_gain (hok : DoublyOk static fs buf size idx d temps) (hmounted : Mounted static fs)
    (hgain : Gain static new fs fs') (hperm : (d'.held fs').Perm (new ++ d.held fs)) :
    (d'.held fs' ++ temps).Nodup ∧ Owned static fs' (d'.held fs' ++ temps) := by
  have hall : (d'.held fs' ++ temps).Perm (new ++ (d.held fs ++ temps)) := by
    rw [← List.append_assoc]
    exact hperm.append_right temps
  obtain ⟨hnodup, hown⟩ := hgain.own_append hmounted hok.nodup hok.own
  exact ⟨hall.nodup_iff.mpr hnodup, fun b hb => hown b (hall.mem_iff.mp hb)⟩

theorem below_gain (hok : DoublyOk static fs buf size idx d temps) (hgain : Gain static new fs fs') :
    below fs' d.currDoublyIndirBlk = below fs d.currDoublyIndirBlk := by
  rw [below, below, forest, forest]
  apply List.flatMap_congr
  intro k hk
  exact blocks_congr (hgain.entries_eq (hok.below_used (List.mem_range.mp hk)))

variable {w' : Progress} {p : UInt32} {data : List UInt32} {flushed : Bool}

theorem at_next (hfilled : Filled static fs fs' buf (12 + 1024 * idx) d.progress w' p data) :
    w'.At (12 + 1024 * (idx + 1)) := by
  intro hmore
  have hfull : data.length = 1024 := hfilled.stop.resolve_left hmore
  have hnext := hfilled.next hmore
  rwa [hfull, Nat.add_assoc, ← Nat.mul_succ] at hnext

theorem sizeLo_next (hok : DoublyOk static fs buf size idx d temps)
    (hfilled : Filled static fs fs' buf (12 + 1024 * idx) d.progress w' p data) : w'.inode.sizeLo = size := by
  rw [← hok.sizeLo]
  change w'.inode.bare.sizeLo = d.progress.inode.bare.sizeLo
  rw [hfilled.advanced.bare]

theorem content_gain (hok : DoublyOk static fs buf size idx d temps) (hgain : Gain static new fs fs') {j : Nat}
    (hj : j < 1036) (hwritten : j + d.progress.blocksLeft.toNat < sizeBlocks size) :
    HoldsChunk fs' buf size j (mapped fs.entries d.progress.inode j) := by
  have hlimit : j < fileBlkLimit := lt_fileBlkLimit (Nat.lt_of_le_of_lt (Nat.le_add_right _ _) hwritten)
  have hholds := hok.content j hj hwritten
  exact hholds.gain hgain (hok.tree.used _ (mapped_mem_refs hlimit hholds.ne_zero))

theorem contentBelow_gain (hok : DoublyOk static fs buf size idx d temps) (hgain : Gain static new fs fs') {k o : Nat}
    (hk : k < ptrsPerBlk) (ho : o < ptrsPerBlk)
    (hwritten : 1036 + 1024 * k + o + d.progress.blocksLeft.toNat < sizeBlocks size) :
    HoldsChunk fs' buf size (1036 + 1024 * k + o)
      (find ptrsPerBlk fs'.entries 1 (ptr d.currDoublyIndirBlk k) o) := by
  have hholds := hok.contentBelow k hk o ho hwritten
  rw [find_congr (hgain.entries_eq (hok.below_used hk)) (by rwa [pow_one])]
  exact hholds.gain hgain (hok.below_used hk _ (find_mem_blocks (by rwa [pow_one]) hholds.ne_zero))

theorem set_singly (hok : DoublyOk static fs buf size 0 d temps) (hmounted : Mounted static fs)
    (hleft : d.progress.blocksLeft ≠ 0) (hfilled : Filled static fs fs' buf (12 + 1024 * 0) d.progress w' p data)
    (hflushed : flushed = true → w'.blocksLeft = 0)
    (hd' : d' = { d with flushed, progress := w'.setSingly p }) :
    DoublyOk static fs' buf size 1 d' temps ∧ (d'.held fs').Perm ((data ++ [p]) ++ d.held fs) := by
  have hgraft : Grafted static fs fs' w'.inode (w'.setSingly p).inode 12 p (data ++ [p]) :=
    Grafted.of_gain hmounted (hok.tree.of_root hfilled.root) hfilled.gain (by omega)
      (by rw [hfilled.root]; exact hok.singly rfl) (Inode.root_setRoot w'.inode (show 12 < 15 by omega) p)
      hfilled.blocks_perm hfilled.full
  have hperm := hgraft.perm
  rw [refs_of_root hfilled.root] at hperm
  have hheld : (d'.held fs').Perm ((data ++ [p]) ++ d.held fs) := by
    rw [hd', Doubly.held, Doubly.held, hok.below_gain hfilled.gain, ← List.append_assoc]
    exact hperm.append_right _
  obtain ⟨hnodup, hown⟩ := hok.held_gain hmounted hfilled.gain hheld
  have hcount := hok.count hleft
  have hadvanced := hfilled.advanced.left
  subst hd'
  have hle : data.length ≤ 1024 := hfilled.le
  have hnext : w'.At (12 + 1024 * (0 + 1)) := at_next hfilled
  have hsizeLo : w'.inode.sizeLo = size := hok.sizeLo_next hfilled
  refine ⟨⟨hgraft.tree, hnodup, hown, ?_, by simp, ?_, ?_, hok.hasDouble, hflushed, hsizeLo, hnext, ?_, ?_, ?_, ?_⟩,
    hheld⟩
  · intro k hk
    exact full_congr (hfilled.gain.entries_eq (hok.below_used hk)) (hok.full k hk)
  · intro r hr
    rw [hgraft.root, Function.update_of_ne (by omega), hfilled.root]
    exact hok.upper r hr
  · exact fun k hk _ => hok.slots k hk (by omega)
  · intro j hj hpast
    change _ ≤ j + w'.blocksLeft.toNat at hpast
    rw [hgraft.mapped_eq j hj]
    split_ifs with hslot
    · obtain ⟨hlow, hhigh, hrest⟩ := locate_singly hslot
      refine hfilled.find_eq _ ?_ ?_
      · rw [hrest, ptrsPerBlk]
        omega
      · omega
    · rw [mapped_of_root hfilled.root]
      exact hok.holes j hj (by omega)
  · intro k hk o ho hpast
    change _ ≤ _ + w'.blocksLeft.toNat at hpast
    rw [find_congr (hfilled.gain.entries_eq (hok.below_used hk)) (by rwa [pow_one])]
    exact hok.holesBelow k hk o ho (by omega)
  · intro j hj hwritten
    change j + w'.blocksLeft.toNat < _ at hwritten
    have hlimit : j < fileBlkLimit := by
      rw [fileBlkLimit]
      omega
    rw [hgraft.mapped_eq j hlimit]
    split_ifs with hslot
    · obtain ⟨hlow, hhigh, hrest⟩ := locate_singly hslot
      have hholds := hfilled.content (j - 12) (by omega)
      rw [hok.sizeLo, show 12 + 1024 * 0 + (j - 12) = j by omega] at hholds
      rw [hrest]
      exact hholds
    · have hdirect : j < 12 := by
        by_contra hnot
        refine hslot ?_
        rw [locate, if_neg hnot, if_pos hj]
      rw [mapped_of_root hfilled.root]
      exact hok.content_gain hfilled.gain hj (by omega)
  · intro k hk o ho hwritten
    change _ + w'.blocksLeft.toNat < _ at hwritten
    omega

theorem set_slot (hok : DoublyOk static fs buf size idx d temps) (hmounted : Mounted static fs)
    (hidx : idx ≠ 0) (hlt : idx < ptrsPerBlk) (hleft : d.progress.blocksLeft ≠ 0)
    (hfilled : Filled static fs fs' buf (12 + 1024 * idx) d.progress w' p data)
    (hflushed : flushed = true → w'.blocksLeft = 0)
    (hd' : d' = ⟨setPtr d.currDoublyIndirBlk (idx - 1) p, true, flushed, w'⟩) :
    DoublyOk static fs' buf size (idx + 1) d' temps ∧ (d'.held fs').Perm ((data ++ [p]) ++ d.held fs) := by
  have hslot : idx - 1 < ptrsPerBlk := by omega
  have hsame : ∀ k < ptrsPerBlk,
      ∀ q ∈ nodes ptrsPerBlk fs.entries 1 (ptr d.currDoublyIndirBlk k), fs'.entries q = fs.entries q :=
    fun k hk => hfilled.gain.entries_eq (hok.below_used hk)
  obtain ⟨htree, hrefs, hmapped⟩ := (hok.tree.of_root hfilled.root).of_gain hfilled.gain
  have hbelow : (below fs' (setPtr d.currDoublyIndirBlk (idx - 1) p)).Perm
      ((data ++ [p]) ++ below fs d.currDoublyIndirBlk) := by
    rw [below, ptr_setPtr]
    exact perm_forest_graft hslot (hok.slots _ hslot le_rfl) hsame hfilled.blocks_perm
  have hheld : (d'.held fs').Perm ((data ++ [p]) ++ d.held fs) := by
    rw [hd', Doubly.held, Doubly.held]
    change (refs fs'.entries w'.inode ++ _).Perm _
    rw [hrefs, refs_of_root hfilled.root]
    exact (hbelow.append_left _).trans (List.perm_append_comm_assoc _ _ _)
  obtain ⟨hnodup, hown⟩ := hok.held_gain hmounted hfilled.gain hheld
  have hcount := hok.count hleft
  have hadvanced := hfilled.advanced.left
  subst hd'
  have hle : data.length ≤ 1024 := hfilled.le
  refine ⟨⟨htree, hnodup, hown, ?_, by simp, ?_, ?_, ?_, hflushed, hok.sizeLo_next hfilled, at_next hfilled, ?_, ?_, ?_,
    ?_⟩, hheld⟩
  · intro k hk
    simp only [ptr_setPtr, Function.update_apply]
    split_ifs
    · exact hfilled.full
    · exact full_congr (hsame k hk) (hok.full k hk)
  · intro r hr
    change w'.inode.root r = 0
    rw [hfilled.root]
    exact hok.upper r hr
  · intro k hk hpast
    simp only [ptr_setPtr]
    rw [Function.update_of_ne (by omega)]
    exact hok.slots k hk (by omega)
  · refine ⟨fun _ => ⟨idx - 1, hslot, ?_⟩, fun _ => rfl⟩
    simp only [ptr_setPtr, Function.update_self]
    exact hfilled.ne_zero
  · intro j hj hpast
    change _ ≤ j + w'.blocksLeft.toNat at hpast
    change mapped _ w'.inode j = 0
    rw [hmapped j hj, mapped_of_root hfilled.root]
    exact hok.holes j hj (by omega)
  · intro k hk o ho hpast
    change _ ≤ _ + w'.blocksLeft.toNat at hpast
    simp only [ptr_setPtr, Function.update_apply]
    split_ifs with heq
    · exact hfilled.find_eq o ho (by omega)
    · rw [find_congr (hsame k hk) (by rwa [pow_one])]
      exact hok.holesBelow k hk o ho (by omega)
  · intro j hj hwritten
    change j + w'.blocksLeft.toNat < _ at hwritten
    have hlimit : j < fileBlkLimit := by
      rw [fileBlkLimit]
      omega
    change HoldsChunk fs' buf size j (mapped fs'.entries w'.inode j)
    rw [hmapped j hlimit, mapped_of_root hfilled.root]
    exact hok.content_gain hfilled.gain hj (by omega)
  · intro k hk o ho hwritten
    change _ + w'.blocksLeft.toNat < _ at hwritten
    rw [ptrsPerBlk] at ho
    simp only [ptr_setPtr, Function.update_apply]
    split_ifs with heq
    · have hholds := hfilled.content o (by omega)
      rwa [hok.sizeLo, show 12 + 1024 * idx + o = 1036 + 1024 * k + o by omega] at hholds
    · exact hok.contentBelow_gain hfilled.gain hk ho (by omega)

end DoublyOk

structure DoublyDone (static : UInt32 → Prop) (fs fs' : FsInfo) (buf : Buf) (size : UInt32) (d d' : Doubly)
    (temps new : List UInt32) : Prop where
  gain : Gain static new fs fs'
  ok : ∃ idx, DoublyOk static fs' buf size idx d' temps
  perm : (d'.held fs').Perm (new ++ d.held fs)
  advanced : Advanced d.progress d'.progress d.progress.blocksLeft.toNat new.length

theorem DoublyDone.refl {static : UInt32 → Prop} {fs : FsInfo} {buf : Buf} {size : UInt32} {idx : Nat} {d : Doubly}
    {temps : List UInt32} (hmounted : Mounted static fs) (hok : DoublyOk static fs buf size idx d temps)
    (hleft : d.progress.blocksLeft.toNat = 0) : DoublyDone static fs fs buf size d d temps [] where
  gain := Gain.refl hmounted
  ok := ⟨idx, hok⟩
  perm := by rw [List.nil_append]
  advanced := by
    rw [hleft]
    exact Advanced.refl d.progress

def DoublyResult (static : UInt32 → Prop) (fs : FsInfo) (buf : Buf) (size : UInt32) (d : Doubly)
    (temps : List UInt32) (result : Bool × Doubly) (fs' : FsInfo) : Prop :=
  (result.1 = false ∧ result.2.progress.inode.bare = d.progress.inode.bare ∧
    Trade static (d.held fs ++ temps) [] fs fs') ∨
  (result.1 = true ∧ ∃ new, DoublyDone static fs fs' buf size d result.2 temps new)

theorem DoublyResult.of_next {static : UInt32 → Prop} {fs fs₁ fs' : FsInfo} {buf : Buf} {size : UInt32} {idx : Nat}
    {d d₁ : Doubly} {temps new : List UInt32} {dataBlks : Nat} {result : Bool × Doubly}
    (hok : DoublyOk static fs buf size idx d temps) (hgain : Gain static new fs fs₁)
    (hperm : (d₁.held fs₁).Perm (new ++ d.held fs))
    (hadvanced : Advanced d.progress d₁.progress dataBlks new.length)
    (hrest : DoublyResult static fs₁ buf size d₁ temps result fs') :
    DoublyResult static fs buf size d temps result fs' := by
  obtain ⟨hfail, hbare, hfree⟩ | ⟨hdone, more, hmore⟩ := hrest
  · refine Or.inl ⟨hfail, hbare.trans hadvanced.bare, ?_⟩
    refine hgain.fail (fun b hb => (hok.own b hb).1) hfree ?_
    rw [← List.append_assoc]
    exact hperm.append_right temps
  · refine Or.inr ⟨hdone, more ++ new, hgain.trans hmore.gain, hmore.ok, ?_, ?_⟩
    · rw [List.append_assoc]
      exact hmore.perm.trans (hperm.append_left more)
    · have htotal := hadvanced.trans hmore.advanced
      rw [Nat.add_comm dataBlks, hadvanced.left] at htotal
      rw [List.length_append, Nat.add_comm]
      exact htotal

theorem treeBlocks_entries_zero (fs : FsInfo) (layer : Nat) :
    treeBlocks fs (entryTrees layer zero) = [] := by
  rw [treeBlocks_entryTrees, forest]
  exact List.flatMap_eq_nil_iff.mpr fun k _ => by rw [ptr_zero, blocks_zero_ptr]

theorem treeBlocks_unwind (fs : FsInfo) {inode : Inode} (hupper : ∀ r, 13 ≤ r → inode.root r = 0)
    (blk : Buf) (rest : List (Nat × UInt32)) :
    treeBlocks fs (inode.trees 12 ++ ([(1, inode.singlyIndirBlockPtr)] ++
        ([(2, inode.doublyIndirBlockPtr)] ++ (entryTrees 2 zero ++ (entryTrees 1 blk ++ rest)))))
      = (refs fs.entries inode ++ below fs blk) ++ treeBlocks fs rest := by
  have hsplit : inode.trees 13 = inode.trees 12 ++ [(1, inode.singlyIndirBlockPtr)] := rfl
  have hdoubly : inode.doublyIndirBlockPtr = 0 := hupper 13 le_rfl
  have hnone : treeBlocks fs [(2, inode.doublyIndirBlockPtr)] = [] := by
    rw [treeBlocks, List.flatMap_singleton, hdoubly, blocks_zero_ptr]
  rw [← List.append_assoc, ← hsplit, treeBlocks_append, treeBlocks_append, treeBlocks_append,
    treeBlocks_append, hnone, treeBlocks_entries_zero, treeBlocks_entryTrees, List.nil_append, List.nil_append,
    treeBlocks_trees_of_zero fs (by omega) hupper, below, List.append_assoc]

theorem writeDoubly_spec {static : UInt32 → Prop} (buf : Buf) {triple double size : UInt32}
    (fuel idx : Nat) {d : Doubly} {fs : FsInfo} (hmounted : Mounted static fs)
    (hok : DoublyOk static fs buf size idx d [double, triple]) (hidx : idx + fuel = ptrsPerBlk)
    (hfuel : d.progress.blocksLeft.toNat ≤ 1024 * fuel) :
    Runs (writeDoubly buf triple double zero fuel idx d) fs
      (DoublyResult static fs buf size d [double, triple]) := by
  induction fuel generalizing idx d fs with
  | zero => exact Runs.pure (Or.inr ⟨rfl, [], DoublyDone.refl hmounted hok (by omega)⟩)
  | succ fuel ih =>
    have hdouble : double ≠ 0 := hok.temp_ne_zero hmounted (by simp)
    have htriple : triple ≠ 0 := hok.temp_ne_zero hmounted (by simp)
    rw [writeDoubly]
    by_cases hleft : d.progress.blocksLeft = 0
    · rw [if_pos hleft]
      exact Runs.pure (Or.inr ⟨rfl, [], DoublyDone.refl hmounted hok (by rw [hleft]; rfl)⟩)
    rw [if_neg hleft]
    refine hmounted.gain_block.bind fun p mid hcall => ?_
    obtain ⟨hnone, rfl⟩ | ⟨hp, hgain⟩ := hcall
    · rw [if_pos hnone]
      simp only [freeDirect_eq, freeEntries_eq, ← freeTrees_singleton, freeBlock_bind hdouble,
        freeBlock_bind htriple, freeTrees_bind]
      have hblocks : treeBlocks mid _ = _ := treeBlocks_unwind mid hok.upper d.currDoublyIndirBlk
        ([(0, double)] ++ [(0, triple)])
      rw [treeBlocks_append mid [(0, double)], treeBlocks_singleton mid hdouble,
        treeBlocks_singleton mid htriple] at hblocks
      exact (freeTrees_of_perm hmounted (List.Perm.of_eq hblocks) hok.nodup hok.own).bind
        fun _ fs' hfree => Runs.pure (Or.inl ⟨rfl, rfl, hfree⟩)
    rw [if_neg hp]
    have hpne : p ≠ 0 := hp
    have hat : d.progress.countBlock.At (12 + 1024 * idx + 0) := hok.next
    refine (writeIndir_spec buf ptrsPerBlk 0 hgain.mounted (Nat.zero_add _)
      (fun k _ _ => ptr_zero k) hat).bind fun result fs₁ hdone => ?_
    obtain ⟨ok, blk, w⟩ := result
    obtain ⟨data, hdone⟩ := hdone
    dsimp only at hdone
    cases ok with
    | false =>
      simp only [Bool.false_eq_true, if_false, freeDirect_eq, freeEntries_eq, ← freeTrees_singleton,
        freeBlock_bind hdouble, freeBlock_bind htriple, freeBlock_bind hpne, freeTrees_bind]
      have htook := hgain.trans hdone.gain
      have hroot : w.inode.root = d.progress.inode.root := hdone.root
      have hblocks : treeBlocks fs₁ _ = _ := treeBlocks_unwind fs₁ (hroot ▸ hok.upper)
        d.currDoublyIndirBlk (entryTrees 0 blk ++ ([(0, p)] ++ ([(0, double)] ++ [(0, triple)])))
      have hrefs : refs fs₁.entries w.inode = refs fs.entries d.progress.inode := by
        rw [refs_of_root hroot, (hok.tree.of_gain htook).2.1]
      rw [treeBlocks_append fs₁ (entryTrees 0 blk), treeBlocks_append fs₁ [(0, p)],
        treeBlocks_append fs₁ [(0, double)], treeBlocks_singleton fs₁ hdouble,
        treeBlocks_singleton fs₁ htriple, treeBlocks_singleton fs₁ hpne, hrefs,
        hok.below_gain htook] at hblocks
      have hleaves : (treeBlocks fs₁ (entryTrees 0 blk)).Perm data := by
        have hperm := hdone.perm
        rw [leaves_zero, List.append_nil] at hperm
        rw [treeBlocks_entryTrees]
        exact hperm
      have hperm : (d.held fs ++ (treeBlocks fs₁ (entryTrees 0 blk) ++ ([p] ++ [double, triple]))).Perm
          ((data ++ [p]) ++ (d.held fs ++ [double, triple])) := by
        refine ((hleaves.append_right _).append_left _).trans ?_
        rw [← List.append_assoc data]
        exact List.perm_append_comm_assoc _ _ _
      obtain ⟨hnodup, hown⟩ := htook.own_append hmounted hok.nodup hok.own
      refine (freeTrees_of_perm hdone.gain.mounted ((List.Perm.of_eq hblocks).trans hperm) hnodup
        hown).bind fun _ fs' hfree => Runs.pure (Or.inl ⟨rfl, ?_, ?_⟩)
      · exact hdone.advanced.bare
      · exact htook.fail (fun b hb => (hok.own b hb).1) hfree (List.Perm.refl _)
    | true =>
      have hflushed : d.flushed = false := Bool.eq_false_iff.mpr fun h => hleft (hok.flushed h)
      simp only [hflushed, if_true, or_true, Bool.false_or]
      refine (Filled.of_indirDone hmounted hpne hleft hgain hdone).bind fun _ fs₂ hfilled => ?_
      have hnextFuel : w.blocksLeft.toNat ≤ 1024 * fuel := by
        have hcount := hfilled.advanced.left
        obtain hzero | hfull := hfilled.stop
        · rw [hzero]
          exact Nat.zero_le _
        · rw [hfull, ptrsPerBlk] at hcount
          omega
      by_cases hfirst : idx = 0
      · subst hfirst
        rw [if_pos rfl]
        obtain ⟨hnext, hperm⟩ := hok.set_singly hmounted hleft hfilled of_decide_eq_true rfl
        refine (ih 1 hfilled.gain.mounted hnext (by omega) hnextFuel).mono fun result fs' hrest => ?_
        have hadvanced : Advanced d.progress (w.setSingly p) _ _ :=
          ⟨hfilled.advanced.bare, hfilled.advanced.sectors, hfilled.advanced.left⟩
        exact DoublyResult.of_next hok hfilled.gain hperm hadvanced hrest
      · rw [if_neg hfirst]
        obtain ⟨hnext, hperm⟩ := hok.set_slot hmounted hfirst (by omega) hleft hfilled
          of_decide_eq_true rfl
        refine (ih (idx + 1) hfilled.gain.mounted hnext (by omega) hnextFuel).mono
          fun result fs' hrest => ?_
        exact DoublyResult.of_next hok hfilled.gain hperm hfilled.advanced hrest

/-! ### The whole body -/

/-- The rest of a file of `size` bytes was written to the blocks `new` and hung below the inode. -/
structure Written (static : UInt32 → Prop) (fs fs' : FsInfo) (buf : Buf) (size : UInt32) (w w' : Progress)
    (new : List UInt32) : Prop where
  gain : Gain static new fs fs'
  tree : TreeOk static fs' w'.inode
  perm : (refs fs'.entries w'.inode).Perm (new ++ refs fs.entries w.inode)
  holes : ∀ j < fileBlkLimit, sizeBlocks size ≤ j → mapped fs'.entries w'.inode j = 0
  content : ∀ j < sizeBlocks size, HoldsChunk fs' buf size j (mapped fs'.entries w'.inode j)
  advanced : Advanced w w' w.blocksLeft.toNat new.length

namespace DoublyOk

variable {static : UInt32 → Prop} {fs fs' : FsInfo} {buf : Buf} {size : UInt32} {idx : Nat} {d : Doubly}
  {w : Progress} {p : UInt32} {temps : List UInt32}

theorem below_zero (fs : FsInfo) : below fs zero = [] :=
  List.flatMap_eq_nil_iff.mpr fun k _ => by rw [ptr_zero, blocks_zero_ptr]

theorem start (hmounted : Mounted static fs) (htree : TreeOk static fs w.inode)
    (hnodup : (refs fs.entries w.inode ++ temps).Nodup) (htemps : Owned static fs temps)
    (hupper : ∀ r, 12 ≤ r → w.inode.root r = 0)
    (hsizeLo : w.inode.sizeLo = size) (hat : w.At 12)
    (hholes : ∀ j < fileBlkLimit, sizeBlocks size ≤ j + w.blocksLeft.toNat → mapped fs.entries w.inode j = 0)
    (hcontent : ∀ j, j + w.blocksLeft.toNat < sizeBlocks size → HoldsChunk fs buf size j (mapped fs.entries w.inode j))
    (hgain : Gain static [p] fs fs') :
    DoublyOk static fs' buf size 0 ⟨zero, false, false, w⟩ (p :: temps) ∧
      Doubly.held ⟨zero, false, false, w⟩ fs' = refs fs.entries w.inode := by
  obtain ⟨htree', hrefs, hmapped⟩ := htree.of_gain hgain
  have hheld : Doubly.held ⟨zero, false, false, w⟩ fs' = refs fs.entries w.inode := by
    rw [Doubly.held, below_zero, List.append_nil, hrefs]
  have hown : Owned static fs (refs fs.entries w.inode ++ temps) := fun b hb =>
    (List.mem_append.mp hb).elim (htree.owned b) (htemps b)
  obtain ⟨hnodup', hown'⟩ := hgain.own_append hmounted hnodup hown
  have hperm : (refs fs.entries w.inode ++ p :: temps).Perm
      ([p] ++ (refs fs.entries w.inode ++ temps)) := List.perm_middle
  refine ⟨⟨htree', ?_, ?_, ?_, fun _ => hupper 12 le_rfl, fun r hr => hupper r (by omega),
    fun k _ _ => ptr_zero k, ?_, by simp, hsizeLo, hat, ?_, ?_, ?_, ?_⟩, hheld⟩
  · rw [hheld]
    exact hperm.nodup_iff.mpr hnodup'
  · rw [hheld]
    exact fun b hb => hown' b (hperm.mem_iff.mp hb)
  · intro k _
    simp only [ptr_zero]
    exact full_zero_ptr
  · simp [ptr_zero]
  · intro j hj hpast
    change mapped fs'.entries w.inode j = 0
    rw [hmapped j hj]
    exact hholes j hj hpast
  · intro k _ o _ _
    simp only [ptr_zero, find_zero_ptr]
  · intro j hj hwritten
    have hlimit : j < fileBlkLimit := lt_fileBlkLimit (Nat.lt_of_le_of_lt (Nat.le_add_right _ _) hwritten)
    have hholds := hcontent j hwritten
    change HoldsChunk fs' buf size j (mapped fs'.entries w.inode j)
    rw [hmapped j hlimit]
    exact hholds.gain hgain (htree.used _ (mapped_mem_refs hlimit hholds.ne_zero))
  · -- the direct blocks are all that was written, so the blocks left are those from 12 on
    intro k _ o _ hwritten
    change _ + w.blocksLeft.toNat < _ at hwritten
    by_cases hleft : w.blocksLeft = 0
    · have hfirst := (hcontent 12 (by rw [hleft] at hwritten ⊢; omega)).ne_zero
      rw [mapped, show (locate 12).1 = 12 from rfl, hupper 12 le_rfl, find_zero_ptr] at hfirst
      exact absurd rfl hfirst
    · have hcount := (hat hleft).2
      rw [hsizeLo] at hcount
      omega

theorem locate_doubly {j : Nat} (hslot : (locate j).1 = 13) :
    1036 ≤ j ∧ j < 1049612 ∧ (locate j).2 = j - 1036 := by
  unfold locate at hslot ⊢
  split_ifs at hslot ⊢ with h1 h2 h3
  · exact absurd hslot (by change j ≠ 13; omega)
  · cases hslot
  · exact ⟨by omega, h3, rfl⟩
  · cases hslot

theorem set_doubly (hok : DoublyOk static fs buf size idx d (p :: temps)) (hmounted : Mounted static fs)
    (hdouble : d.hasDouble = true) (hfinished : d.progress.blocksLeft = 0)
    (hwrote : Wrote static fs fs' p d.currDoublyIndirBlk) {inode' : Inode}
    (hroot : inode'.root = Function.update d.progress.inode.root 13 p) :
    TreeOk static fs' inode' ∧ (refs fs'.entries inode').Perm ([p] ++ d.held fs) ∧
      (∀ j < fileBlkLimit, sizeBlocks size ≤ j → mapped fs'.entries inode' j = 0) ∧
      ∀ j < sizeBlocks size, HoldsChunk fs' buf size j (mapped fs'.entries inode' j) := by
  have hp : p ≠ 0 := hok.temp_ne_zero hmounted List.mem_cons_self
  obtain ⟨hheldNodup, -, hdisjoint⟩ := List.nodup_append'.mp hok.nodup
  have hnotHeld : p ∉ d.held fs := fun hmem => hdisjoint hmem List.mem_cons_self
  have hnotRefs : p ∉ refs fs.entries d.progress.inode :=
    fun hmem => hnotHeld (List.mem_append_left _ hmem)
  have hentries : fs'.entries p = ptr d.currDoublyIndirBlk := by
    funext k
    rw [FsInfo.entries, hwrote.data, Function.update_self]
  have hsame : ∀ k < ptrsPerBlk,
      ∀ q ∈ nodes ptrsPerBlk fs.entries 1 (ptr d.currDoublyIndirBlk k), fs'.entries q = fs.entries q := by
    intro k hk q hq
    apply FsInfo.entries_congr
    rw [hwrote.data, Function.update_of_ne]
    rintro rfl
    exact hnotHeld (List.mem_append_right _ (mem_forest.mpr ⟨k, hk, blocks_of_mem_nodes hq⟩))
  have hbelow : forest ptrsPerBlk fs'.entries (fun _ => 1) (fs'.entries p) ptrsPerBlk
      = below fs d.currDoublyIndirBlk := by
    rw [hentries, forest, below, forest]
    apply List.flatMap_congr
    exact fun k hk => blocks_congr (hsame k (List.mem_range.mp hk))
  obtain ⟨htree, hrefs, hmapped⟩ := hok.tree.of_frame hwrote.frame fun b hb heq => hnotRefs (heq ▸ hb)
  have hown : Owned static fs' (d.held fs ++ p :: temps) := fun b hb =>
    ⟨(hwrote.used b).mpr (hok.own b hb).1, (hok.own b hb).2⟩
  have hperm : (p :: below fs d.currDoublyIndirBlk ++ refs fs'.entries d.progress.inode).Perm
      ([p] ++ d.held fs) := by
    rw [hrefs, Doubly.held, List.cons_append, List.singleton_append]
    exact List.perm_append_comm.cons p
  have hgraft : Grafted static fs' fs' d.progress.inode inode' 13 p
      (p :: below fs d.currDoublyIndirBlk) := by
    refine Grafted.of_tree htree (by omega) (hok.upper 13 le_rfl) hroot ?_ ?_ ?_ ?_
    · rw [rootHeight, blocks_succ hp, hbelow]
    · refine Or.inr ⟨?_, fun k hk => ?_⟩
      · rw [hentries]
        exact hok.hasDouble.mp hdouble
      · rw [hentries]
        exact full_congr (hsame k hk) (hok.full k hk)
    · rw [hperm.nodup_iff, List.singleton_append]
      exact List.nodup_cons.mpr ⟨hnotHeld, hheldNodup⟩
    · intro b hb
      obtain rfl | hmem := List.mem_cons.mp hb
      · exact hown b (List.mem_append_right _ List.mem_cons_self)
      · exact hown b (List.mem_append_left _ (List.mem_append_right _ hmem))
  have hfind : ∀ j, (locate j).1 = 13 → (j - 1036) / 1024 < 1024 ∧ (j - 1036) % 1024 < 1024 ∧
      find ptrsPerBlk fs'.entries (rootHeight 13) p (locate j).2 =
        find ptrsPerBlk fs.entries 1 (ptr d.currDoublyIndirBlk ((j - 1036) / 1024)) ((j - 1036) % 1024) := by
    intro j hslot
    obtain ⟨hlow, hhigh, hrest⟩ := locate_doubly hslot
    have hlt : (j - 1036) / 1024 < 1024 := by omega
    have hmod : (j - 1036) % 1024 < 1024 := Nat.mod_lt _ (by omega)
    refine ⟨hlt, hmod, ?_⟩
    rw [hrest, rootHeight, find_succ hp, hentries, pow_one]
    exact find_congr (hsame _ hlt) (by rw [pow_one]; exact hmod)
  have hholds : ∀ {j : Nat} {b : UInt32}, b ∈ d.held fs → HoldsChunk fs buf size j b →
      HoldsChunk fs' buf size j b := by
    intro j b hb hchunk
    refine ⟨hchunk.ne_zero, ?_⟩
    rw [hwrote.data, Function.update_of_ne]
    · exact hchunk.data
    · rintro rfl
      exact hnotHeld hb
  refine ⟨hgraft.tree, hgraft.perm.trans hperm, fun j hj hpast => ?_, fun j hj => ?_⟩
  · rw [hgraft.mapped_eq j hj]
    split_ifs with hslot
    · obtain ⟨hlow, -, -⟩ := locate_doubly hslot
      obtain ⟨hlt, hmod, heq⟩ := hfind j hslot
      rw [heq]
      exact hok.holesBelow _ hlt _ hmod (by omega)
    · rw [hmapped j hj]
      exact hok.holes j hj (by omega)
  · have htotal := sizeBlocks_le size
    have hlimit : j < fileBlkLimit := lt_fileBlkLimit hj
    have hzero : d.progress.blocksLeft.toNat = 0 := congrArg UInt32.toNat hfinished
    rw [hgraft.mapped_eq j hlimit]
    split_ifs with hslot
    · obtain ⟨hlow, -, -⟩ := locate_doubly hslot
      obtain ⟨hlt, hmod, heq⟩ := hfind j hslot
      have hindex : 1036 + 1024 * ((j - 1036) / 1024) + (j - 1036) % 1024 = j := by omega
      have hchunk := hok.contentBelow _ hlt _ hmod (by omega)
      rw [hindex] at hchunk
      rw [heq]
      refine hholds (List.mem_append_right _ (mem_forest.mpr ⟨_, hlt, ?_⟩)) hchunk
      exact find_mem_blocks (by rw [pow_one]; exact hmod) hchunk.ne_zero
    · have hlow : j < 1036 := by
        by_contra hnot
        refine hslot ?_
        rw [locate, if_neg (by omega), if_neg hnot, if_pos (by omega)]
      have hchunk := hok.content j hlow (by omega)
      rw [hmapped j hlimit]
      exact hholds (List.mem_append_left _ (mapped_mem_refs hlimit hchunk.ne_zero)) hchunk

theorem slots_of_single (hok : DoublyOk static fs buf size idx d temps) (hdouble : d.hasDouble = false) :
    ∀ k < ptrsPerBlk, ptr d.currDoublyIndirBlk k = 0 := by
  intro k hk
  by_contra hne
  rw [hok.hasDouble.mpr ⟨k, hk, hne⟩] at hdouble
  cases hdouble

theorem content_of_single (hok : DoublyOk static fs buf size idx d temps) (hdouble : d.hasDouble = false)
    (hfinished : d.progress.blocksLeft = 0) {j : Nat} (hj : j < sizeBlocks size) :
    HoldsChunk fs buf size j (mapped fs.entries d.progress.inode j) := by
  have hzero : d.progress.blocksLeft.toNat = 0 := congrArg UInt32.toNat hfinished
  refine hok.content j ?_ (by omega)
  by_contra hnot
  have hne := (hok.contentBelow 0 (by decide) 0 (by decide) (by omega)).ne_zero
  rw [hok.slots_of_single hdouble 0 (by decide), find_zero_ptr] at hne
  exact hne rfl

theorem held_of_single (hok : DoublyOk static fs buf size idx d temps) (hdouble : d.hasDouble = false) :
    d.held fs = refs fs.entries d.progress.inode := by
  have hzero := hok.slots_of_single hdouble
  have hnil : below fs d.currDoublyIndirBlk = [] := by
    rw [below, forest]
    refine List.flatMap_eq_nil_iff.mpr fun k hk => ?_
    rw [hzero k (List.mem_range.mp hk), blocks_zero_ptr]
  rw [Doubly.held, hnil, List.append_nil]

end DoublyOk

theorem writeTriply_done (buf : Buf) (triple : UInt32) (fuel idx : Nat) {t : Triply}
    (hleft : t.progress.blocksLeft = 0) : writeTriply buf triple fuel idx t = pure (true, t) := by
  cases fuel with
  | zero => rfl
  | succ fuel => rw [writeTriply, if_pos hleft]

def TriplyResult (static : UInt32 → Prop) (fs : FsInfo) (buf : Buf) (size : UInt32) (w : Progress) (triple : UInt32)
    (result : Bool × Triply) (fs' : FsInfo) : Prop :=
  (result.1 = false ∧ result.2.progress.inode.bare = w.inode.bare ∧
    Trade static (refs fs.entries w.inode ++ [triple]) [] fs fs') ∨
  (result.1 = true ∧ result.2.hasTriple = false ∧ ∃ new, Written static fs fs' buf size w result.2.progress new)

section Triply

variable {static : UInt32 → Prop} {fs : FsInfo} {buf : Buf} {size : UInt32} {w : Progress} {triple : UInt32}
  (hmounted : Mounted static fs) (htree : TreeOk static fs w.inode)
  (hnodup : (refs fs.entries w.inode ++ [triple]).Nodup) (htriple : Owned static fs [triple])
  (hupper : w.blocksLeft ≠ 0 → ∀ r, 12 ≤ r → w.inode.root r = 0)
  (hsizeLo : w.inode.sizeLo = size) (hat : w.At 12)
  (hholes : ∀ j < fileBlkLimit, sizeBlocks size ≤ j + w.blocksLeft.toNat → mapped fs.entries w.inode j = 0)
  (hcontent : ∀ j, j + w.blocksLeft.toNat < sizeBlocks size → HoldsChunk fs buf size j (mapped fs.entries w.inode j))

include hmounted htree hnodup htriple hupper hsizeLo hat hholes hcontent

theorem writeTriply_spec (hsize : w.blocksLeft.toNat ≤ 1048576) :
    Runs (writeTriply buf triple ptrsPerBlk 0 ⟨zero, false, false, w⟩) fs
      (TriplyResult static fs buf size w triple) := by
  have htne : triple ≠ 0 := by
    rintro rfl
    exact (htriple 0 List.mem_cons_self).2 hmounted.zero_static
  change Runs (writeTriply buf triple (1023 + 1) 0 ⟨zero, false, false, w⟩) fs _
  rw [writeTriply]
  by_cases hleft : w.blocksLeft = 0
  · rw [if_pos hleft]
    refine Runs.pure (Or.inr ⟨rfl, rfl, [], Gain.refl hmounted, htree, by rw [List.nil_append], ?_, ?_, ?_⟩)
    · exact fun j hj hpast => hholes j hj (by omega)
    · exact fun j hj => hcontent j (by rwa [hleft])
    · rw [hleft]
      exact Advanced.refl w
  rw [if_neg hleft]
  refine hmounted.gain_block.bind fun p mid hcall => ?_
  obtain ⟨hnone, rfl⟩ | ⟨hp, hgain⟩ := hcall
  · rw [if_pos hnone]
    simp only [freeDirect_eq, freeEntries_eq, ← freeTrees_singleton, freeBlock_bind htne, freeTrees_bind]
    have hown : Owned static mid (refs mid.entries w.inode ++ [triple]) := fun b hb =>
      (List.mem_append.mp hb).elim (htree.owned b) (htriple b)
    refine (freeTrees_of_perm hmounted (List.Perm.of_eq ?_) hnodup hown).bind
      fun _ fs' hfree => Runs.pure (Or.inl ⟨rfl, rfl, hfree⟩)
    have hsingly : w.inode.singlyIndirBlockPtr = 0 := hupper hleft 12 le_rfl
    have hdoubly : w.inode.doublyIndirBlockPtr = 0 := hupper hleft 13 (by omega)
    have hempty : ∀ layer, treeBlocks mid [(layer, 0)] = [] := fun layer => by
      rw [treeBlocks, List.flatMap_singleton, blocks_zero_ptr]
    rw [treeBlocks_append, treeBlocks_append, treeBlocks_append, treeBlocks_append, hsingly, hdoubly,
      hempty, hempty, treeBlocks_entries_zero, treeBlocks_singleton mid htne,
      treeBlocks_trees_of_zero mid (by omega) (hupper hleft)]
    rfl
  rw [if_neg hp]
  obtain ⟨hok, hheld⟩ := DoublyOk.start hmounted htree hnodup htriple (hupper hleft) hsizeLo hat hholes hcontent
    hgain
  refine (writeDoubly_spec buf ptrsPerBlk 0 hgain.mounted hok (Nat.zero_add _) hsize).bind
    fun result fs₁ hresult => ?_
  obtain ⟨ok, d⟩ := result
  obtain ⟨rfl, hbare, hfree⟩ | ⟨rfl, new, hdone⟩ := hresult
  · rw [hheld] at hfree
    refine Runs.pure (Or.inl ⟨rfl, hbare, hgain.fail (fun b hb => ?_) hfree List.perm_middle⟩)
    exact (List.mem_append.mp hb).elim (htree.used b) fun h => (htriple b h).1
  obtain ⟨idx, hfinal⟩ := hdone.ok
  have hfinished : d.progress.blocksLeft = 0 := by
    have hzero : d.progress.blocksLeft.toNat + w.blocksLeft.toNat = w.blocksLeft.toNat :=
      hdone.advanced.left
    exact UInt32.toNat_inj.mp (Nat.add_eq_right.mp hzero)
  have htook := hgain.trans hdone.gain
  have hperm := hdone.perm
  rw [hheld] at hperm
  dsimp only
  rw [if_pos rfl]
  cases hdouble : d.hasDouble with
  | true =>
    rw [if_pos rfl]
    refine (htook.writeBlock_spec hmounted (List.mem_append_right _ List.mem_cons_self) _).bind
      fun _ fs₂ hwrote => ?_
    obtain ⟨htree', hrefs, hmapped, hchunks⟩ := hfinal.set_doubly hdone.gain.mounted hdouble hfinished hwrote.2
      (Inode.root_setRoot d.progress.countBlock.inode (show 13 < 15 by omega) p)
    rw [if_pos rfl, writeTriply_done _ _ _ _ hfinished]
    refine Runs.pure (Or.inr ⟨rfl, rfl, new ++ [p], hwrote.1, htree', ?_, hmapped, hchunks, ?_⟩)
    · refine hrefs.trans ((hperm.append_left [p]).trans ?_)
      rw [List.append_assoc]
      exact List.perm_append_comm_assoc _ _ _
    · have hadvanced := hdone.advanced.trans (Advanced.countBlock d.progress)
      rw [List.length_append, List.length_singleton]
      exact ⟨hadvanced.bare, hadvanced.sectors, hadvanced.left⟩
  | false =>
    rw [if_neg Bool.false_ne_true]
    have hownTemp : Owned static fs₁ [p] := fun b hb =>
      hfinal.own b (List.mem_append_right _ (List.mem_cons.mpr (Or.inl (List.mem_singleton.mp hb))))
    refine (hdone.gain.mounted.freeBlock_trade hownTemp).bind fun _ fs₂ hfree => ?_
    have hsingle := hfinal.held_of_single hdouble
    rw [hsingle] at hperm
    have hnot : ∀ b ∈ refs fs₁.entries d.progress.inode, b ∉ [p] := by
      intro b hb hmem
      rw [← hsingle] at hb
      exact (List.nodup_append'.mp hfinal.nodup).2.2 hb
        (List.mem_cons.mpr (Or.inl (List.mem_singleton.mp hmem)))
    obtain ⟨htree', hrefs, hmapped⟩ := hfinal.tree.of_frame hfree.frame hnot
    rw [writeTriply_done _ _ _ _ hfinished]
    refine Runs.pure (Or.inr ⟨rfl, rfl, new, ?_, htree', ?_, fun j hj hpast => ?_, fun j hj => ?_, hdone.advanced⟩)
    · exact (htook.perm List.perm_append_comm).release hfree
    · rw [hrefs]
      exact hperm
    · rw [hmapped j hj]
      exact hfinal.holes j hj (by omega)
    · have hchunk := hfinal.content_of_single hdouble hfinished hj
      have hlimit : j < fileBlkLimit := lt_fileBlkLimit hj
      have hmem := mapped_mem_refs hlimit hchunk.ne_zero
      rw [hmapped j hlimit]
      refine ⟨hchunk.ne_zero, ?_⟩
      rw [hfree.frame.data _ (hfinal.tree.used _ hmem) (hnot _ hmem)]
      exact hchunk.data

end Triply

theorem toNat_blocksFor {size : UInt32} (hsize : size.toNat ≤ maxSize) :
    (blocksFor size).toNat = sizeBlocks size := by
  rw [maxSize] at hsize
  rw [blocksFor, sizeBlocks, UInt32.toNat_div, UInt32.toNat_add]
  change (size.toNat + 4095) % 4294967296 / 4096 = _
  rw [Nat.mod_eq_of_lt (by omega)]

theorem sizeBlocks_lt {size : UInt32} (hsize : size.toNat ≤ maxSize) : sizeBlocks size < 1048576 := by
  rw [maxSize] at hsize
  rw [sizeBlocks]
  omega

theorem refs_of_zero (c : Store UInt32) {inode : Inode} (hzero : ∀ r, inode.root r = 0) :
    refs c inode = [] :=
  List.flatMap_eq_nil_iff.mpr fun r _ => by rw [hzero r, blocks_zero_ptr]

theorem TreeOk.of_zero {static : UInt32 → Prop} (fs : FsInfo) {inode : Inode}
    (hzero : ∀ r, inode.root r = 0) : TreeOk static fs inode where
  nodup := by
    rw [refs_of_zero _ hzero]
    exact List.nodup_nil
  used := by simp [refs_of_zero _ hzero]
  notStatic := by simp [refs_of_zero _ hzero]
  full r _ := by
    rw [hzero r]
    exact full_zero_ptr

theorem Inode.root_clearPtrs (inode : Inode) (r : Nat) : inode.clearPtrs.root r = 0 := by
  rw [root]
  split_ifs <;> rfl

theorem le_locate {n j : Nat} (hn : n ≤ 12) (hj : n ≤ j) : n ≤ (locate j).1 := by
  unfold locate
  split_ifs
  · exact hj
  all_goals omega

theorem mapped_direct (c : Store UInt32) (inode : Inode) {j : Nat} (hj : j < 12) :
    mapped c inode j = inode.root j := by
  have hheight : rootHeight j = 0 := by
    rw [rootHeight]
    omega
  rw [mapped, locate, if_pos hj, hheight]
  rfl

structure Body (static : UInt32 → Prop) (fs fs' : FsInfo) (inode inode' : Inode) (buf : Buf) :
    Prop where
  gain : Gain static (refs fs'.entries inode') fs fs'
  tree : TreeOk static fs' inode'
  holes : ∀ j < fileBlkLimit, sizeBlocks inode.sizeLo ≤ j → mapped fs'.entries inode' j = 0
  sectors : inode'.diskSectors
    = inode.diskSectors + 8 * UInt32.ofNat (refs fs'.entries inode').length
  bare : inode'.bare = inode.bare
  content : ∀ j < sizeBlocks inode.sizeLo, HoldsChunk fs' buf inode.sizeLo j (mapped fs'.entries inode' j)

theorem writeInode_spec {static : UInt32 → Prop} {fs : FsInfo} (hmounted : Mounted static fs) (buf : Buf)
    {inode : Inode} (hsize : inode.sizeLo.toNat ≤ maxSize) :
    Runs (writeInode buf inode) fs fun result fs' =>
      (result.1 = false ∧ result.2.bare = inode.bare ∧ Trade static [] [] fs fs') ∨
      (result.1 = true ∧ Body static fs fs' inode result.2 buf) := by
  have hempty := inode.root_clearPtrs
  have hblocks := toNat_blocksFor hsize
  have hrefs := refs_of_zero fs.entries hempty
  rw [writeInode]
  refine (writeDirect_spec buf 12 0 hmounted rfl (TreeOk.of_zero fs hempty) (fun r _ => hempty r)
    (fun _ => ⟨rfl, hblocks⟩)).bind fun result fs₁ hdirect => ?_
  obtain ⟨ok, w⟩ := result
  obtain ⟨rfl, hbare, hfree⟩ | ⟨rfl, direct, hdirect⟩ := hdirect
  · rw [hrefs] at hfree
    exact Runs.pure (Or.inl ⟨rfl, hbare, hfree⟩)
  dsimp only at hdirect ⊢
  have hleft : w.blocksLeft.toNat + direct.length = sizeBlocks inode.sizeLo :=
    hdirect.advanced.left.trans hblocks
  have hperm := hdirect.perm
  rw [hrefs, List.append_nil] at hperm
  have hroots : ∀ r, direct.length ≤ r → w.inode.root r = 0 := fun r hr =>
    hdirect.root r (by rwa [Nat.zero_add])
  rw [if_pos rfl]
  refine hdirect.gain.mounted.gain_block.bind fun triple mid hcall => ?_
  obtain ⟨hnone, rfl⟩ | ⟨hp, hgain⟩ := hcall
  · rw [if_pos hnone, freeDirect_eq]
    have htrees := treeBlocks_trees_of_zero mid (show 12 ≤ 15 by omega) fun r hr =>
      hroots r (hdirect.le.trans hr)
    refine (freeTrees_of_perm hdirect.gain.mounted (List.Perm.of_eq htrees) hdirect.tree.nodup
      hdirect.tree.owned).bind fun _ fs' hfree => Runs.pure (Or.inl ⟨rfl, hdirect.advanced.bare, ?_⟩)
    exact hdirect.gain.fail (by simp) hfree (by rwa [List.append_nil])
  rw [if_neg hp]
  obtain ⟨htree, hsame, hmapped⟩ := hdirect.tree.of_gain hgain
  obtain ⟨hnodup, hown⟩ := hgain.own_append hdirect.gain.mounted hdirect.tree.nodup hdirect.tree.owned
  have hcomm : (refs mid.entries w.inode ++ [triple]).Perm ([triple] ++ refs fs₁.entries w.inode) := by
    rw [hsame]
    exact List.perm_append_comm
  have hsizeLo : w.inode.sizeLo = inode.sizeLo := by
    change w.inode.bare.sizeLo = inode.clearPtrs.bare.sizeLo
    rw [hdirect.advanced.bare]
  have htriply : Runs (writeTriply buf triple ptrsPerBlk 0 ⟨zero, false, false, w⟩) mid
      (TriplyResult static mid buf inode.sizeLo w triple) := by
    refine writeTriply_spec hgain.mounted htree (hcomm.nodup_iff.mpr hnodup)
      (fun b hb => hown b (List.mem_append_left _ hb)) (fun _ r hr => hroots r (hdirect.le.trans hr)) hsizeLo
      (fun hmore => ?_) (fun j hj hpast => ?_) (fun j hwritten => ?_) ?_
    · have hnext := hdirect.next hmore
      rwa [hdirect.stop.resolve_left hmore] at hnext
    · have hlow := le_locate hdirect.le (show direct.length ≤ j by omega)
      rw [mapped, hroots _ hlow, find_zero_ptr]
    · have hdirectLe := hdirect.le
      have hchunk := hdirect.content j (Nat.zero_le j) (by omega)
      have hlimit : j < fileBlkLimit := lt_fileBlkLimit (Nat.lt_of_le_of_lt (Nat.le_add_right _ _) hwritten)
      rw [← mapped_direct fs₁.entries w.inode (show j < 12 by omega)] at hchunk
      rw [hmapped j hlimit]
      exact hchunk.gain hgain (hdirect.tree.used _ (mapped_mem_refs hlimit hchunk.ne_zero))
    · have hlt := sizeBlocks_lt hsize
      omega
  refine htriply.bind fun result fs₂ hresult => ?_
  obtain ⟨ok, t⟩ := result
  obtain ⟨rfl, hbare, hfree⟩ | ⟨rfl, hsingle, new, hwritten⟩ := hresult
  · refine Runs.pure (Or.inl ⟨rfl, hbare.trans hdirect.advanced.bare, ?_⟩)
    have hfirst := hgain.fail hdirect.tree.used hfree hcomm
    exact hdirect.gain.fail (by simp) hfirst (by rwa [List.append_nil])
  have htook := hgain.trans hwritten.gain
  have htriple : Owned static fs₂ [triple] := fun b hb =>
    htook.owned hdirect.gain.mounted b (List.mem_append_right _ hb)
  dsimp only at hsingle hwritten ⊢
  rw [if_pos rfl, hsingle, if_neg Bool.false_ne_true]
  refine (hwritten.gain.mounted.freeBlock_trade htriple).bind fun _ fs₃ hfree => ?_
  have hnew : Gain static (new ++ direct) fs fs₃ :=
    hdirect.gain.trans ((htook.perm List.perm_append_comm).release hfree)
  have hall : (refs fs₂.entries t.progress.inode).Perm (new ++ direct) := by
    refine hwritten.perm.trans (List.Perm.append_left new ?_)
    rw [hsame]
    exact hperm
  have hnot : ∀ b ∈ refs fs₂.entries t.progress.inode, b ∉ [triple] := by
    intro b hb hmem
    rw [List.mem_singleton.mp hmem] at hb
    have hused := hnew.used.mpr (Or.inr (hall.mem_iff.mp hb))
    rw [hfree.used] at hused
    simp at hused
  obtain ⟨htree', hrefs', hmapped'⟩ := hwritten.tree.of_frame hfree.frame hnot
  refine Runs.pure (Or.inr ⟨rfl, ?_, htree', fun j hj hpast => ?_, ?_, ?_, fun j hj => ?_⟩)
  · exact hnew.perm (by rwa [hrefs'])
  · rw [hmapped' j hj]
    exact hwritten.holes j hj hpast
  · have hadvanced := hdirect.advanced.trans hwritten.advanced
    rw [hrefs', hall.length_eq, List.length_append, Nat.add_comm]
    exact hadvanced.sectors
  · exact hwritten.advanced.bare.trans hdirect.advanced.bare
  · have hlimit : j < fileBlkLimit := lt_fileBlkLimit hj
    have hchunk := hwritten.content j hj
    have hmem := mapped_mem_refs hlimit hchunk.ne_zero
    rw [hmapped' j hlimit]
    refine ⟨hchunk.ne_zero, ?_⟩
    rw [hfree.frame.data _ (hwritten.tree.used _ hmem) (hnot _ hmem)]
    exact hchunk.data

end DeprecatOS
