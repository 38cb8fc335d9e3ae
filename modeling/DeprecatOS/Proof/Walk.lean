import DeprecatOS.Proof.Blocks

/-!
# The walk below one block pointer

`walk` is the recursive form of the walk that `map_file_block` writes out for each depth: it starts at
a pointer block of height `n + 1`, and its result tells the caller whether that block still holds
pointers. One induction on the height then gives what each mode does to the tree.
-/

namespace DeprecatOS

open Bytes Bits Fault PointerTree

/-! ### Pointer blocks in memory -/

theorem ptr_setPtr (buf : Buf) (k : Nat) (blockN : UInt32) :
    ptr (setPtr buf k blockN) = Function.update (ptr buf) k blockN := by
  funext j
  rw [Function.update_apply, ptr, setPtr]
  split_ifs with heq
  · rw [heq, load32_store32_self]
  · exact load32_store32_of_disjoint _ _ (by omega)

@[simp]
theorem ptr_zero (k : Nat) : ptr zero k = 0 := load32_zero _

theorem setPtr_setPtr_ptr (buf : Buf) (k : Nat) (blockN : UInt32) :
    setPtr (setPtr buf k blockN) k (ptr buf k) = buf := by
  rw [setPtr, setPtr, store32_store32_self, ptr, store32_load32]

theorem elementsInside_iff (buf : Buf) :
    elementsInside buf = true ↔ ∃ k < ptrsPerBlk, ptr buf k ≠ 0 := by
  simp [elementsInside]

/-! ### The counter -/

def addCnt (k : Nat) (allocCnt : Option UInt32) : Option UInt32 := allocCnt.map (· + UInt32.ofNat k)

@[simp]
theorem addCnt_zero (allocCnt : Option UInt32) : addCnt 0 allocCnt = allocCnt := by
  cases allocCnt <;> simp [addCnt]

theorem addCnt_bump (k : Nat) (allocCnt : Option UInt32) :
    addCnt k (bump allocCnt) = addCnt (k + 1) allocCnt := by
  cases allocCnt with
  | none => rfl
  | some cnt =>
    simp only [addCnt, bump, Option.map_some, UInt32.ofNat_add, Option.some.injEq]
    rw [UInt32.add_assoc, UInt32.add_comm 1]
    rfl

theorem bump_addCnt (k : Nat) (allocCnt : Option UInt32) :
    bump (addCnt k allocCnt) = addCnt (k + 1) allocCnt := by
  cases allocCnt with
  | none => rfl
  | some cnt =>
    simp only [addCnt, bump, Option.map_some, UInt32.ofNat_add, Option.some.injEq]
    rw [UInt32.add_assoc]
    rfl

@[simp]
theorem unbump_bump (allocCnt : Option UInt32) : unbump (bump allocCnt) = allocCnt := by
  cases allocCnt <;> simp [unbump, bump]

/-! ### The walk -/

/-- How a walk ends: nothing is mapped, no block was free, or the data block, with a note when the
pointer block the walk started at has no pointers left. The source undoes a failed allocation only as
far up as the blocks it passed are new, so `stuck` is a failure below a block that was there before. -/
inductive Walk where
  | empty
  | noSpace
  | stuck
  | emptied (diskBlk : UInt32)
  | done (diskBlk : UInt32)

def walk (mode : MapMode) : Nat → UInt32 → Nat → Bool → Option UInt32 → FsM (Walk × Option UInt32)
  | 0, indir, idx, _, allocCnt => do
      match ← dataBlock indir idx mode allocCnt with
      | .error .blockError => pure (.noSpace, allocCnt)
      | .error .emptyBlock => pure (.empty, allocCnt)
      | .ok (entries, allocCnt) =>
        if mode = .free then
          if elementsInside (setPtr entries idx 0) then
            writeBlock indir (setPtr entries idx 0)
            pure (.done (ptr entries idx), bump allocCnt)
          else pure (.emptied (ptr entries idx), bump allocCnt)
        else pure (.done (ptr entries idx), allocCnt)
  | n + 1, parent, idx, minted, allocCnt => do
      let k := idx / ptrsPerBlk ^ (n + 1)
      match ← childBlock parent k mode allocCnt with
      | .error .blockError => pure (.noSpace, allocCnt)
      | .error .emptyBlock => pure (.empty, allocCnt)
      | .ok (entries, childMinted, allocCnt) =>
        match ← walk mode n (ptr entries k) (idx % ptrsPerBlk ^ (n + 1)) childMinted allocCnt with
        | (.empty, allocCnt) => pure (.empty, allocCnt)
        | (.noSpace, allocCnt) =>
          if childMinted then
            let _ ← freeBlock (ptr entries k)
            if minted then pure (.noSpace, unbump allocCnt)
            else
              writeBlock parent (setPtr entries k 0)
              pure (.noSpace, unbump allocCnt)
          else pure (.stuck, allocCnt)
        | (.stuck, allocCnt) => pure (.stuck, allocCnt)
        | (.emptied diskBlk, allocCnt) =>
          let _ ← freeBlock (ptr entries k)
          if elementsInside (setPtr entries k 0) then
            writeBlock parent (setPtr entries k 0)
            pure (.done diskBlk, bump allocCnt)
          else pure (.emptied diskBlk, bump allocCnt)
        | (.done diskBlk, allocCnt) => pure (.done diskBlk, allocCnt)

/-! ### One tree -/

structure NodeOk (static : UInt32 → Prop) (fs : FsInfo) (n : Nat) (p : UInt32) : Prop where
  ne_zero : p ≠ 0
  nodup : (blocks ptrsPerBlk fs.entries (n + 1) p).Nodup
  used : ∀ b ∈ blocks ptrsPerBlk fs.entries (n + 1) p, fs.Used b
  notStatic : ∀ b ∈ blocks ptrsPerBlk fs.entries (n + 1) p, ¬ static b
  full : ∀ k < ptrsPerBlk, Full ptrsPerBlk fs.entries n (fs.entries p k)

structure Grew (static : UInt32 → Prop) (fs fs' : FsInfo) (n : Nat) (p p' : UInt32) (idx : Nat)
    (diskBlk : UInt32) (adds : List UInt32) : Prop where
  frame : Frame static (· ∈ nodes ptrsPerBlk fs.entries n p) fs fs'
  edit : Edit ptrsPerBlk fs.Used fs.entries fs'.entries n p p' idx diskBlk adds []
  inside : Inside ptrsPerBlk fs.entries fs'.entries n p p'
  full : Full ptrsPerBlk fs'.entries n p'
  fresh : ∀ b ∈ adds, ¬ fs.Used b
  nodup : adds.Nodup
  used : ∀ b, fs'.Used b ↔ fs.Used b ∨ b ∈ adds

structure Shrank (static : UInt32 → Prop) (fs fs' : FsInfo) (n : Nat) (p p' : UInt32) (idx : Nat)
    (diskBlk : UInt32) (gone : List UInt32) : Prop where
  frame : Frame static (· ∈ nodes ptrsPerBlk fs.entries n p) fs fs'
  edit : Edit ptrsPerBlk fs.Used fs.entries fs'.entries n p p' idx 0 [] (diskBlk :: gone)
  inside : Inside ptrsPerBlk fs'.entries fs.entries n p' p
  full : Full ptrsPerBlk fs'.entries n p'
  emptied : ∀ q ∈ gone, q ∈ nodes ptrsPerBlk fs.entries n p ∧
    ∀ k < ptrsPerBlk, fs.entries q k ∈ 0 :: diskBlk :: gone
  used : ∀ b, fs'.Used b ↔ fs.Used b ∧ b ∉ gone

variable {static : UInt32 → Prop} {fs fs' : FsInfo} {n : Nat} {p : UInt32}

theorem FsInfo.entries_congr {q : UInt32} (hdata : fs'.data q = fs.data q) :
    fs'.entries q = fs.entries q := by
  funext k
  rw [FsInfo.entries, FsInfo.entries, hdata]

namespace NodeOk

variable (hnode : NodeOk static fs n p)

include hnode

theorem self_used : fs.Used p :=
  hnode.used p (mem_blocks_succ.mpr ⟨hnode.ne_zero, Or.inl rfl⟩)

theorem self_notStatic : ¬ static p :=
  hnode.notStatic p (mem_blocks_succ.mpr ⟨hnode.ne_zero, Or.inl rfl⟩)

theorem child_mem {k : Nat} (hk : k < ptrsPerBlk) {b : UInt32}
    (hb : b ∈ blocks ptrsPerBlk fs.entries n (fs.entries p k)) :
    b ∈ blocks ptrsPerBlk fs.entries (n + 1) p :=
  mem_blocks_succ.mpr ⟨hnode.ne_zero, Or.inr ⟨k, hk, hb⟩⟩

theorem self_notMem_child {k : Nat} (hk : k < ptrsPerBlk) :
    p ∉ blocks ptrsPerBlk fs.entries n (fs.entries p k) := fun hb =>
  (nodup_children hnode.ne_zero hnode.nodup).1 (mem_forest.mpr ⟨k, hk, hb⟩)

end NodeOk

theorem NodeOk.child (hnode : NodeOk static fs (n + 1) p) {k : Nat} (hk : k < ptrsPerBlk)
    (hne : fs.entries p k ≠ 0) : NodeOk static fs n (fs.entries p k) where
  ne_zero := hne
  nodup := nodup_of_forest (nodup_children hnode.ne_zero hnode.nodup).2 hk
  used b hb := hnode.used b (hnode.child_mem hk hb)
  notStatic b hb := hnode.notStatic b (hnode.child_mem hk hb)
  full := by
    obtain hzero | ⟨-, hall⟩ := hnode.full k hk
    · exact absurd hzero hne
    · exact hall

/-! ### Growing a tree -/

namespace Grew

variable {idx : Nat} {diskBlk q' : UInt32} {adds : List UInt32}

theorem refl (hmounted : Mounted static fs) (hfull : Full ptrsPerBlk fs.entries n p) (idx : Nat) :
    Grew static fs fs n p p idx (find ptrsPerBlk fs.entries n p idx) [] :=
  ⟨Frame.refl hmounted, Edit.refl p idx, (Inside.of_same fun _ _ => rfl).1, hfull, by simp, List.nodup_nil, by simp⟩

theorem of_child (hnode : NodeOk static fs n p) (hidx : idx < ptrsPerBlk ^ (n + 1)) (hq' : q' ≠ 0)
    (hedit : Edit ptrsPerBlk (fun q => fs.Used q ∧ q ≠ p) fs.entries fs'.entries n
      (fs.entries p (idx / ptrsPerBlk ^ n)) q' (idx % ptrsPerBlk ^ n) diskBlk adds [])
    (hwrite : fs'.entries p = Function.update (fs.entries p) (idx / ptrsPerBlk ^ n) q')
    (hinside : Inside ptrsPerBlk fs.entries fs'.entries n (fs.entries p (idx / ptrsPerBlk ^ n)) q')
    (hfull : Full ptrsPerBlk fs'.entries n q')
    (hframe : Frame static
      (fun q => q = p ∨ q ∈ nodes ptrsPerBlk fs.entries n (fs.entries p (idx / ptrsPerBlk ^ n))) fs fs')
    (hfresh : ∀ b ∈ adds, ¬ fs.Used b) (hnodup : adds.Nodup)
    (hused : ∀ b, fs'.Used b ↔ fs.Used b ∨ b ∈ adds) :
    Grew static fs fs' (n + 1) p p idx diskBlk adds where
  frame := hframe.mono fun q hq => by
    obtain rfl | hchild := hq
    · exact self_mem_nodes hnode.ne_zero
    · exact nodes_child_subset hnode.ne_zero (slot_lt hidx) hchild
  edit := hedit.node_stay hnode.ne_zero hidx hnode.nodup hnode.used hwrite
  inside := hedit.inside_node_grown hnode.ne_zero hidx hnode.nodup hnode.used hwrite hinside
  full := by
    refine hedit.full_node_stay hnode.ne_zero hidx hnode.nodup hnode.used hwrite hnode.full hfull ?_
    refine ⟨idx / ptrsPerBlk ^ n, slot_lt hidx, ?_⟩
    rwa [hwrite, Function.update_self]
  fresh := hfresh
  nodup := hnodup
  used := hused

end Grew

/-- A walk that allocates: it failed and left everything as it was, but for a block that is new and
that the caller releases, or the index is mapped now. -/
def AllocWalk (static : UInt32 → Prop) (fs : FsInfo) (n : Nat) (p : UInt32) (idx : Nat) (minted : Bool)
    (allocCnt : Option UInt32) (result : Walk × Option UInt32) (fs' : FsInfo) : Prop :=
  ((result = (.noSpace, allocCnt) ∨ minted = false ∧ result = (.stuck, allocCnt)) ∧
    Frame static (fun q => minted = true ∧ q = p) fs fs' ∧ ∀ q, fs'.Used q ↔ fs.Used q) ∨
  ∃ diskBlk adds, result = (.done diskBlk, addCnt adds.length allocCnt) ∧ diskBlk ≠ 0 ∧
    Grew static fs fs' (n + 1) p p idx diskBlk adds ∧
    (find ptrsPerBlk fs.entries (n + 1) p idx ≠ 0 → adds = [] ∧ fs' = fs)

structure Zeroed (static touched : UInt32 → Prop) (fs fs' : FsInfo) (blockN : UInt32) : Prop where
  frame : Frame static touched fs fs'
  fresh : ¬ fs.Used blockN
  ne_zero : blockN ≠ 0
  notStatic : ¬ static blockN
  used : ∀ q, fs'.Used q ↔ fs.Used q ∨ q = blockN
  zeroed : fs'.data blockN = zero

structure Minted (static : UInt32 → Prop) (fs fs' : FsInfo) (p : UInt32) (k : Nat)
    (blockN : UInt32) : Prop extends Zeroed static (· = p) fs fs' blockN where
  slot : fs'.data p = setPtr (fs.data p) k blockN

namespace Zeroed

variable {touched : UInt32 → Prop} {blockN : UInt32} (hnew : Zeroed static touched fs fs' blockN)

include hnew

theorem entries_eq (k : Nat) : fs'.entries blockN k = 0 := by
  rw [FsInfo.entries, hnew.zeroed, ptr_zero]

theorem blocks_eq (n : Nat) : blocks ptrsPerBlk fs'.entries (n + 1) blockN = [blockN] :=
  blocks_of_zero_entries hnew.ne_zero fun k _ => hnew.entries_eq k

theorem eq_of_mem_nodes {q : UInt32} (hq : q ∈ nodes ptrsPerBlk fs'.entries (n + 1) blockN) :
    q = blockN := by
  have hmem := blocks_of_mem_nodes hq
  rw [hnew.blocks_eq] at hmem
  exact List.mem_singleton.mp hmem

theorem nodeOk : NodeOk static fs' n blockN := by
  refine ⟨hnew.ne_zero, ?_, ?_, ?_, ?_⟩
  · rw [hnew.blocks_eq]
    exact List.nodup_singleton _
  · rw [hnew.blocks_eq]
    intro b hb
    exact (hnew.used b).mpr (Or.inr (List.mem_singleton.mp hb))
  · rw [hnew.blocks_eq]
    intro b hb
    rw [List.mem_singleton.mp hb]
    exact hnew.notStatic
  · intro k _
    rw [hnew.entries_eq]
    exact full_zero_ptr

theorem undo {fs₂ fs₃ : FsInfo} (hwalk : Frame static (fun q => true = true ∧ q = blockN) fs' fs₂)
    (hwalkUsed : ∀ q, fs₂.Used q ↔ fs'.Used q) (hdropped : Dropped static fs₂ fs₃ blockN) :
    Frame static touched fs fs₃ ∧ ∀ q, fs₃.Used q ↔ fs.Used q := by
  constructor
  · refine (hnew.frame.trans hwalk ?_).trans hdropped.frame ?_
    · rintro q hq ⟨-, rfl⟩
      exact absurd hq hnew.fresh
    · rintro q hq rfl
      exact absurd hq hnew.fresh
  · intro q
    rw [hdropped.used, hwalkUsed, hnew.used]
    constructor
    · rintro ⟨hq | rfl, hne⟩
      · exact hq
      · exact absurd rfl hne
    · intro hq
      refine ⟨Or.inl hq, ?_⟩
      rintro rfl
      exact hnew.fresh hq

end Zeroed

section Alloc

variable (hmounted : Mounted static fs)

include hmounted

theorem dataBlock_alloc_spec (hnode : NodeOk static fs 0 p) (idx : Nat)
    (allocCnt : Option UInt32) :
    Runs (dataBlock p idx .alloc allocCnt) fs fun result fs' =>
      (result = .error .blockError ∧ fs' = fs) ∨
      (result = .ok (fs.data p, allocCnt) ∧ fs.entries p idx ≠ 0 ∧ fs' = fs) ∨
      ∃ blockN fs₁, fs.entries p idx = 0 ∧ Took static fs fs₁ blockN ∧
        Wrote static fs₁ fs' p (setPtr (fs.data p) idx blockN) ∧
        result = .ok (setPtr (fs.data p) idx blockN, bump allocCnt) := by
  rw [dataBlock]
  refine Runs.bind_eq (hmounted.readBlock_data hnode.self_used hnode.self_notStatic) ?_
  by_cases hzero : ptr (fs.data p) idx = 0
  · rw [if_pos hzero, if_neg (by simp)]
    refine Runs.bind hmounted.allocBlock_spec fun blockN fs₁ halloc => ?_
    obtain ⟨rfl, rfl⟩ | htook := halloc
    · exact Runs.pure (Or.inl ⟨rfl, rfl⟩)
    rw [if_neg htook.ne_zero]
    have husedP := (htook.used p).mpr (Or.inl hnode.self_used)
    refine Runs.bind (htook.frame.mounted.writeBlock_spec husedP hnode.self_notStatic _)
      fun _ fs' hwrote => Runs.pure ?_
    exact Or.inr (Or.inr ⟨blockN, fs₁, hzero, htook, hwrote, rfl⟩)
  · rw [if_neg hzero]
    exact Runs.pure (Or.inr (Or.inl ⟨rfl, hzero, rfl⟩))

theorem childBlock_alloc_spec (hnode : NodeOk static fs n p) (k : Nat) (allocCnt : Option UInt32) :
    Runs (childBlock p k .alloc allocCnt) fs fun result fs' =>
      (result = .error .blockError ∧ fs' = fs) ∨
      (result = .ok (fs.data p, false, allocCnt) ∧ fs.entries p k ≠ 0 ∧ fs' = fs) ∨
      ∃ blockN, fs.entries p k = 0 ∧ Minted static fs fs' p k blockN ∧
        result = .ok (setPtr (fs.data p) k blockN, true, bump allocCnt) := by
  rw [childBlock]
  refine Runs.bind_eq (hmounted.readBlock_data hnode.self_used hnode.self_notStatic) ?_
  by_cases hzero : ptr (fs.data p) k = 0
  · rw [if_pos hzero, if_neg (by simp)]
    refine Runs.bind hmounted.allocBlock_spec fun blockN fs₁ halloc => ?_
    obtain ⟨rfl, rfl⟩ | htook := halloc
    · exact Runs.pure (Or.inl ⟨rfl, rfl⟩)
    rw [if_neg htook.ne_zero]
    refine Runs.bind (htook.frame.mounted.writeBlock_spec ((htook.used _).mpr (Or.inr rfl))
      htook.notStatic _) fun _ fs₂ hzeroed => ?_
    have husedP := (hzeroed.used p).mpr ((htook.used p).mpr (Or.inl hnode.self_used))
    refine Runs.bind (hzeroed.frame.mounted.writeBlock_spec husedP hnode.self_notStatic _)
      fun _ fs' hwrote => Runs.pure ?_
    have hneP : blockN ≠ p := by
      rintro rfl
      exact htook.fresh hnode.self_used
    refine Or.inr (Or.inr ⟨blockN, hzero,
      ⟨⟨?_, htook.fresh, htook.ne_zero, htook.notStatic, ?_, ?_⟩, ?_⟩, rfl⟩)
    · refine ((htook.frame.mono (by simp)).trans hzeroed.frame ?_).trans hwrote.frame fun _ _ h => h
      rintro b hb rfl
      exact absurd hb htook.fresh
    · intro q
      rw [hwrote.used, hzeroed.used, htook.used]
    · rw [hwrote.data, Function.update_of_ne hneP, hzeroed.data, Function.update_self]
    · rw [hwrote.data, Function.update_self]
  · rw [if_neg hzero]
    exact Runs.pure (Or.inr (Or.inl ⟨rfl, hzero, rfl⟩))

theorem walk_alloc_zero (hnode : NodeOk static fs 0 p) {idx : Nat} (hidx : idx < ptrsPerBlk ^ 1)
    (minted : Bool) (allocCnt : Option UInt32) :
    Runs (walk .alloc 0 p idx minted allocCnt) fs
      (AllocWalk static fs 0 p idx minted allocCnt) := by
  have hslot : idx / ptrsPerBlk ^ 0 = idx := by rw [pow_zero, Nat.div_one]
  have hrest : idx % ptrsPerBlk ^ 0 = 0 := by rw [pow_zero, Nat.mod_one]
  have hfind : find ptrsPerBlk fs.entries 1 p idx = fs.entries p idx := by
    rw [find_succ hnode.ne_zero, hslot, find]
  rw [walk]
  refine Runs.bind (dataBlock_alloc_spec hmounted hnode idx allocCnt) fun result fs' hdata => ?_
  obtain ⟨rfl, rfl⟩ | ⟨rfl, hne, rfl⟩ | ⟨blockN, fs₁, hzero, htook, hwrote, rfl⟩ := hdata
  · exact Runs.pure (Or.inl ⟨Or.inl rfl, Frame.refl hmounted, fun _ => Iff.rfl⟩)
  · have hfull : Full ptrsPerBlk fs'.entries 1 p :=
      Or.inr ⟨⟨idx, by simpa using hidx, hne⟩, fun _ _ => trivial⟩
    refine Runs.pure (Or.inr ⟨fs'.entries p idx, [], ?_, hne, ?_, fun _ => ⟨rfl, rfl⟩⟩)
    · rw [List.length_nil, addCnt_zero]
      rfl
    · rw [← hfind]
      exact Grew.refl hmounted hfull idx
  · have hneP : blockN ≠ p := by
      rintro rfl
      exact htook.fresh hnode.self_used
    have hwrite : fs'.entries p = Function.update (fs.entries p) (idx / ptrsPerBlk ^ 0) blockN := by
      rw [hslot]
      change ptr (fs'.data p) = _
      rw [hwrote.data, Function.update_self, ptr_setPtr]
      rfl
    have hframe : ∀ q, fs.Used q ∧ q ≠ p → fs'.entries q = fs.entries q := by
      intro q hq
      apply FsInfo.entries_congr
      rw [hwrote.data, Function.update_of_ne hq.2, htook.data]
    have hptr : ptr (setPtr (fs.data p) idx blockN) idx = blockN := by
      rw [ptr_setPtr, Function.update_self]
    refine Runs.pure (Or.inr ⟨blockN, [blockN], ?_, htook.ne_zero, ?_, fun hne => ?_⟩)
    · rw [hptr, List.length_singleton, ← addCnt_bump, addCnt_zero]
    · refine Grew.of_child hnode hidx htook.ne_zero ?_ hwrite ?_ trivial ?_ ?_ (List.nodup_singleton _) ?_
      · rw [hslot, hrest, hzero]
        exact Edit.leaf_alloc htook.ne_zero hframe
      · rw [hslot, hzero]
        exact Inside.of_zero
      · exact ((htook.frame.mono (by simp)).trans hwrote.frame fun _ _ h => Or.inl h)
      · intro b hb
        rw [List.mem_singleton.mp hb]
        exact htook.fresh
      · intro b
        rw [hwrote.used, htook.used, List.mem_singleton]
    · rw [hfind] at hne
      exact absurd hzero hne

end Alloc

theorem Grew.of_child_same {idx : Nat} {diskBlk : UInt32} {adds : List UInt32}
    (hnode : NodeOk static fs (n + 1) p) (hidx : idx < ptrsPerBlk ^ (n + 2))
    (hne : fs.entries p (idx / ptrsPerBlk ^ (n + 1)) ≠ 0)
    (hgrew : Grew static fs fs' (n + 1) (fs.entries p (idx / ptrsPerBlk ^ (n + 1)))
      (fs.entries p (idx / ptrsPerBlk ^ (n + 1))) (idx % ptrsPerBlk ^ (n + 1)) diskBlk adds) :
    Grew static fs fs' (n + 2) p p idx diskBlk adds := by
  have hself : fs'.entries p = fs.entries p :=
    hgrew.edit.frame p hnode.self_used fun hmem =>
      hnode.self_notMem_child (slot_lt hidx) (blocks_of_mem_nodes hmem)
  refine Grew.of_child hnode hidx hne (hgrew.edit.mono fun q hq => hq.1) ?_ hgrew.inside hgrew.full
    (hgrew.frame.mono fun q hq => Or.inr hq) hgrew.fresh hgrew.nodup hgrew.used
  rw [hself, Function.update_eq_self]

theorem Grew.of_child_minted {fs₁ : FsInfo} {idx : Nat} {diskBlk blockN : UInt32} {adds : List UInt32}
    (hnode : NodeOk static fs (n + 1) p) (hidx : idx < ptrsPerBlk ^ (n + 2))
    (hzero : fs.entries p (idx / ptrsPerBlk ^ (n + 1)) = 0)
    (hminted : Minted static fs fs₁ p (idx / ptrsPerBlk ^ (n + 1)) blockN)
    (hgrew : Grew static fs₁ fs' (n + 1) blockN blockN (idx % ptrsPerBlk ^ (n + 1)) diskBlk adds) :
    Grew static fs fs' (n + 2) p p idx diskBlk (blockN :: adds) := by
  have hneP : p ≠ blockN := by
    rintro rfl
    exact hminted.fresh hnode.self_used
  have hself : fs'.entries p = fs₁.entries p :=
    hgrew.edit.frame p ((hminted.used p).mpr (Or.inl hnode.self_used)) fun hq => hneP (hminted.eq_of_mem_nodes hq)
  refine Grew.of_child hnode hidx hminted.ne_zero ?_ ?_ (by rw [hzero]; exact Inside.of_zero) hgrew.full ?_ ?_ ?_ ?_
  · rw [hzero]
    refine hgrew.edit.of_empty hminted.ne_zero (fun k _ => hminted.entries_eq k) ?_
    intro q hq
    refine ⟨(hminted.used q).mpr (Or.inl hq.1), ?_, ?_⟩
    · rintro rfl
      exact hminted.fresh hq.1
    · exact FsInfo.entries_congr (hminted.frame.data q hq.1 hq.2)
  · rw [hself]
    change ptr (fs₁.data p) = _
    rw [hminted.slot, ptr_setPtr]
    rfl
  · refine (hminted.frame.mono fun q hq => Or.inl hq).trans hgrew.frame fun q hq hmem => ?_
    rw [hminted.eq_of_mem_nodes hmem] at hq
    exact absurd hq hminted.fresh
  · intro b hb
    obtain rfl | hmem := List.mem_cons.mp hb
    · exact hminted.fresh
    · exact fun hused => hgrew.fresh b hmem ((hminted.used b).mpr (Or.inl hused))
  · refine List.nodup_cons.mpr ⟨fun hmem => ?_, hgrew.nodup⟩
    exact hgrew.fresh blockN hmem ((hminted.used blockN).mpr (Or.inr rfl))
  · intro b
    rw [hgrew.used, hminted.used, List.mem_cons, or_assoc]

theorem walk_alloc_spec (hmounted : Mounted static fs) (hnode : NodeOk static fs n p) {idx : Nat}
    (hidx : idx < ptrsPerBlk ^ (n + 1)) {minted : Bool}
    (hminted : minted = true → ∀ k < ptrsPerBlk, fs.entries p k = 0) (allocCnt : Option UInt32) :
    Runs (walk .alloc n p idx minted allocCnt) fs (AllocWalk static fs n p idx minted allocCnt) := by
  induction n generalizing fs p idx minted allocCnt with
  | zero => exact walk_alloc_zero hmounted hnode hidx minted allocCnt
  | succ n ih =>
    have hslot := slot_lt hidx
    have hrest := rest_lt hidx
    rw [walk]
    refine Runs.bind (childBlock_alloc_spec hmounted hnode (idx / ptrsPerBlk ^ (n + 1)) allocCnt)
      fun result fs₁ hchild => ?_
    obtain ⟨rfl, rfl⟩ | ⟨rfl, hne, rfl⟩ | ⟨blockN, hzero, hmint, rfl⟩ := hchild
    · exact Runs.pure (Or.inl ⟨Or.inl rfl, Frame.refl hmounted, fun _ => Iff.rfl⟩)
    · have hold : minted = false :=
        Bool.eq_false_iff.mpr fun htrue => hne (hminted htrue _ hslot)
      refine Runs.bind (ih hmounted (hnode.child hslot hne) hrest (by simp) allocCnt)
        fun result fs' hwalk => ?_
      obtain ⟨rfl | ⟨-, rfl⟩, hframe, hused⟩ | ⟨diskBlk, adds, rfl, hdisk, hgrew, hsame⟩ := hwalk
      · exact Runs.pure (Or.inl ⟨Or.inr ⟨hold, rfl⟩, hframe.mono (by simp), hused⟩)
      · exact Runs.pure (Or.inl ⟨Or.inr ⟨hold, rfl⟩, hframe.mono (by simp), hused⟩)
      · refine Runs.pure (Or.inr ⟨diskBlk, adds, rfl, hdisk,
          Grew.of_child_same hnode hidx hne hgrew, fun hfind => hsame ?_⟩)
        rwa [find_succ hnode.ne_zero] at hfind
    · have hptr : ptr (setPtr (fs.data p) (idx / ptrsPerBlk ^ (n + 1)) blockN)
          (idx / ptrsPerBlk ^ (n + 1)) = blockN := by
        rw [ptr_setPtr, Function.update_self]
      simp only [hptr]
      refine Runs.bind (ih hmint.frame.mounted hmint.nodeOk hrest (fun _ k _ => hmint.entries_eq k)
          (bump allocCnt))
        fun result fs₂ hwalk => ?_
      obtain ⟨rfl | ⟨hfalse, -⟩, hframe, hused⟩ | ⟨diskBlk, adds, rfl, hdisk, hgrew, hsame⟩ := hwalk
      · have husedN : fs₂.Used blockN := (hused blockN).mpr ((hmint.used blockN).mpr (Or.inr rfl))
        refine Runs.bind (hframe.mounted.freeBlock_spec husedN hmint.notStatic)
          fun _ fs₃ hdropped => ?_
        obtain ⟨hundo, hundoUsed⟩ := hmint.undo hframe hused hdropped
        rw [unbump_bump]
        cases minted with
        | true => exact Runs.pure (Or.inl ⟨Or.inl rfl, hundo.mono fun q hq => ⟨rfl, hq⟩, hundoUsed⟩)
        | false =>
          refine Runs.bind (hundo.mounted.writeBlock_spec ((hundoUsed p).mpr hnode.self_used)
            hnode.self_notStatic _) fun _ fs₄ hwrote => Runs.pure (Or.inl ⟨Or.inl rfl, ?_, ?_⟩)
          · -- The slot was zero before, so writing zero back restores the block.
            have hrestored : fs₄.data p = fs.data p := by
              rw [hwrote.data, Function.update_self]
              have hback := setPtr_setPtr_ptr (fs.data p) (idx / ptrsPerBlk ^ (n + 1)) blockN
              rwa [show ptr (fs.data p) (idx / ptrsPerBlk ^ (n + 1)) = 0 from hzero] at hback
            have hframe₄ := hundo.trans hwrote.frame fun _ _ h => h
            refine ⟨hframe₄.mounted, hframe₄.geo, hframe₄.inodes, hframe₄.dirCnt, hframe₄.book, ?_, ?_⟩
            · intro q hq _
              rw [hwrote.used, hundoUsed]
              exact hq
            · intro q hq _
              by_cases heq : q = p
              · rw [heq, hrestored]
              · exact hframe₄.data q hq heq
          · intro q
            rw [hwrote.used, hundoUsed]
      · cases hfalse
      · refine Runs.pure (Or.inr ⟨diskBlk, blockN :: adds, ?_, hdisk,
          Grew.of_child_minted hnode hidx hzero hmint hgrew, fun hfind => ?_⟩)
        · rw [addCnt_bump]
          rfl
        · rw [find_succ hnode.ne_zero, hzero, find_zero_ptr] at hfind
          exact absurd rfl hfind

/-! ### Looking up -/

section ReadOnly

variable (hmounted : Mounted static fs) {mode : MapMode} (hmode : mode ≠ .alloc)

include hmounted hmode

theorem dataBlock_run (hnode : NodeOk static fs n p) (k : Nat) (allocCnt : Option UInt32) :
    dataBlock p k mode allocCnt fs
      = .ok (if fs.entries p k = 0 then .error .emptyBlock else .ok (fs.data p, allocCnt), fs) := by
  rw [dataBlock, run_bind_ok (hmounted.readBlock_data hnode.self_used hnode.self_notStatic)]
  change (if fs.entries p k = 0 then _ else _ : FsM _) fs = _
  split_ifs <;> rfl

theorem childBlock_run (hnode : NodeOk static fs n p) (k : Nat) (allocCnt : Option UInt32) :
    childBlock p k mode allocCnt fs
      = .ok (if fs.entries p k = 0 then .error .emptyBlock else .ok (fs.data p, false, allocCnt), fs) := by
  rw [childBlock, run_bind_ok (hmounted.readBlock_data hnode.self_used hnode.self_notStatic)]
  change (if fs.entries p k = 0 then _ else _ : FsM _) fs = _
  split_ifs <;> rfl

end ReadOnly

theorem walk_lookup_spec (hmounted : Mounted static fs) (hnode : NodeOk static fs n p) {idx : Nat}
    (hidx : idx < ptrsPerBlk ^ (n + 1)) (minted : Bool) (allocCnt : Option UInt32) :
    Runs (walk .lookup n p idx minted allocCnt) fs fun result fs' =>
      result = (if find ptrsPerBlk fs.entries (n + 1) p idx = 0 then .empty
        else .done (find ptrsPerBlk fs.entries (n + 1) p idx), allocCnt) ∧ fs' = fs := by
  induction n generalizing p idx minted with
  | zero =>
    have hfind : find ptrsPerBlk fs.entries 1 p idx = fs.entries p idx := by
      rw [find_succ hnode.ne_zero, pow_zero, Nat.div_one, find]
    rw [walk, hfind]
    refine Runs.bind_eq (dataBlock_run hmounted (by decide) hnode idx allocCnt) ?_
    by_cases hzero : fs.entries p idx = 0
    · rw [if_pos hzero, if_pos hzero]
      exact Runs.pure ⟨rfl, rfl⟩
    · rw [if_neg hzero, if_neg hzero]
      exact Runs.pure ⟨rfl, rfl⟩
  | succ n ih =>
    rw [walk, find_succ hnode.ne_zero]
    refine Runs.bind_eq (childBlock_run hmounted (by decide) hnode _ allocCnt) ?_
    by_cases hzero : fs.entries p (idx / ptrsPerBlk ^ (n + 1)) = 0
    · rw [if_pos hzero, hzero, find_zero_ptr, if_pos rfl]
      exact Runs.pure ⟨rfl, rfl⟩
    · rw [if_neg hzero]
      refine Runs.bind (ih (hnode.child (slot_lt hidx) hzero) (rest_lt hidx) false) ?_
      rintro result fs' ⟨rfl, rfl⟩
      by_cases hfind : find ptrsPerBlk fs'.entries (n + 1)
          (fs'.entries p (idx / ptrsPerBlk ^ (n + 1))) (idx % ptrsPerBlk ^ (n + 1)) = 0
      · rw [if_pos hfind]
        exact Runs.pure ⟨rfl, rfl⟩
      · rw [if_neg hfind]
        exact Runs.pure ⟨rfl, rfl⟩

/-! ### Shrinking a tree -/

/-- The tree of height `n + 1` at `p` has only index `idx` left, the pointer blocks `gone` below `p` are
released and `p` is for the caller to release. -/
structure Emptied (static : UInt32 → Prop) (fs fs' : FsInfo) (n : Nat) (p : UInt32) (idx : Nat)
    (diskBlk : UInt32) (gone : List UInt32) : Prop where
  frame : Frame static (· ∈ nodes ptrsPerBlk fs.entries (n + 1) p) fs fs'
  edit : Edit ptrsPerBlk fs.Used fs.entries fs'.entries (n + 1) p 0 idx 0 [] (diskBlk :: p :: gone)
  emptied : ∀ q ∈ p :: gone, q ∈ nodes ptrsPerBlk fs.entries (n + 1) p ∧
    ∀ k < ptrsPerBlk, fs.entries q k ∈ 0 :: diskBlk :: p :: gone
  notMem : p ∉ gone
  used : ∀ b, fs'.Used b ↔ fs.Used b ∧ b ∉ gone

theorem Emptied.drop {fs₁ : FsInfo} {idx : Nat} {diskBlk : UInt32} {gone : List UInt32}
    (hemptied : Emptied static fs fs₁ n p idx diskBlk gone) (hp : p ≠ 0)
    (hdropped : Dropped static fs₁ fs' p) :
    Shrank static fs fs' (n + 1) p 0 idx diskBlk (p :: gone) where
  frame := hemptied.frame.trans hdropped.frame fun q _ hq => by
    rw [hq]
    exact self_mem_nodes hp
  edit := by
    have hentries : fs'.entries = fs₁.entries := funext fun q =>
      FsInfo.entries_congr (congrFun hdropped.data q)
    rw [hentries]
    exact hemptied.edit
  inside := Inside.of_zero
  full := full_zero_ptr
  emptied := hemptied.emptied
  used b := by
    rw [hdropped.used, hemptied.used, List.mem_cons, not_or, and_assoc, and_comm (a := b ∉ gone)]

namespace Shrank

variable {idx : Nat} {diskBlk q' : UInt32} {gone : List UInt32}

theorem of_child {fs₁ : FsInfo} (hnode : NodeOk static fs n p) (hidx : idx < ptrsPerBlk ^ (n + 1))
    (hchild : Shrank static fs fs₁ n (fs.entries p (idx / ptrsPerBlk ^ n)) q' (idx % ptrsPerBlk ^ n)
      diskBlk gone)
    (hframe : Frame static (· = p) fs₁ fs')
    (hentries : ∀ q, q ≠ p → fs'.entries q = fs₁.entries q)
    (hwrite : fs'.entries p = Function.update (fs.entries p) (idx / ptrsPerBlk ^ n) q')
    (hsome : ∃ k < ptrsPerBlk, fs'.entries p k ≠ 0)
    (hused : ∀ b, fs'.Used b ↔ fs₁.Used b) :
    Shrank static fs fs' (n + 1) p p idx diskBlk gone := by
  have hslot := slot_lt hidx
  have hsame : ∀ q ∈ nodes ptrsPerBlk fs₁.entries n q', fs'.entries q = fs₁.entries q := by
    intro q hq
    refine hentries q ?_
    rintro rfl
    have hmem := List.mem_append_left (diskBlk :: gone) (blocks_of_mem_nodes hq)
    exact hnode.self_notMem_child hslot (by simpa using hchild.edit.perm.mem_iff.mp hmem)
  have hedit : Edit ptrsPerBlk (fun q => fs.Used q ∧ q ≠ p) fs.entries fs'.entries n
      (fs.entries p (idx / ptrsPerBlk ^ n)) q' (idx % ptrsPerBlk ^ n) 0 [] (diskBlk :: gone) :=
    hchild.edit.of_store hsame fun q hq => ⟨hq.1, hentries q hq.2⟩
  refine ⟨?_, hedit.node_stay hnode.ne_zero hidx hnode.nodup hnode.used hwrite, ?_, ?_, ?_, ?_⟩
  · refine (hchild.frame.mono fun q hq => nodes_child_subset hnode.ne_zero hslot hq).trans hframe ?_
    rintro q _ rfl
    exact self_mem_nodes hnode.ne_zero
  · refine hedit.inside_node_shrunk hnode.ne_zero hidx hnode.nodup hnode.used hwrite ?_
    exact (Inside.of_same hsame).2.trans hchild.inside
  · exact hedit.full_node_stay hnode.ne_zero hidx hnode.nodup hnode.used hwrite hnode.full
      (full_congr hsame hchild.full) hsome
  · intro q hq
    obtain ⟨hmem, hentry⟩ := hchild.emptied q hq
    exact ⟨nodes_child_subset hnode.ne_zero hslot hmem, hentry⟩
  · intro b
    rw [hused, hchild.used]

theorem emptied_of_child (hnode : NodeOk static fs n p) (hidx : idx < ptrsPerBlk ^ (n + 1))
    (hchild : Shrank static fs fs' n (fs.entries p (idx / ptrsPerBlk ^ n)) 0 (idx % ptrsPerBlk ^ n)
      diskBlk gone)
    (hmem : fs.entries p (idx / ptrsPerBlk ^ n) ∈ diskBlk :: gone)
    (hothers : ∀ k < ptrsPerBlk, k ≠ idx / ptrsPerBlk ^ n → fs.entries p k = 0) :
    Emptied static fs fs' n p idx diskBlk gone := by
  have hslot := slot_lt hidx
  have hgone : ∀ q ∈ gone, q ∈ blocks ptrsPerBlk fs.entries n (fs.entries p (idx / ptrsPerBlk ^ n)) :=
    fun q hq => blocks_of_mem_nodes (hchild.emptied q hq).1
  refine ⟨?_, ?_, ?_, fun hp => hnode.self_notMem_child hslot (hgone p hp), hchild.used⟩
  · exact hchild.frame.mono fun q hq => nodes_child_subset hnode.ne_zero hslot hq
  · refine Edit.perm_dels ?_ (List.Perm.swap diskBlk p gone)
    exact (hchild.edit.mono fun q hq => hq.1).node_gone hnode.ne_zero hidx hothers
  · intro q hq
    obtain rfl | hq := List.mem_cons.mp hq
    · refine ⟨self_mem_nodes hnode.ne_zero, fun k hk => ?_⟩
      by_cases hk' : k = idx / ptrsPerBlk ^ n
      · rw [hk']
        simp only [List.mem_cons] at hmem ⊢
        tauto
      · rw [hothers k hk hk']
        exact List.mem_cons_self
    · obtain ⟨hmemQ, hentry⟩ := hchild.emptied q hq
      refine ⟨nodes_child_subset hnode.ne_zero hslot hmemQ, fun k hk => ?_⟩
      have := hentry k hk
      simp only [List.mem_cons] at this ⊢
      tauto

end Shrank

def FreeWalk (static : UInt32 → Prop) (fs : FsInfo) (n : Nat) (p : UInt32) (idx : Nat)
    (allocCnt : Option UInt32) (result : Walk × Option UInt32) (fs' : FsInfo) : Prop :=
  (result = (.empty, allocCnt) ∧ find ptrsPerBlk fs.entries (n + 1) p idx = 0 ∧ fs' = fs) ∨
  ∃ gone, find ptrsPerBlk fs.entries (n + 1) p idx ≠ 0 ∧
    ((result = (.done (find ptrsPerBlk fs.entries (n + 1) p idx), addCnt (gone.length + 1) allocCnt) ∧
        Shrank static fs fs' (n + 1) p p idx (find ptrsPerBlk fs.entries (n + 1) p idx) gone) ∨
      (result = (.emptied (find ptrsPerBlk fs.entries (n + 1) p idx),
          addCnt (gone.length + 1) allocCnt) ∧
        Emptied static fs fs' n p idx (find ptrsPerBlk fs.entries (n + 1) p idx) gone))

theorem clearSlot_spec {fs₁ : FsInfo} {idx : Nat} {diskBlk : UInt32} {gone : List UInt32}
    (hnode : NodeOk static fs n p) (hidx : idx < ptrsPerBlk ^ (n + 1))
    (hchild : Shrank static fs fs₁ n (fs.entries p (idx / ptrsPerBlk ^ n)) 0 (idx % ptrsPerBlk ^ n)
      diskBlk gone)
    (hmem : fs.entries p (idx / ptrsPerBlk ^ n) ∈ diskBlk :: gone)
    (allocCnt : Option UInt32) :
    Runs (if elementsInside (setPtr (fs.data p) (idx / ptrsPerBlk ^ n) 0) then do
        writeBlock p (setPtr (fs.data p) (idx / ptrsPerBlk ^ n) 0)
        pure (Walk.done diskBlk, allocCnt)
      else pure (Walk.emptied diskBlk, allocCnt)) fs₁ fun result fs' =>
      (result = (.done diskBlk, allocCnt) ∧ Shrank static fs fs' (n + 1) p p idx diskBlk gone) ∨
      (result = (.emptied diskBlk, allocCnt) ∧ Emptied static fs fs' n p idx diskBlk gone) := by
  have hslot := slot_lt hidx
  have hnotGone : p ∉ gone := fun hp =>
    hnode.self_notMem_child hslot (blocks_of_mem_nodes (hchild.emptied p hp).1)
  have husedP : fs₁.Used p := (hchild.used p).mpr ⟨hnode.self_used, hnotGone⟩
  split_ifs with hinside
  · refine Runs.bind (hchild.frame.mounted.writeBlock_spec husedP hnode.self_notStatic _)
      fun _ fs' hwrote => Runs.pure (Or.inl ⟨rfl, ?_⟩)
    have hwrite : fs'.entries p = ptr (setPtr (fs.data p) (idx / ptrsPerBlk ^ n) 0) := by
      change ptr (fs'.data p) = _
      rw [hwrote.data, Function.update_self]
    refine Shrank.of_child hnode hidx hchild hwrote.frame ?_ ?_ ?_ hwrote.used
    · intro q hq
      exact FsInfo.entries_congr (by rw [hwrote.data, Function.update_of_ne hq])
    · rw [hwrite, ptr_setPtr]
      rfl
    · rw [hwrite]
      exact (elementsInside_iff _).mp hinside
  · refine Runs.pure (Or.inr ⟨rfl, Shrank.emptied_of_child hnode hidx hchild hmem ?_⟩)
    intro k hk hne
    by_contra hentry
    refine hinside ((elementsInside_iff _).mpr ⟨k, hk, ?_⟩)
    rwa [ptr_setPtr, Function.update_of_ne hne]

theorem walk_free_zero (hmounted : Mounted static fs) (hnode : NodeOk static fs 0 p) {idx : Nat} (hidx : idx < ptrsPerBlk ^ 1)
    (minted : Bool) (allocCnt : Option UInt32) :
    Runs (walk .free 0 p idx minted allocCnt) fs (FreeWalk static fs 0 p idx allocCnt) := by
  have hslot : idx / ptrsPerBlk ^ 0 = idx := by rw [pow_zero, Nat.div_one]
  have hrest : idx % ptrsPerBlk ^ 0 = 0 := by rw [pow_zero, Nat.mod_one]
  have hfind : find ptrsPerBlk fs.entries 1 p idx = fs.entries p idx := by
    rw [find_succ hnode.ne_zero, hslot, find]
  rw [walk]
  refine Runs.bind_eq (dataBlock_run hmounted (by decide) hnode idx allocCnt) ?_
  by_cases hzero : fs.entries p idx = 0
  · rw [if_pos hzero]
    exact Runs.pure (Or.inl ⟨rfl, hfind.trans hzero, rfl⟩)
  rw [if_neg hzero]
  have hchild : Shrank static fs fs 0 (fs.entries p (idx / ptrsPerBlk ^ 0)) 0
      (idx % ptrsPerBlk ^ 0) (fs.entries p idx) [] := by
    rw [hslot, hrest]
    exact ⟨Frame.refl hmounted, Edit.leaf_free hzero fun _ _ => rfl, Inside.of_zero, trivial, by simp, by simp⟩
  have hclear := clearSlot_spec hnode hidx hchild (by rw [hslot]; simp) (bump allocCnt)
  rw [hslot] at hclear
  dsimp only
  rw [if_pos rfl]
  refine hclear.mono fun result fs' hresult => Or.inr ⟨[], ?_⟩
  rw [hfind, List.length_nil, ← addCnt_bump, addCnt_zero]
  exact ⟨hzero, hresult⟩

theorem walk_free_spec (hmounted : Mounted static fs) (hnode : NodeOk static fs n p) {idx : Nat}
    (hidx : idx < ptrsPerBlk ^ (n + 1)) (allocCnt : Option UInt32) :
    Runs (walk .free n p idx false allocCnt) fs (FreeWalk static fs n p idx allocCnt) := by
  induction n generalizing p idx with
  | zero => exact walk_free_zero hmounted hnode hidx false allocCnt
  | succ n ih =>
    have hslot := slot_lt hidx
    have hfind := find_succ (F := ptrsPerBlk) (c := fs.entries) (n := n + 1) hnode.ne_zero idx
    rw [walk]
    refine Runs.bind_eq (childBlock_run hmounted (by decide) hnode _ allocCnt) ?_
    by_cases hzero : fs.entries p (idx / ptrsPerBlk ^ (n + 1)) = 0
    · rw [if_pos hzero]
      rw [hzero, find_zero_ptr] at hfind
      exact Runs.pure (Or.inl ⟨rfl, hfind, rfl⟩)
    rw [if_neg hzero]
    have hchildOk := hnode.child hslot hzero
    refine Runs.bind (ih hchildOk (rest_lt hidx)) fun result fs₁ hwalk => ?_
    rw [FreeWalk, ← hfind] at hwalk
    obtain ⟨rfl, hnone, rfl⟩ | ⟨gone, hsome, ⟨rfl, hshrank⟩ | ⟨rfl, hemptied⟩⟩ := hwalk
    · exact Runs.pure (Or.inl ⟨rfl, hnone, rfl⟩)
    · refine Runs.pure (Or.inr ⟨gone, hsome, Or.inl ⟨rfl, ?_⟩⟩)
      have hself : fs₁.entries p = fs.entries p :=
        hshrank.edit.frame p hnode.self_used fun hmem =>
          hnode.self_notMem_child hslot (blocks_of_mem_nodes hmem)
      refine Shrank.of_child hnode hidx hshrank (Frame.refl hshrank.frame.mounted)
        (fun _ _ => rfl) ?_ ⟨_, hslot, ?_⟩ fun _ => Iff.rfl
      · rw [hself, Function.update_eq_self]
      · rwa [hself]
    · have husedS : fs₁.Used (fs.entries p (idx / ptrsPerBlk ^ (n + 1))) :=
        (hemptied.used _).mpr ⟨hchildOk.self_used, hemptied.notMem⟩
      refine Runs.bind (hemptied.frame.mounted.freeBlock_spec husedS hchildOk.self_notStatic)
        fun _ fs₂ hdropped => ?_
      have hshrank := hemptied.drop hchildOk.ne_zero hdropped
      refine (clearSlot_spec hnode hidx hshrank (by simp) _).mono
        fun result fs' hresult =>
          Or.inr ⟨fs.entries p (idx / ptrsPerBlk ^ (n + 1)) :: gone, hsome, ?_⟩
      rw [bump_addCnt] at hresult
      exact hresult

end DeprecatOS
