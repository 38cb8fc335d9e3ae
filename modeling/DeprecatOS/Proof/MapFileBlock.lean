import DeprecatOS.Proof.Walk

/-!
# The map of file blocks

`mapSingly`, `mapDoubly` and `mapTriply` are the recursive walk below a block pointer of height 1, 2
and 3, so what `map_file_block` does to the tree of an inode follows from the walk.
-/

namespace DeprecatOS

open Bytes Bits Fault PointerTree

/-! ### The written-out walks are the recursive one -/

structure Rooted where
  status : Status
  field : UInt32
  diskBlk : Option UInt32
  allocCnt : Option UInt32

def mapRoot (n : Nat) (field : UInt32) (idx : Nat) (mode : MapMode) (allocCnt : Option UInt32) :
    FsM Rooted := do
  match ← rootBlock field mode allocCnt with
  | .error failure => pure ⟨failure.status, field, none, allocCnt⟩
  | .ok (p, minted, allocCnt) =>
    match ← walk mode n p idx minted allocCnt with
    | (.empty, allocCnt) => pure ⟨.emptyBlock, p, none, allocCnt⟩
    | (.noSpace, allocCnt) =>
      if minted then
        let _ ← freeBlock p
        pure ⟨.blockError, 0, none, unbump allocCnt⟩
      else pure ⟨.blockError, p, none, allocCnt⟩
    | (.stuck, allocCnt) => pure ⟨.blockError, p, none, allocCnt⟩
    | (.emptied diskBlk, allocCnt) =>
      let _ ← freeBlock p
      pure ⟨.writeSuccess, 0, some diskBlk, bump allocCnt⟩
    | (.done diskBlk, allocCnt) => pure ⟨.writeSuccess, p, some diskBlk, allocCnt⟩

def Rooted.into (setField : UInt32 → Inode) (rooted : Rooted) : Mapped :=
  ⟨rooted.status, setField rooted.field, rooted.diskBlk, rooted.allocCnt⟩

theorem mapSingly_eq (inode : Inode) (relIdx : Nat) (mode : MapMode) (allocCnt : Option UInt32) :
    mapSingly inode relIdx mode allocCnt
      = Rooted.into (fun field => { inode with singlyIndirBlockPtr := field }) <$>
        mapRoot 0 inode.singlyIndirBlockPtr relIdx mode allocCnt := by
  rw [mapSingly, mapRoot, map_bind]
  apply bind_congr
  rintro (failure | ⟨singly, minted, allocCnt⟩)
  · rfl
  · simp only [walk, map_bind, bind_assoc]
    apply bind_congr
    rintro (failure | ⟨entries, allocCnt⟩)
    · cases failure <;> cases minted <;> simp [Rooted.into, MapFailure.status]
    · cases mode with
      | free =>
        cases helem : elementsInside (setPtr entries relIdx 0) <;> simp [Rooted.into, helem]
      | lookup => simp [Rooted.into]
      | alloc => simp [Rooted.into]

theorem mapDoubly_eq (inode : Inode) {relIdx : Nat} (hidx : relIdx < ptrsPerBlk * ptrsPerBlk)
    (mode : MapMode) (allocCnt : Option UInt32) :
    mapDoubly inode relIdx mode allocCnt
      = Rooted.into (fun field => { inode with doublyIndirBlockPtr := field }) <$>
        mapRoot 1 inode.doublyIndirBlockPtr relIdx mode allocCnt := by
  have hslot : relIdx / ptrsPerBlk % ptrsPerBlk = relIdx / ptrsPerBlk :=
    Nat.mod_eq_of_lt (Nat.div_lt_of_lt_mul hidx)
  rw [mapDoubly, mapRoot, map_bind]
  apply bind_congr
  rintro (failure | ⟨doubly, doublyMinted, allocCnt⟩)
  · rfl
  · simp only [walk, map_bind, bind_assoc, Nat.zero_add, pow_one, hslot]
    apply bind_congr
    rintro (failure | ⟨doublyBlk, singlyMinted, allocCnt⟩)
    · cases failure <;> cases doublyMinted <;> simp [Rooted.into, MapFailure.status]
    simp only [bind_assoc]
    apply bind_congr
    rintro (failure | ⟨entries, allocCnt⟩)
    · cases failure <;> cases doublyMinted <;> cases singlyMinted <;> simp [Rooted.into, MapFailure.status]
    · cases mode with
      | free =>
        cases helem : elementsInside (setPtr entries (relIdx % ptrsPerBlk) 0) with
        | true => simp [Rooted.into, helem]
        | false =>
          cases elementsInside (setPtr doublyBlk (relIdx / ptrsPerBlk) 0) <;>
            simp [Rooted.into, helem]
      | lookup => simp [Rooted.into]
      | alloc => simp [Rooted.into]

theorem mapTriply_eq (inode : Inode) {relIdx : Nat} (hidx : relIdx < ptrsPerBlk ^ 3)
    (mode : MapMode) (allocCnt : Option UInt32) :
    mapTriply inode relIdx mode allocCnt
      = Rooted.into (fun field => { inode with triplyIndirBlockPtr := field }) <$>
        mapRoot 2 inode.triplyIndirBlockPtr relIdx mode allocCnt := by
  have hbound : ¬ ptrsPerBlk ≤ relIdx / (ptrsPerBlk * ptrsPerBlk) := by
    rw [not_le]
    exact Nat.div_lt_of_lt_mul hidx
  rw [mapTriply, mapRoot, map_bind]
  apply bind_congr
  rintro (failure | ⟨triply, triplyMinted, allocCnt⟩)
  · rfl
  · simp only [walk, map_bind, bind_assoc, Nat.reduceAdd, pow_one, pow_two, if_neg hbound,
      Nat.mod_mul_right_div_self, Nat.mod_mul_right_mod]
    apply bind_congr
    rintro (failure | ⟨triplyBlk, doublyMinted, allocCnt⟩)
    · cases failure <;> cases triplyMinted <;> simp [Rooted.into, MapFailure.status]
    simp only [bind_assoc]
    apply bind_congr
    rintro (failure | ⟨doublyBlk, singlyMinted, allocCnt⟩)
    · cases failure <;> cases triplyMinted <;> cases doublyMinted <;>
        simp [Rooted.into, MapFailure.status]
    simp only [bind_assoc]
    apply bind_congr
    rintro (failure | ⟨entries, allocCnt⟩)
    · cases failure <;> cases triplyMinted <;> cases doublyMinted <;> cases singlyMinted <;>
        simp [Rooted.into, MapFailure.status]
    · cases mode with
      | free =>
        cases helem : elementsInside (setPtr entries (relIdx % ptrsPerBlk) 0) with
        | true => simp [Rooted.into, helem]
        | false =>
          cases elementsInside (setPtr doublyBlk (relIdx / ptrsPerBlk % ptrsPerBlk) 0) with
          | true => simp [Rooted.into, helem]
          | false =>
            cases elementsInside (setPtr triplyBlk (relIdx / (ptrsPerBlk * ptrsPerBlk)) 0) <;>
              simp [Rooted.into, helem]
      | lookup => simp [Rooted.into]
      | alloc => simp [Rooted.into]

def mapLeaf (field : UInt32) (mode : MapMode) (allocCnt : Option UInt32) : FsM Rooted :=
  if field = 0 then
    if mode ≠ .alloc then pure ⟨.emptyBlock, field, none, allocCnt⟩
    else do
      let blockN ← allocBlock
      if blockN = 0 then pure ⟨.blockError, field, none, allocCnt⟩
      else pure ⟨.writeSuccess, blockN, some blockN, bump allocCnt⟩
  else if mode = .free then pure ⟨.writeSuccess, 0, some field, bump allocCnt⟩
  else pure ⟨.writeSuccess, field, some field, allocCnt⟩

def mapSlot (height : Nat) (field : UInt32) (idx : Nat) (mode : MapMode) (allocCnt : Option UInt32) :
    FsM Rooted :=
  match height with
  | 0 => mapLeaf field mode allocCnt
  | n + 1 => mapRoot n field idx mode allocCnt

def Inode.setRoot (inode : Inode) (r : Nat) (field : UInt32) : Inode :=
  if hr : r < 12 then { inode with dirBlockPtr := Function.update inode.dirBlockPtr ⟨r, hr⟩ field }
  else if r = 12 then { inode with singlyIndirBlockPtr := field }
  else if r = 13 then { inode with doublyIndirBlockPtr := field }
  else { inode with triplyIndirBlockPtr := field }

theorem Inode.setRoot_root (inode : Inode) (r : Nat) (hr : r < 15) :
    inode.setRoot r (inode.root r) = inode := by
  rw [setRoot, root]
  split_ifs with h1 h2 h3 h4
  · rw [Function.update_eq_self]
  · rfl
  · rfl
  · rfl
  · omega

theorem Inode.root_setRoot (inode : Inode) {r : Nat} (hr : r < 15) (field : UInt32) :
    (inode.setRoot r field).root = Function.update inode.root r field := by
  funext k
  rw [Function.update_apply, setRoot]
  by_cases h1 : r < 12
  · simp only [h1, dif_pos]
    by_cases hk : k < 12
    · simp only [root, hk, dif_pos, Function.update_apply, Fin.mk.injEq]
    · have hne : k ≠ r := by omega
      simp only [root, hk, dif_neg, not_false_iff, if_neg hne]
  · simp only [h1, dif_neg, not_false_iff]
    by_cases hk : k < 12
    · have hne : k ≠ r := by omega
      rw [if_neg hne]
      split_ifs <;> simp only [root, hk, dif_pos]
    · simp only [root, hk, dif_neg, not_false_iff]
      split_ifs <;> first | rfl | omega

theorem toNat_add_one {i : UInt32} (hi : i.toNat + 1 < 4294967296) : (i + 1).toNat = i.toNat + 1 := by
  rw [UInt32.toNat_add]
  exact Nat.mod_eq_of_lt hi

theorem locate_lt {idx : Nat} (hidx : idx < fileBlkLimit) :
    (locate idx).1 < 15 ∧ (locate idx).2 < ptrsPerBlk ^ rootHeight (locate idx).1 := by
  rw [fileBlkLimit] at hidx
  rw [locate]
  split_ifs with h1 h2 h3
  · have hheight : rootHeight idx = 0 := by
      rw [rootHeight]
      omega
    refine ⟨by simp only; omega, ?_⟩
    simp [hheight]
  · exact ⟨by simp, by simp only [rootHeight, ptrsPerBlk]; omega⟩
  · exact ⟨by simp, by simp only [rootHeight, ptrsPerBlk]; omega⟩
  · exact ⟨by simp, by simp only [rootHeight, ptrsPerBlk]; omega⟩

theorem mapDirect_eq (inode : Inode) (idx : Fin 12) (mode : MapMode) (allocCnt : Option UInt32) :
    mapDirect inode idx mode allocCnt
      = Rooted.into (inode.setRoot idx) <$> mapLeaf (inode.dirBlockPtr idx) mode allocCnt := by
  have hroot : inode.root idx = inode.dirBlockPtr idx := by simp [Inode.root]
  have hset : ∀ field, inode.setRoot idx field
      = { inode with dirBlockPtr := Function.update inode.dirBlockPtr idx field } := by
    intro field
    simp [Inode.setRoot]
  have hsame : inode.setRoot idx (inode.dirBlockPtr idx) = inode := by
    rw [← hroot]
    exact Inode.setRoot_root inode idx (by omega)
  rw [mapDirect, mapLeaf]
  by_cases hzero : inode.dirBlockPtr idx = 0
  · rw [if_pos hzero, if_pos hzero]
    cases mode with
    | alloc =>
      rw [if_neg (by simp), if_neg (by simp), map_bind]
      apply bind_congr
      intro blockN
      by_cases hblock : blockN = 0
      · simp [hblock, Rooted.into, hsame]
      · simp [hblock, Rooted.into, hset]
    | lookup => simp [Rooted.into, hsame]
    | free => simp [Rooted.into, hsame]
  · rw [if_neg hzero, if_neg hzero]
    cases mode <;> simp [Rooted.into, hsame, hset]

theorem mapFileBlock_eq (inode : Inode) {fileBlkIdx : UInt32} (hidx : fileBlkIdx.toNat < fileBlkLimit)
    (mode : MapMode) (allocCnt : Option UInt32) :
    mapFileBlock inode fileBlkIdx mode allocCnt
      = Rooted.into (inode.setRoot (locate fileBlkIdx.toNat).1) <$>
        mapSlot (rootHeight (locate fileBlkIdx.toNat).1) (inode.root (locate fileBlkIdx.toNat).1)
          (locate fileBlkIdx.toNat).2 mode allocCnt := by
  rw [fileBlkLimit] at hidx
  rw [mapFileBlock, locate]
  by_cases h1 : fileBlkIdx.toNat < 12
  · rw [dif_pos h1, if_pos h1]
    have hheight : rootHeight fileBlkIdx.toNat = 0 := by
      rw [rootHeight]
      omega
    have hroot : inode.root fileBlkIdx.toNat = inode.dirBlockPtr ⟨fileBlkIdx.toNat, h1⟩ := by
      simp [Inode.root, h1]
    simp only [hheight, hroot]
    exact mapDirect_eq inode ⟨fileBlkIdx.toNat, h1⟩ mode allocCnt
  rw [dif_neg h1, if_neg h1]
  dsimp only
  have hdirect : inodeBlkPtrAmt = 12 := rfl
  have hper : ptrsPerBlk = 1024 := rfl
  by_cases h2 : fileBlkIdx.toNat < 1036
  · rw [if_pos (by omega), if_pos h2]
    exact mapSingly_eq inode _ mode allocCnt
  rw [if_neg (by omega), if_neg h2]
  by_cases h3 : fileBlkIdx.toNat < 1049612
  · have hrel : fileBlkIdx.toNat - inodeBlkPtrAmt - ptrsPerBlk = fileBlkIdx.toNat - 1036 := by omega
    rw [hrel, if_pos (by rw [hper]; omega), if_pos h3]
    exact mapDoubly_eq inode (by rw [hper]; omega) mode allocCnt
  · have hrel : fileBlkIdx.toNat - inodeBlkPtrAmt - ptrsPerBlk - ptrsPerBlk * ptrsPerBlk
        = fileBlkIdx.toNat - 1049612 := by
      rw [hper]
      omega
    rw [hrel, if_neg (by rw [hper]; omega), if_neg h3]
    exact mapTriply_eq inode (by rw [hper]; omega) mode allocCnt

/-! ### One block pointer -/

structure SlotOk (static : UInt32 → Prop) (fs : FsInfo) (h : Nat) (p : UInt32) : Prop where
  nodup : (blocks ptrsPerBlk fs.entries h p).Nodup
  used : ∀ b ∈ blocks ptrsPerBlk fs.entries h p, fs.Used b
  notStatic : ∀ b ∈ blocks ptrsPerBlk fs.entries h p, ¬ static b
  full : Full ptrsPerBlk fs.entries h p

def AllocSlot (static : UInt32 → Prop) (fs : FsInfo) (h : Nat) (field : UInt32) (idx : Nat)
    (allocCnt : Option UInt32) (rooted : Rooted) (fs' : FsInfo) : Prop :=
  (rooted = ⟨.blockError, field, none, allocCnt⟩ ∧ Frame static (fun _ => False) fs fs' ∧
    ∀ q, fs'.Used q ↔ fs.Used q) ∨
  ∃ diskBlk field' adds,
    rooted = ⟨.writeSuccess, field', some diskBlk, addCnt adds.length allocCnt⟩ ∧ diskBlk ≠ 0 ∧
    Grew static fs fs' h field field' idx diskBlk adds ∧
    (find ptrsPerBlk fs.entries h field idx ≠ 0 → adds = [] ∧ fs' = fs) ∧
    (field ≠ 0 → field' = field)

def FreeSlot (static : UInt32 → Prop) (fs : FsInfo) (h : Nat) (field : UInt32) (idx : Nat)
    (allocCnt : Option UInt32) (rooted : Rooted) (fs' : FsInfo) : Prop :=
  (rooted = ⟨.emptyBlock, field, none, allocCnt⟩ ∧ find ptrsPerBlk fs.entries h field idx = 0 ∧
    fs' = fs) ∨
  ∃ field' gone, find ptrsPerBlk fs.entries h field idx ≠ 0 ∧
    rooted = ⟨.writeSuccess, field', some (find ptrsPerBlk fs.entries h field idx),
      addCnt (gone.length + 1) allocCnt⟩ ∧
    Shrank static fs fs' h field field' idx (find ptrsPerBlk fs.entries h field idx) gone ∧
    (field' = field ∨ field' = 0)

def LookupSlot (fs : FsInfo) (h : Nat) (field : UInt32) (idx : Nat) (allocCnt : Option UInt32)
    (rooted : Rooted) (fs' : FsInfo) : Prop :=
  rooted = (if find ptrsPerBlk fs.entries h field idx = 0 then ⟨.emptyBlock, field, none, allocCnt⟩
    else ⟨.writeSuccess, field, some (find ptrsPerBlk fs.entries h field idx), allocCnt⟩) ∧ fs' = fs

section Slots

variable {static : UInt32 → Prop} {fs : FsInfo} {n h : Nat} {field : UInt32} {idx : Nat}
  (hmounted : Mounted static fs) (allocCnt : Option UInt32)

theorem SlotOk.node (hslot : SlotOk static fs (n + 1) field) (hne : field ≠ 0) :
    NodeOk static fs n field where
  ne_zero := hne
  nodup := hslot.nodup
  used := hslot.used
  notStatic := hslot.notStatic
  full := by
    obtain hzero | ⟨-, hall⟩ := hslot.full
    · exact absurd hzero hne
    · exact hall

include hmounted

theorem rootBlock_alloc_spec (field : UInt32) :
    Runs (rootBlock field .alloc allocCnt) fs fun result fs' =>
      (field = 0 ∧ result = .error .blockError ∧ fs' = fs) ∨
      (field ≠ 0 ∧ result = .ok (field, false, allocCnt) ∧ fs' = fs) ∨
      ∃ blockN, field = 0 ∧ Zeroed static (fun _ => False) fs fs' blockN ∧
        result = .ok (blockN, true, bump allocCnt) := by
  rw [rootBlock]
  by_cases hzero : field = 0
  · rw [if_pos hzero, if_neg (by simp)]
    refine Runs.bind hmounted.allocBlock_spec fun blockN fs₁ halloc => ?_
    obtain ⟨rfl, rfl⟩ | htook := halloc
    · exact Runs.pure (Or.inl ⟨hzero, rfl, rfl⟩)
    rw [if_neg htook.ne_zero]
    refine Runs.bind (htook.frame.mounted.writeBlock_spec ((htook.used _).mpr (Or.inr rfl))
      htook.notStatic _) fun _ fs' hwrote => Runs.pure ?_
    refine Or.inr (Or.inr ⟨blockN, hzero, ⟨?_, htook.fresh, htook.ne_zero, htook.notStatic, ?_, ?_⟩,
      rfl⟩)
    · refine htook.frame.trans hwrote.frame ?_
      rintro b hb rfl
      exact htook.fresh hb
    · intro q
      rw [hwrote.used, htook.used]
    · rw [hwrote.data, Function.update_self]
  · rw [if_neg hzero]
    exact Runs.pure (Or.inr (Or.inl ⟨hzero, rfl, rfl⟩))

theorem mapRoot_alloc_spec (hslot : SlotOk static fs (n + 1) field)
    (hidx : idx < ptrsPerBlk ^ (n + 1)) :
    Runs (mapRoot n field idx .alloc allocCnt) fs
      (AllocSlot static fs (n + 1) field idx allocCnt) := by
  rw [mapRoot]
  refine Runs.bind (rootBlock_alloc_spec hmounted allocCnt field) fun result fs₁ hroot => ?_
  obtain ⟨-, rfl, rfl⟩ | ⟨hne, rfl, rfl⟩ | ⟨blockN, rfl, hnew, rfl⟩ := hroot
  · exact Runs.pure (Or.inl ⟨rfl, Frame.refl hmounted, fun _ => Iff.rfl⟩)
  · refine Runs.bind (walk_alloc_spec hmounted (hslot.node hne) hidx (by simp) allocCnt)
      fun result fs' hwalk => ?_
    obtain ⟨rfl | ⟨-, rfl⟩, hframe, hused⟩ | ⟨diskBlk, adds, rfl, hdisk, hgrew, hsame⟩ := hwalk
    · exact Runs.pure (Or.inl ⟨rfl, hframe.mono (by simp), hused⟩)
    · exact Runs.pure (Or.inl ⟨rfl, hframe.mono (by simp), hused⟩)
    · exact Runs.pure (Or.inr ⟨diskBlk, field, adds, rfl, hdisk, hgrew, hsame, fun _ => rfl⟩)
  · refine Runs.bind (walk_alloc_spec hnew.frame.mounted hnew.nodeOk hidx
      (fun _ k _ => hnew.entries_eq k) (bump allocCnt)) fun result fs₂ hwalk => ?_
    obtain ⟨rfl | ⟨hfalse, -⟩, hframe, hused⟩ | ⟨diskBlk, adds, rfl, hdisk, hgrew, -⟩ := hwalk
    · have husedN : fs₂.Used blockN := (hused blockN).mpr ((hnew.used blockN).mpr (Or.inr rfl))
      refine Runs.bind (hframe.mounted.freeBlock_spec husedN hnew.notStatic)
        fun _ fs₃ hdropped => Runs.pure (Or.inl ?_)
      rw [unbump_bump]
      exact ⟨rfl, hnew.undo hframe hused hdropped⟩
    · cases hfalse
    · refine Runs.pure (Or.inr ⟨diskBlk, blockN, blockN :: adds, ?_, hdisk, ?_, by simp, by simp⟩)
      · rw [addCnt_bump]
        rfl
      · refine ⟨?_, ?_, Inside.of_zero, hgrew.full, ?_, ?_, ?_⟩
        · refine (hnew.frame.mono (by simp)).trans hgrew.frame fun q hq hmem => ?_
          rw [hnew.eq_of_mem_nodes hmem] at hq
          exact absurd hq hnew.fresh
        · refine hgrew.edit.of_empty hnew.ne_zero (fun k _ => hnew.entries_eq k) fun q hq => ?_
          refine ⟨(hnew.used q).mpr (Or.inl hq), ?_, ?_⟩
          · rintro rfl
            exact hnew.fresh hq
          · exact FsInfo.entries_congr (hnew.frame.data q hq (by simp))
        · intro b hb
          obtain rfl | hmem := List.mem_cons.mp hb
          · exact hnew.fresh
          · exact fun hused => hgrew.fresh b hmem ((hnew.used b).mpr (Or.inl hused))
        · refine List.nodup_cons.mpr ⟨fun hmem => ?_, hgrew.nodup⟩
          exact hgrew.fresh blockN hmem ((hnew.used blockN).mpr (Or.inr rfl))
        · intro b
          rw [hgrew.used, hnew.used, List.mem_cons, or_assoc]

theorem mapLeaf_alloc_spec (field : UInt32) :
    Runs (mapLeaf field .alloc allocCnt) fs (AllocSlot static fs 0 field 0 allocCnt) := by
  rw [mapLeaf]
  by_cases hzero : field = 0
  · rw [if_pos hzero, if_neg (by simp)]
    refine Runs.bind hmounted.allocBlock_spec fun blockN fs' halloc => ?_
    obtain ⟨rfl, rfl⟩ | htook := halloc
    · exact Runs.pure (Or.inl ⟨rfl, Frame.refl hmounted, fun _ => Iff.rfl⟩)
    rw [if_neg htook.ne_zero]
    refine Runs.pure (Or.inr ⟨blockN, blockN, [blockN], ?_, htook.ne_zero, ?_, ?_, ?_⟩)
    · rw [List.length_singleton, ← addCnt_bump, addCnt_zero]
    · refine ⟨htook.frame.mono (by simp), ?_, Or.inl hzero, trivial, ?_, List.nodup_singleton _, ?_⟩
      · rw [hzero]
        exact Edit.leaf_alloc htook.ne_zero fun q hq => FsInfo.entries_congr (congrFun htook.data q)
      · intro b hb
        rw [List.mem_singleton.mp hb]
        exact htook.fresh
      · intro b
        rw [htook.used, List.mem_singleton]
    · intro hne
      exact absurd hzero hne
    · intro hne
      exact absurd hzero hne
  · rw [if_neg hzero, if_neg (by simp)]
    refine Runs.pure (Or.inr ⟨field, field, [], ?_, hzero, ?_, fun _ => ⟨rfl, rfl⟩, fun _ => rfl⟩)
    · rw [List.length_nil, addCnt_zero]
    · exact Grew.refl (n := 0) (p := field) hmounted trivial 0

theorem mapLeaf_free_spec (field : UInt32) :
    Runs (mapLeaf field .free allocCnt) fs (FreeSlot static fs 0 field 0 allocCnt) := by
  rw [mapLeaf]
  by_cases hzero : field = 0
  · rw [if_pos hzero, if_pos (by simp)]
    exact Runs.pure (Or.inl ⟨rfl, hzero, rfl⟩)
  · rw [if_neg hzero, if_pos rfl]
    refine Runs.pure (Or.inr ⟨0, [], hzero, ?_, ?_, Or.inr rfl⟩)
    · rw [List.length_nil, ← addCnt_bump, addCnt_zero]
      rfl
    · exact ⟨Frame.refl hmounted, Edit.leaf_free hzero fun _ _ => rfl, Inside.of_zero, trivial, by simp, by simp⟩

omit hmounted in
theorem mapLeaf_lookup_spec (field : UInt32) :
    Runs (mapLeaf field .lookup allocCnt) fs (LookupSlot fs 0 field 0 allocCnt) := by
  rw [mapLeaf]
  by_cases hzero : field = 0
  · rw [if_pos hzero, if_pos (by simp)]
    exact Runs.pure ⟨(if_pos hzero).symm, rfl⟩
  · rw [if_neg hzero, if_neg (by simp)]
    exact Runs.pure ⟨(if_neg hzero).symm, rfl⟩

theorem mapRoot_lookup_spec (hslot : SlotOk static fs (n + 1) field)
    (hidx : idx < ptrsPerBlk ^ (n + 1)) :
    Runs (mapRoot n field idx .lookup allocCnt) fs (LookupSlot fs (n + 1) field idx allocCnt) := by
  rw [mapRoot, rootBlock]
  by_cases hzero : field = 0
  · rw [if_pos hzero, if_pos (by simp)]
    refine Runs.pure ⟨(if_pos ?_).symm, rfl⟩
    rw [hzero, find_zero_ptr]
  · rw [if_neg hzero]
    refine Runs.bind_eq (run_pure _ _) ?_
    refine Runs.bind (walk_lookup_spec hmounted (hslot.node hzero) hidx false allocCnt) ?_
    rintro result fs' ⟨rfl, rfl⟩
    by_cases hfind : find ptrsPerBlk fs'.entries (n + 1) field idx = 0
    · rw [if_pos hfind]
      exact Runs.pure ⟨(if_pos hfind).symm, rfl⟩
    · rw [if_neg hfind]
      exact Runs.pure ⟨(if_neg hfind).symm, rfl⟩

theorem mapRoot_free_spec (hslot : SlotOk static fs (n + 1) field)
    (hidx : idx < ptrsPerBlk ^ (n + 1)) :
    Runs (mapRoot n field idx .free allocCnt) fs (FreeSlot static fs (n + 1) field idx allocCnt) := by
  rw [mapRoot, rootBlock]
  by_cases hzero : field = 0
  · rw [if_pos hzero, if_pos (by simp)]
    refine Runs.pure (Or.inl ⟨rfl, ?_, rfl⟩)
    rw [hzero, find_zero_ptr]
  · rw [if_neg hzero]
    have hnode := hslot.node hzero
    refine Runs.bind_eq (run_pure _ _) ?_
    refine Runs.bind (walk_free_spec hmounted hnode hidx allocCnt) fun result fs₁ hwalk => ?_
    obtain ⟨rfl, hnone, rfl⟩ | ⟨gone, hsome, ⟨rfl, hshrank⟩ | ⟨rfl, hemptied⟩⟩ := hwalk
    · exact Runs.pure (Or.inl ⟨rfl, hnone, rfl⟩)
    · exact Runs.pure (Or.inr ⟨field, gone, hsome, rfl, hshrank, Or.inl rfl⟩)
    · have husedP : fs₁.Used field := (hemptied.used field).mpr ⟨hnode.self_used, hemptied.notMem⟩
      refine Runs.bind (hemptied.frame.mounted.freeBlock_spec husedP hnode.self_notStatic)
        fun _ fs' hdropped => Runs.pure (Or.inr ⟨0, field :: gone, hsome, ?_, ?_, Or.inr rfl⟩)
      · rw [bump_addCnt]
        rfl
      · exact hemptied.drop hzero hdropped

theorem mapSlot_alloc_spec (hslot : SlotOk static fs h field) (hidx : idx < ptrsPerBlk ^ h) :
    Runs (mapSlot h field idx .alloc allocCnt) fs (AllocSlot static fs h field idx allocCnt) := by
  cases h with
  | zero =>
    rw [pow_zero, Nat.lt_one_iff] at hidx
    rw [hidx]
    exact mapLeaf_alloc_spec hmounted allocCnt field
  | succ n => exact mapRoot_alloc_spec hmounted allocCnt hslot hidx

theorem mapSlot_free_spec (hslot : SlotOk static fs h field) (hidx : idx < ptrsPerBlk ^ h) :
    Runs (mapSlot h field idx .free allocCnt) fs (FreeSlot static fs h field idx allocCnt) := by
  cases h with
  | zero =>
    rw [pow_zero, Nat.lt_one_iff] at hidx
    rw [hidx]
    exact mapLeaf_free_spec hmounted allocCnt field
  | succ n => exact mapRoot_free_spec hmounted allocCnt hslot hidx

theorem mapSlot_lookup_spec (hslot : SlotOk static fs h field) (hidx : idx < ptrsPerBlk ^ h) :
    Runs (mapSlot h field idx .lookup allocCnt) fs (LookupSlot fs h field idx allocCnt) := by
  cases h with
  | zero =>
    rw [pow_zero, Nat.lt_one_iff] at hidx
    rw [hidx]
    exact mapLeaf_lookup_spec allocCnt field
  | succ n => exact mapRoot_lookup_spec hmounted allocCnt hslot hidx

end Slots

end DeprecatOS
