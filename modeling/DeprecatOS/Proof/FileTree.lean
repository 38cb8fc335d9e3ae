import DeprecatOS.Proof.Allocation
import DeprecatOS.Proof.Bookkeeping
import DeprecatOS.Proof.MapFileBlock

/-!
# What `map_file_block` does to the tree of an inode

A call changes the tree below one of the fifteen block pointers of an inode. Its effect on the whole
tree is one index mapped or unmapped, some pointer blocks taken or dropped, and nothing else in use
touched.
-/

namespace DeprecatOS

open Bytes Bits Fault PointerTree

/-- The tree of `inode` grew into that of `inode'`: one index is mapped to `diskBlk`, and `adds` are the
blocks that were allocated for it. -/
structure TreeGrew (static : UInt32 → Prop) (fs fs' : FsInfo) (inode inode' : Inode) (idx : Nat)
    (diskBlk : UInt32) (adds : List UInt32) : Prop where
  tree : TreeOk static fs' inode'
  frame : Frame static (IsNode fs.entries inode) fs fs'
  perm : (refs fs'.entries inode').Perm (adds ++ refs fs.entries inode)
  mapped_eq : ∀ j < fileBlkLimit,
    mapped fs'.entries inode' j = if j = idx then diskBlk else mapped fs.entries inode j
  fresh : ∀ b ∈ adds, ¬ fs.Used b
  nodup : adds.Nodup
  used : ∀ b, fs'.Used b ↔ fs.Used b ∨ b ∈ adds
  fields : inode'.clearPtrs = inode.clearPtrs
  roots : ∀ r < 15, inode.root r ≠ 0 → inode'.root r = inode.root r

/-- The tree of `inode` shrank into that of `inode'`: one index is unmapped from `diskBlk`, and `gone`
are the pointer blocks that lost their last entry and were released. -/
structure TreeShrank (static : UInt32 → Prop) (fs fs' : FsInfo) (inode inode' : Inode) (idx : Nat)
    (diskBlk : UInt32) (gone : List UInt32) : Prop where
  tree : TreeOk static fs' inode'
  frame : Frame static (IsNode fs.entries inode) fs fs'
  perm : (refs fs'.entries inode' ++ diskBlk :: gone).Perm (refs fs.entries inode)
  mapped_eq : ∀ j < fileBlkLimit,
    mapped fs'.entries inode' j = if j = idx then 0 else mapped fs.entries inode j
  emptied : ∀ q ∈ gone, IsNode fs.entries inode q ∧
    ∀ k < ptrsPerBlk, fs.entries q k ∈ 0 :: diskBlk :: gone
  used : ∀ b, fs'.Used b ↔ fs.Used b ∧ b ∉ gone
  fields : inode'.clearPtrs = inode.clearPtrs
  roots : ∀ r < 15, inode'.root r = inode.root r ∨ inode'.root r = 0

/-- Every block pointer and every entry of a pointer block of the tree of `inode` is still there in that of `inode'`. -/
def Within (c c' : Store UInt32) (inode inode' : Inode) : Prop :=
  ∀ r < 15, Inside ptrsPerBlk c c' (rootHeight r) (inode.root r) (inode'.root r)

theorem locate_inj {i j : Nat} (hslot : (locate i).1 = (locate j).1) (hrest : (locate i).2 = (locate j).2) :
    i = j := by
  simp only [locate] at hslot hrest
  split_ifs at hslot hrest <;> simp only at hslot hrest <;> omega

theorem isNode_mem_refs {c : Store UInt32} {inode : Inode} {b : UInt32} (hb : IsNode c inode b) :
    b ∈ refs c inode := by
  obtain ⟨r, hr, hnode⟩ := hb
  exact mem_forest.mpr ⟨r, hr, blocks_of_mem_nodes hnode⟩

theorem Inode.clearPtrs_setRoot (inode : Inode) (r : Nat) (field : UInt32) :
    (inode.setRoot r field).clearPtrs = inode.clearPtrs := by
  rw [setRoot]
  split_ifs <;> rfl

/-! The tree of an inode depends on its block pointers only. -/

theorem mapped_mem_refs {c : Store UInt32} {inode : Inode} {j : Nat} (hj : j < fileBlkLimit)
    (hne : mapped c inode j ≠ 0) : mapped c inode j ∈ refs c inode :=
  mem_forest.mpr ⟨_, (locate_lt hj).1, find_mem_blocks (locate_lt hj).2 hne⟩

theorem refs_of_root {inode inode' : Inode} (hroot : inode'.root = inode.root) (c : Store UInt32) :
    refs c inode' = refs c inode := by
  rw [refs, refs, hroot]

theorem mapped_of_root {inode inode' : Inode} (hroot : inode'.root = inode.root) (c : Store UInt32)
    (j : Nat) : mapped c inode' j = mapped c inode j := by
  rw [mapped, mapped, hroot]

namespace Within

variable {c c' c'' : Store UInt32} {inode inode' inode'' : Inode}

theorem trans (hfirst : Within c c' inode inode') (hsecond : Within c' c'' inode' inode'') :
    Within c c'' inode inode'' :=
  fun r hr => (hfirst r hr).trans (hsecond r hr)

theorem mem_refs (hwithin : Within c c' inode inode') {b : UInt32} (hb : b ∈ refs c inode) : b ∈ refs c' inode' := by
  obtain ⟨r, hr, hmem⟩ := mem_forest.mp hb
  exact mem_forest.mpr ⟨r, hr, (hwithin r hr).mem_blocks hmem⟩

theorem of_same (hsame : ∀ q, IsNode c inode q → c' q = c q) : Within c c' inode inode ∧ Within c' c inode inode :=
  ⟨fun r hr => (Inside.of_same fun q hq => hsame q ⟨r, hr, hq⟩).1,
    fun r hr => (Inside.of_same fun q hq => hsame q ⟨r, hr, hq⟩).2⟩

end Within

theorem TreeOk.of_root {static : UInt32 → Prop} {fs : FsInfo} {inode inode' : Inode} (htree : TreeOk static fs inode)
    (hroot : inode'.root = inode.root) : TreeOk static fs inode' where
  nodup := refs_of_root hroot _ ▸ htree.nodup
  used := refs_of_root hroot _ ▸ htree.used
  notStatic := refs_of_root hroot _ ▸ htree.notStatic
  full := hroot ▸ htree.full

section OneSlot

variable {static : UInt32 → Prop} {fs fs' : FsInfo} {inode : Inode}

theorem TreeOk.slot (htree : TreeOk static fs inode) {r : Nat} (hr : r < 15) :
    SlotOk static fs (rootHeight r) (inode.root r) where
  nodup := nodup_of_forest htree.nodup hr
  used b hb := htree.used b (mem_forest.mpr ⟨r, hr, hb⟩)
  notStatic b hb := htree.notStatic b (mem_forest.mpr ⟨r, hr, hb⟩)
  full := htree.full r hr

variable (htree : TreeOk static fs inode) {r : Nat} (hr : r < 15) {field : UInt32} {o : Nat}
  {b : UInt32} {adds dels : List UInt32}
  (hedit : Edit ptrsPerBlk fs.Used fs.entries fs'.entries (rootHeight r) (inode.root r) field o b adds
    dels)

include htree hr hedit

theorem refs_setRoot :
    (refs fs'.entries (inode.setRoot r field) ++ dels).Perm (adds ++ refs fs.entries inode) := by
  rw [refs, Inode.root_setRoot inode hr]
  exact Edit.perm_forest hr hedit htree.nodup htree.used

theorem within_setRoot_grown
    (hinside : Inside ptrsPerBlk fs.entries fs'.entries (rootHeight r) (inode.root r) field) :
    Within fs.entries fs'.entries inode (inode.setRoot r field) := by
  intro k hk
  rw [Inode.root_setRoot inode hr]
  by_cases hkr : k = r
  · rw [hkr, Function.update_self]
    exact hinside
  · rw [Function.update_of_ne hkr]
    exact (Inside.of_same (Edit.frame_forest hr hedit htree.nodup htree.used hk hkr)).1

theorem within_setRoot_shrunk
    (hinside : Inside ptrsPerBlk fs'.entries fs.entries (rootHeight r) field (inode.root r)) :
    Within fs'.entries fs.entries (inode.setRoot r field) inode := by
  intro k hk
  rw [Inode.root_setRoot inode hr]
  by_cases hkr : k = r
  · rw [hkr, Function.update_self]
    exact hinside
  · rw [Function.update_of_ne hkr]
    exact (Inside.of_same (Edit.frame_forest hr hedit htree.nodup htree.used hk hkr)).2

theorem full_setRoot (hfull : Full ptrsPerBlk fs'.entries (rootHeight r) field) :
    ∀ k < 15, Full ptrsPerBlk fs'.entries (rootHeight k) ((inode.setRoot r field).root k) := by
  intro k hk
  rw [Inode.root_setRoot inode hr]
  by_cases hkr : k = r
  · rw [hkr, Function.update_self]
    exact hfull
  · rw [Function.update_of_ne hkr]
    exact full_congr (Edit.frame_forest hr hedit htree.nodup htree.used hk hkr) (htree.full k hk)

theorem mapped_setRoot {idx : Nat} (hlocate : locate idx = (r, o)) {j : Nat} (hj : j < fileBlkLimit) :
    mapped fs'.entries (inode.setRoot r field) j
      = if j = idx then b else mapped fs.entries inode j := by
  obtain ⟨hk, hrest⟩ := locate_lt hj
  rw [mapped, mapped, Inode.root_setRoot inode hr]
  by_cases hkr : (locate j).1 = r
  · rw [hkr] at hrest
    rw [hkr, Function.update_self, hedit.find_eq _ hrest]
    refine if_congr ?_ rfl rfl
    constructor
    · intro ho
      exact locate_inj (by rw [hkr, hlocate]) (by rw [ho, hlocate])
    · rintro rfl
      rw [hlocate]
  · have hne : j ≠ idx := by
      rintro rfl
      exact hkr (by rw [hlocate])
    rw [Function.update_of_ne hkr, if_neg hne]
    exact find_congr (Edit.frame_forest hr hedit htree.nodup htree.used hk hkr) hrest

end OneSlot

section Calls

variable {static : UInt32 → Prop} {fs fs' : FsInfo} {inode : Inode} (hmounted : Mounted static fs)
  (htree : TreeOk static fs inode)

include hmounted htree

theorem TreeGrew.of_slot {idx : Nat} (hidx : idx < fileBlkLimit) {field diskBlk : UInt32}
    {adds : List UInt32}
    (hgrew : Grew static fs fs' (rootHeight (locate idx).1) (inode.root (locate idx).1) field
      (locate idx).2 diskBlk adds)
    (hroot : inode.root (locate idx).1 ≠ 0 → field = inode.root (locate idx).1) :
    TreeGrew static fs fs' inode (inode.setRoot (locate idx).1 field) idx diskBlk adds := by
  have hr := (locate_lt hidx).1
  have hperm := refs_setRoot htree hr hgrew.edit
  rw [List.append_nil] at hperm
  refine ⟨⟨?_, ?_, ?_, ?_⟩, ?_, hperm, ?_, hgrew.fresh, hgrew.nodup, hgrew.used,
    Inode.clearPtrs_setRoot _ _ _, ?_⟩
  · rw [hperm.nodup_iff]
    refine List.nodup_append'.mpr ⟨hgrew.nodup, htree.nodup, ?_⟩
    intro b hadd hold
    exact hgrew.fresh b hadd (htree.used b hold)
  · intro b hb
    rw [hgrew.used]
    obtain hadd | hold := List.mem_append.mp (hperm.mem_iff.mp hb)
    · exact Or.inr hadd
    · exact Or.inl (htree.used b hold)
  · intro b hb hstatic
    obtain hadd | hold := List.mem_append.mp (hperm.mem_iff.mp hb)
    · exact hgrew.fresh b hadd (hmounted.used b hstatic)
    · exact htree.notStatic b hold hstatic
  · exact full_setRoot htree hr hgrew.edit hgrew.full
  · exact hgrew.frame.mono fun q hq => ⟨_, hr, hq⟩
  · exact fun j hj => mapped_setRoot htree hr hgrew.edit rfl hj
  · intro k hk hne
    rw [Inode.root_setRoot inode hr, Function.update_apply]
    split_ifs with hkr
    · rw [hkr] at hne ⊢
      exact hroot hne
    · rfl

omit hmounted in
theorem TreeShrank.of_slot {idx : Nat} (hidx : idx < fileBlkLimit) {field diskBlk : UInt32}
    {gone : List UInt32}
    (hshrank : Shrank static fs fs' (rootHeight (locate idx).1) (inode.root (locate idx).1) field
      (locate idx).2 diskBlk gone)
    (hroot : field = inode.root (locate idx).1 ∨ field = 0) :
    TreeShrank static fs fs' inode (inode.setRoot (locate idx).1 field) idx diskBlk gone := by
  have hr := (locate_lt hidx).1
  have hperm := refs_setRoot htree hr hshrank.edit
  rw [List.nil_append] at hperm
  have hsub : ∀ b ∈ refs fs'.entries (inode.setRoot (locate idx).1 field),
      b ∈ refs fs.entries inode ∧ b ∉ gone := by
    intro b hb
    refine ⟨hperm.mem_iff.mp (List.mem_append_left _ hb), fun hgone => ?_⟩
    have hnodup := hperm.nodup_iff.mpr htree.nodup
    exact (List.nodup_append'.mp hnodup).2.2 hb (List.mem_cons_of_mem _ hgone)
  refine ⟨⟨?_, ?_, ?_, ?_⟩, ?_, hperm, ?_, ?_, hshrank.used, Inode.clearPtrs_setRoot _ _ _, ?_⟩
  · exact (hperm.nodup_iff.mpr htree.nodup).of_append_left
  · intro b hb
    exact (hshrank.used b).mpr ⟨htree.used b (hsub b hb).1, (hsub b hb).2⟩
  · exact fun b hb => htree.notStatic b (hsub b hb).1
  · exact full_setRoot htree hr hshrank.edit hshrank.full
  · exact hshrank.frame.mono fun q hq => ⟨_, hr, hq⟩
  · exact fun j hj => mapped_setRoot htree hr hshrank.edit rfl hj
  · intro q hq
    exact ⟨⟨_, hr, (hshrank.emptied q hq).1⟩, (hshrank.emptied q hq).2⟩
  · intro k hk
    rw [Inode.root_setRoot inode hr, Function.update_apply]
    split_ifs with hkr
    · rw [hkr]
      exact hroot
    · exact Or.inl rfl

omit hmounted in
theorem TreeOk.of_data (hused : ∀ b ∈ refs fs.entries inode, fs'.Used b)
    (hdata : ∀ b, IsNode fs.entries inode b → fs'.data b = fs.data b) :
    TreeOk static fs' inode ∧ refs fs'.entries inode = refs fs.entries inode ∧
      ∀ j < fileBlkLimit, mapped fs'.entries inode j = mapped fs.entries inode j := by
  have hsame : ∀ r < 15, ∀ q ∈ nodes ptrsPerBlk fs.entries (rootHeight r) (inode.root r),
      fs'.entries q = fs.entries q := fun r hr q hq =>
    FsInfo.entries_congr (hdata q ⟨r, hr, hq⟩)
  have hrefs : refs fs'.entries inode = refs fs.entries inode := by
    rw [refs, refs, forest, forest]
    apply List.flatMap_congr
    intro r hr
    exact blocks_congr (hsame r (List.mem_range.mp hr))
  refine ⟨⟨?_, ?_, ?_, ?_⟩, hrefs, ?_⟩
  · rw [hrefs]
    exact htree.nodup
  · rw [hrefs]
    exact hused
  · rw [hrefs]
    exact htree.notStatic
  · exact fun r hr => full_congr (hsame r hr) (htree.full r hr)
  · intro j hj
    exact find_congr (hsame _ (locate_lt hj).1) (locate_lt hj).2

omit hmounted in
theorem TreeOk.of_frame {touched : UInt32 → Prop} (hframe : Frame static touched fs fs')
    (huntouched : ∀ b ∈ refs fs.entries inode, ¬ touched b) :
    TreeOk static fs' inode ∧ refs fs'.entries inode = refs fs.entries inode ∧
      ∀ j < fileBlkLimit, mapped fs'.entries inode j = mapped fs.entries inode j :=
  htree.of_data (fun b hb => hframe.used b (htree.used b hb) (huntouched b hb)) fun b hb =>
    have hmem := isNode_mem_refs hb
    hframe.data b (htree.used b hmem) (huntouched b hmem)

end Calls

/-! ### The three modes -/

def LookupCall (fs : FsInfo) (inode : Inode) (idx : Nat) (allocCnt : Option UInt32) (call : Mapped)
    (fs' : FsInfo) : Prop :=
  fs' = fs ∧ call = if mapped fs.entries inode idx = 0 then ⟨.emptyBlock, inode, none, allocCnt⟩
    else ⟨.writeSuccess, inode, some (mapped fs.entries inode idx), allocCnt⟩

/-- An allocating call maps the index, with nothing to do when it is mapped already; a failed one
leaves the inode, the blocks in use and their contents as they were. -/
def AllocCall (static : UInt32 → Prop) (fs : FsInfo) (inode : Inode) (idx : Nat)
    (allocCnt : Option UInt32) (call : Mapped) (fs' : FsInfo) : Prop :=
  (call = ⟨.blockError, inode, none, allocCnt⟩ ∧ Frame static (fun _ => False) fs fs' ∧
    (∀ q, fs'.Used q ↔ fs.Used q) ∧ TreeOk static fs' inode) ∨
  ∃ diskBlk adds, call.status = .writeSuccess ∧ call.diskBlk = some diskBlk ∧ diskBlk ≠ 0 ∧
    call.allocCnt = addCnt adds.length allocCnt ∧
    TreeGrew static fs fs' inode call.inode idx diskBlk adds ∧
    (mapped fs.entries inode idx ≠ 0 → adds = [] ∧ fs' = fs ∧ call.inode = inode)

/-- A releasing call unmaps the index and hands its data block to the caller; it releases the pointer
blocks that are left without entries. -/
def FreeCall (static : UInt32 → Prop) (fs : FsInfo) (inode : Inode) (idx : Nat)
    (allocCnt : Option UInt32) (call : Mapped) (fs' : FsInfo) : Prop :=
  (mapped fs.entries inode idx = 0 ∧ call = ⟨.emptyBlock, inode, none, allocCnt⟩ ∧ fs' = fs) ∨
  ∃ gone, mapped fs.entries inode idx ≠ 0 ∧ call.status = .writeSuccess ∧
    call.diskBlk = some (mapped fs.entries inode idx) ∧
    call.allocCnt = addCnt (gone.length + 1) allocCnt ∧
    TreeShrank static fs fs' inode call.inode idx (mapped fs.entries inode idx) gone

section Modes

variable {static : UInt32 → Prop} {fs : FsInfo} {inode : Inode} (hmounted : Mounted static fs)
  (htree : TreeOk static fs inode) {fileBlkIdx : UInt32} (hidx : fileBlkIdx.toNat < fileBlkLimit)
  (allocCnt : Option UInt32)

include hmounted htree hidx

theorem mapFileBlock_lookup_spec :
    Runs (mapFileBlock inode fileBlkIdx .lookup allocCnt) fs
      (LookupCall fs inode fileBlkIdx.toNat allocCnt) := by
  obtain ⟨hr, ho⟩ := locate_lt hidx
  rw [mapFileBlock_eq inode hidx]
  obtain ⟨rooted, fs', hrun, rfl, rfl⟩ := mapSlot_lookup_spec hmounted allocCnt (htree.slot hr) ho
  refine Runs.of_eq (run_map_ok hrun) ⟨rfl, ?_⟩
  rw [mapped]
  split_ifs
  · rw [Rooted.into, Inode.setRoot_root inode _ hr]
  · rw [Rooted.into, Inode.setRoot_root inode _ hr]

theorem mapFileBlock_alloc_within :
    Runs (mapFileBlock inode fileBlkIdx .alloc allocCnt) fs fun call fs' =>
      AllocCall static fs inode fileBlkIdx.toNat allocCnt call fs' ∧
        Within fs.entries fs'.entries inode call.inode := by
  obtain ⟨hr, ho⟩ := locate_lt hidx
  rw [mapFileBlock_eq inode hidx]
  obtain ⟨rooted, fs', hrun, hslot⟩ := mapSlot_alloc_spec hmounted allocCnt (htree.slot hr) ho
  refine Runs.of_eq (run_map_ok hrun) ?_
  obtain ⟨rfl, hframe, hused⟩ | ⟨diskBlk, field, adds, rfl, hdisk, hgrew, hsame, hroot⟩ := hslot
  · rw [Rooted.into, Inode.setRoot_root inode _ hr]
    refine ⟨Or.inl ⟨rfl, hframe, hused, (htree.of_frame hframe (by simp)).1⟩, (Within.of_same fun q hq => ?_).1⟩
    exact FsInfo.entries_congr (hframe.data q (htree.used q (isNode_mem_refs hq)) not_false)
  · refine ⟨Or.inr ⟨diskBlk, adds, rfl, rfl, hdisk, rfl, TreeGrew.of_slot hmounted htree hidx hgrew hroot,
      fun hmapped => ⟨(hsame hmapped).1, (hsame hmapped).2, ?_⟩⟩,
      within_setRoot_grown htree hr hgrew.edit hgrew.inside⟩
    have hne : inode.root (locate fileBlkIdx.toNat).1 ≠ 0 := by
      intro hzero
      rw [mapped, hzero, find_zero_ptr] at hmapped
      exact hmapped rfl
    rw [Rooted.into, hroot hne, Inode.setRoot_root inode _ hr]

theorem mapFileBlock_alloc_spec :
    Runs (mapFileBlock inode fileBlkIdx .alloc allocCnt) fs
      (AllocCall static fs inode fileBlkIdx.toNat allocCnt) :=
  (mapFileBlock_alloc_within hmounted htree hidx allocCnt).mono fun _ _ hcall => hcall.1

theorem mapFileBlock_free_within :
    Runs (mapFileBlock inode fileBlkIdx .free allocCnt) fs fun call fs' =>
      FreeCall static fs inode fileBlkIdx.toNat allocCnt call fs' ∧
        Within fs'.entries fs.entries call.inode inode := by
  obtain ⟨hr, ho⟩ := locate_lt hidx
  rw [mapFileBlock_eq inode hidx]
  obtain ⟨rooted, fs', hrun, hslot⟩ := mapSlot_free_spec hmounted allocCnt (htree.slot hr) ho
  refine Runs.of_eq (run_map_ok hrun) ?_
  obtain ⟨rfl, hnone, rfl⟩ | ⟨field, gone, hsome, rfl, hshrank, hroot⟩ := hslot
  · rw [Rooted.into, Inode.setRoot_root inode _ hr]
    exact ⟨Or.inl ⟨hnone, rfl, rfl⟩, (Within.of_same fun _ _ => rfl).1⟩
  · exact ⟨Or.inr ⟨gone, hsome, rfl, rfl, rfl, TreeShrank.of_slot htree hidx hshrank hroot⟩,
      within_setRoot_shrunk htree hr hshrank.edit hshrank.inside⟩

theorem mapFileBlock_free_spec :
    Runs (mapFileBlock inode fileBlkIdx .free allocCnt) fs
      (FreeCall static fs inode fileBlkIdx.toNat allocCnt) :=
  (mapFileBlock_free_within hmounted htree hidx allocCnt).mono fun _ _ hcall => hcall.1

theorem mapFileBlock_failed_alloc :
    Runs (mapFileBlock inode fileBlkIdx .alloc allocCnt) fs fun call fs' =>
      call.status = .blockError → call.inode = inode ∧ call.allocCnt = allocCnt ∧ Untouched fs fs' := by
  refine (mapFileBlock_alloc_spec hmounted htree hidx allocCnt).mono fun call fs' hcall hstatus => ?_
  obtain ⟨rfl, hframe, hused, -⟩ | ⟨diskBlk, adds, hsuccess, -⟩ := hcall
  · exact ⟨rfl, rfl, hframe.untouched hmounted hused⟩
  · rw [hsuccess] at hstatus
    cases hstatus

/-- `map_file_block` is a sparse map from file block indices to disk blocks, in each of its modes. -/
theorem mapFileBlock_sparse_map :
    Runs (mapFileBlock inode fileBlkIdx .lookup allocCnt) fs
        (LookupCall fs inode fileBlkIdx.toNat allocCnt) ∧
      Runs (mapFileBlock inode fileBlkIdx .alloc allocCnt) fs
        (AllocCall static fs inode fileBlkIdx.toNat allocCnt) ∧
      Runs (mapFileBlock inode fileBlkIdx .free allocCnt) fs
        (FreeCall static fs inode fileBlkIdx.toNat allocCnt) :=
  ⟨mapFileBlock_lookup_spec hmounted htree hidx allocCnt,
    mapFileBlock_alloc_spec hmounted htree hidx allocCnt,
    mapFileBlock_free_spec hmounted htree hidx allocCnt⟩

end Modes

def smallStatic (b : UInt32) : Prop := b < 5

theorem smallFs_mounted : Mounted smallStatic smallFs where
  sound := smallFs_sound
  sectors := by decide
  book b hb := by
    have hcases : b = 0 ∨ b = 1 ∨ b = 2 ∨ b = 3 := by
      have hblock : smallFs.geo.bitmapAddr .block 0 = 2 := by decide
      have hinode : smallFs.geo.bitmapAddr .inode 0 = 3 := by decide
      have hgroups : smallFs.geo.ngroups.toNat = 1 := rfl
      simp only [Geo.isBook, hgroups, List.range_one, List.any_cons, List.any_nil, hblock, hinode,
        bgdtBlkN, Bool.or_eq_true, decide_eq_true_eq, Bool.or_false] at hb
      obtain (h | h) | h | h := hb
      · exact Or.inl h
      · exact Or.inr (Or.inl (of_decide_eq_true h))
      · exact Or.inr (Or.inr (Or.inl h.symm))
      · exact Or.inr (Or.inr (Or.inr h.symm))
    rw [smallStatic]
    rcases hcases with rfl | rfl | rfl | rfl <;> decide
  used b hb := by
    have hlt : b.toNat < 5 := UInt32.lt_iff_toNat_lt.mp hb
    have hcases : b = 0 ∨ b = 1 ∨ b = 2 ∨ b = 3 ∨ b = 4 := by
      simp only [← UInt32.toNat_inj]
      change _ = 0 ∨ _ = 1 ∨ _ = 2 ∨ _ = 3 ∨ _ = 4
      omega
    rcases hcases with rfl | rfl | rfl | rfl | rfl <;> decide

theorem smallRoot_refs : refs smallFs.entries smallRoot = [5] := by decide

theorem smallRoot_treeOk : TreeOk smallStatic smallFs smallRoot where
  nodup := by
    rw [smallRoot_refs]
    exact List.nodup_singleton _
  used b hb := by
    rw [smallRoot_refs, List.mem_singleton] at hb
    rw [hb]
    decide
  notStatic b hb := by
    rw [smallRoot_refs, List.mem_singleton] at hb
    rw [hb, smallStatic]
    decide
  full r hr := by
    by_cases hdirect : r < 12
    · have hheight : rootHeight r = 0 := by
        rw [rootHeight]
        omega
      rw [hheight]
      trivial
    · have hzero : smallRoot.root r = 0 := by
        rw [Inode.root, dif_neg hdirect]
        split_ifs <;> rfl
      rw [hzero]
      exact full_zero_ptr

def crowdedMap (room : Fin 27) : Buf := ofBits fun i => decide (i < 32 - room.val ∨ 32 ≤ i)

/-- The last `room` blocks of the small filesystem are free, and no others. -/
def crowdedFs (room : Fin 27) : FsInfo :=
  smallFs.settle .block 0 (crowdedMap room) (UInt16.ofNat room.val) (UInt32.ofNat room.val)

def crowdedStatic (room : Fin 27) (b : UInt32) : Prop := b.toNat < 32 - room.val ∧ b ≠ 5

abbrev fullFs : FsInfo := crowdedFs 0

abbrev fullStatic : UInt32 → Prop := crowdedStatic 0

section Crowded

variable (room : Fin 27)

theorem crowdedFs_used_iff {b : UInt32} (hb : b < 32) : (crowdedFs room).Used b ↔ b.toNat < 32 - room.val := by
  have hreal : smallFs.geo.Real .block b := hb
  have hlt : b.toNat < 32 := UInt32.lt_iff_toNat_lt.mp hb
  have hpos : Geo.position .block b % smallFs.geo.perGrp .block = b.toNat := Nat.mod_eq_of_lt hlt
  rw [FsInfo.Used, crowdedFs, marked_settle smallFs_valid (by decide) hreal, if_pos ⟨rfl, Nat.div_eq_of_lt hlt⟩, hpos,
    crowdedMap, bit_ofBits, decide_eq_true_iff]
  omega

theorem crowdedMap_padding {i : Nat} (hi : 32 ≤ i) : bit (crowdedMap room) i = true := by
  rw [crowdedMap, bit_ofBits]
  exact decide_eq_true (.inr hi)

theorem crowdedFs_mounted : Mounted (crowdedStatic room) (crowdedFs room) where
  sound := by
    refine ⟨geo_settle.symm ▸ smallFs_valid, agree_settle smallFs_sound (by decide) ⟨?_, ?_, fun _ => ?_, ?_⟩⟩
    · have hclear : clearBits (crowdedMap room) (8 * blockSize) = clearBits (crowdedMap room) 32 :=
        clearBits_eq_of_set (by decide) fun i hi _ => crowdedMap_padding room hi
      have hcount : ∀ room : Fin 27, (UInt16.ofNat room.val).toNat = clearBits (crowdedMap room) 32 := by
        decide +kernel
      exact (hcount room).trans hclear.symm
    · revert room
      decide +kernel
    · rw [crowdedMap, bit_ofBits]
      exact decide_eq_true (.inl (by omega))
    · intro _ i _ hpast
      change 32 ≤ i ∨ 32 ≤ 0 * 32 + i at hpast
      exact crowdedMap_padding room (by omega)
  sectors := smallFs_mounted.sectors
  book b hb := by
    have hgeo : (crowdedFs room).geo = smallFs.geo := geo_settle
    have hlt : b.toNat < 5 := UInt32.lt_iff_toNat_lt.mp (smallFs_mounted.book b (hgeo ▸ hb))
    refine ⟨by omega, ?_⟩
    rintro rfl
    exact absurd hlt (by decide)
  used b hb := by
    have hlt : b.toNat < 32 := by
      have := hb.1
      omega
    exact (crowdedFs_used_iff room (UInt32.lt_iff_toNat_lt.mpr hlt)).mpr hb.1

theorem crowdedFs_entries : (crowdedFs room).entries = smallFs.entries := by
  have hdata : (crowdedFs room).data = smallFs.data := data_settle (by decide)
  unfold FsInfo.entries
  rw [hdata]

theorem crowdedFs_used_five : (crowdedFs room).Used 5 :=
  (crowdedFs_used_iff room (by decide)).mpr (show 5 < 32 - room.val by omega)

theorem crowdedRoot_treeOk : TreeOk (crowdedStatic room) (crowdedFs room) smallRoot where
  nodup := by
    rw [crowdedFs_entries]
    exact smallRoot_treeOk.nodup
  used b hb := by
    rw [crowdedFs_entries, smallRoot_refs, List.mem_singleton] at hb
    rw [hb]
    exact crowdedFs_used_five room
  notStatic b hb := by
    rw [crowdedFs_entries, smallRoot_refs, List.mem_singleton] at hb
    exact fun hstatic => hstatic.2 hb
  full r hr := by
    rw [crowdedFs_entries]
    exact smallRoot_treeOk.full r hr

end Crowded

/-- Two pointer blocks are allocated and given back, because there is no block for the data. -/
theorem mapFileBlock_failed_alloc_crowdedFs : (crowdedFs 2).marked .block 30 = false ∧
    (crowdedFs 2).marked .block 31 = false ∧
    ∃ call fs', mapFileBlock smallRoot 1036 .alloc (some 0) (crowdedFs 2) = .ok (call, fs') ∧
      call.status = .blockError ∧ call.inode = smallRoot ∧ call.allocCnt = some 0 ∧ Untouched (crowdedFs 2) fs' := by
  have hfails : (mapFileBlock smallRoot 1036 .alloc (some 0) (crowdedFs 2)).toOption.map
      (fun result => result.1.status) = some .blockError := by
    decide +kernel
  obtain ⟨call, fs', hrun, hcall⟩ := mapFileBlock_failed_alloc (crowdedFs_mounted 2) (crowdedRoot_treeOk 2)
    (show (1036 : UInt32).toNat < fileBlkLimit by decide) (some 0)
  rw [hrun] at hfails
  have hstatus : call.status = .blockError := Option.some.inj hfails
  exact ⟨by decide +kernel, by decide +kernel, call, fs', hrun, hstatus, hcall hstatus⟩

theorem mapFileBlock_sparse_map_smallFs :
    Mounted smallStatic smallFs ∧ TreeOk smallStatic smallFs smallRoot ∧
      Runs (mapFileBlock smallRoot 1036 .alloc (some 0)) smallFs
        (AllocCall smallStatic smallFs smallRoot 1036 (some 0)) :=
  ⟨smallFs_mounted, smallRoot_treeOk,
    (mapFileBlock_sparse_map smallFs_mounted smallRoot_treeOk (by decide) (some 0)).2.1⟩

end DeprecatOS
