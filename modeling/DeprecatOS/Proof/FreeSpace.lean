import DeprecatOS.Proof.Bookkeeping
import DeprecatOS.Proof.FileTree
import Mathlib.Algebra.BigOperators.Group.Finset.Sigma

/-!
# How many blocks are free

The counter of free blocks in the superblock is the number of blocks that are not in use, so every block taken or given
back moves it by one. A call to `map_file_block` that allocates needs the blocks that are missing on the path to its
index, and it succeeds when there are that many free ones and only then.
-/

namespace DeprecatOS

open Bytes Bits Fault PointerTree

variable {static : UInt32 → Prop} {fs fs' : FsInfo}

def FsInfo.freeBlocks (fs : FsInfo) : Nat := (fs.unallocTotal .block).toNat

/-! ### The counter counts the blocks that are not in use -/

def FsInfo.free (fs : FsInfo) : Finset Nat :=
  (Finset.range fs.blockCnt.toNat).filter fun k => ¬ fs.Used (UInt32.ofNat k)

section Count

variable (hsound : fs.Sound)

include hsound

theorem toNat_blockNumber {k : Nat} (hk : k < fs.blockCnt.toNat) : (UInt32.ofNat k).toNat = k := by
  have hcnt : fs.blockCnt.toNat ≤ 4194304 := hsound.geo.blockCnt_lt
  rw [UInt32.toNat_ofNat']
  omega

theorem real_blockNumber {k : Nat} (hk : k < fs.blockCnt.toNat) : fs.geo.Real .block (UInt32.ofNat k) := by
  change _ < fs.blockCnt
  rwa [UInt32.lt_iff_toNat_lt, toNat_blockNumber hsound hk]

omit hsound in
theorem mem_free_iff {b : UInt32} : b.toNat ∈ fs.free ↔ fs.geo.Real .block b ∧ ¬ fs.Used b := by
  rw [FsInfo.free, Finset.mem_filter, Finset.mem_range, UInt32.ofNat_toNat]
  rfl

theorem card_free_group {g : Nat} (hg : g < fs.ngroups.toNat) :
    (fs.free.filter fun k => k / fs.blksPerGrp.toNat = g).card = clearBits (fs.bitmap .block g) (8 * blockSize) := by
  have hpos : 0 < fs.blksPerGrp.toNat := hsound.geo.perGrp_pos .block
  rw [clearBits_eq_card]
  refine Finset.card_nbij' (fun k => k % fs.blksPerGrp.toNat) (fun i => g * fs.blksPerGrp.toNat + i) ?_ ?_ ?_ ?_
  · intro k hk
    simp only [FsInfo.free, Finset.coe_filter, Finset.mem_filter, Finset.mem_range, Set.mem_ofPred_eq] at hk ⊢
    obtain ⟨⟨hlt, hfree⟩, rfl⟩ := hk
    have hbits := bit_lt_countBits hsound.geo .block (UInt32.ofNat k)
    rw [FsInfo.Used, FsInfo.marked, decide_eq_true (real_blockNumber hsound hlt), Bool.true_and, Bool.not_eq_true,
      Geo.position, toNat_blockNumber hsound hlt] at hfree
    rw [Geo.position, toNat_blockNumber hsound hlt] at hbits
    exact ⟨hbits, hfree⟩
  · intro i hi
    simp only [Finset.coe_filter, Finset.mem_range, Set.mem_ofPred_eq] at hi
    obtain ⟨hlt, hreal⟩ := real_of_clear hsound hg hi.1 hi.2
    have hper : i < fs.blksPerGrp.toNat := hlt
    have hunmarked := mem_number_of_clear hsound hg hi.1 hi.2
    have hnumber : (fs.geo.number .block g i).toNat = g * fs.blksPerGrp.toNat + i :=
      hsound.geo.position_number hg hlt
    have hmem : (fs.geo.number .block g i).toNat ∈ fs.free := by
      rw [mem_free_iff]
      exact ⟨hreal, by rw [FsInfo.Used, hunmarked]; simp⟩
    rw [hnumber] at hmem
    simp only [Finset.coe_filter, Set.mem_ofPred_eq]
    refine ⟨hmem, ?_⟩
    rw [Nat.mul_comm, Nat.mul_add_div hpos, Nat.div_eq_of_lt hper, Nat.add_zero]
  · intro k hk
    simp only [Finset.coe_filter, Set.mem_ofPred_eq] at hk
    change g * fs.blksPerGrp.toNat + k % fs.blksPerGrp.toNat = k
    rw [← hk.2, Nat.div_add_mod']
  · intro i hi
    simp only [Finset.coe_filter, Finset.mem_range, Set.mem_ofPred_eq] at hi
    have hper : i < fs.blksPerGrp.toNat := (real_of_clear hsound hg hi.1 hi.2).1
    simp only [Nat.mul_comm g, Nat.mul_add_mod, Nat.mod_eq_of_lt hper]

theorem card_free : fs.free.card = fs.freeBlocks := by
  have hgroup : ∀ k ∈ fs.free, k / fs.blksPerGrp.toNat ∈ Finset.range fs.ngroups.toNat := by
    intro k hk
    have hlt : k < fs.blockCnt.toNat := Finset.mem_range.mp (Finset.mem_filter.mp hk).1
    have hbelow := hsound.geo.group_lt (real_blockNumber hsound hlt)
    rw [Geo.position, toNat_blockNumber hsound hlt] at hbelow
    exact Finset.mem_range.mpr hbelow
  rw [Finset.card_eq_sum_card_fiberwise hgroup, FsInfo.freeBlocks, hsound.agree.total .block]
  apply Finset.sum_congr rfl
  intro g hg
  rw [card_free_group hsound (Finset.mem_range.mp hg), hsound.agree.cnt .block g (Finset.mem_range.mp hg)]
  rfl

theorem freeBlocks_exchange (hsound' : fs'.Sound) (hgeo : fs'.geo = fs.geo) {old new : List UInt32}
    (hold : old.Nodup) (hnew : new.Nodup) (hown : ∀ b ∈ old, fs.Used b) (hfresh : ∀ b ∈ new, b ∉ old → ¬ fs.Used b)
    (hused : ∀ q, fs'.Used q ↔ (fs.Used q ∧ q ∉ old) ∨ q ∈ new) :
    fs'.freeBlocks + new.length = fs.freeBlocks + old.length := by
  have hinj : Function.Injective UInt32.toNat := fun _ _ h => UInt32.toNat_inj.mp h
  -- on either side these are the blocks that were free or are given up
  have hsame : fs'.free ∪ (new.map UInt32.toNat).toFinset = fs.free ∪ (old.map UInt32.toNat).toFinset := by
    ext k
    by_cases hk : ∃ b : UInt32, b.toNat = k
    · obtain ⟨b, rfl⟩ := hk
      have hreal : ∀ fs : FsInfo, fs.Used b → fs.geo.Real .block b := fun fs hb =>
        of_decide_eq_true (Bool.and_eq_true_iff.mp hb).1
      simp only [Finset.mem_union, mem_free_iff, hgeo, hused, List.mem_toFinset, List.mem_map, UInt32.toNat_inj,
        exists_eq_right]
      constructor
      · rintro (⟨hb, hfree⟩ | hb)
        · by_cases hmem : b ∈ old
          · exact .inr hmem
          · exact .inl ⟨hb, fun hin => hfree (.inl ⟨hin, hmem⟩)⟩
        · by_cases hmem : b ∈ old
          · exact .inr hmem
          · exact .inl ⟨hgeo ▸ hreal fs' ((hused b).mpr (.inr hb)), hfresh b hb hmem⟩
      · rintro (⟨hb, hfree⟩ | hb)
        · by_cases hmem : b ∈ new
          · exact .inr hmem
          · exact .inl ⟨hb, fun h => h.elim (fun hin => hfree hin.1) hmem⟩
        · by_cases hmem : b ∈ new
          · exact .inr hmem
          · exact .inl ⟨hreal fs (hown b hb), fun h => h.elim (fun hin => hin.2 hb) hmem⟩
    · have hlist : ∀ bs : List UInt32, k ∉ (bs.map UInt32.toNat).toFinset := by
        intro bs hmem
        obtain ⟨b, -, hb⟩ := List.mem_map.mp (List.mem_toFinset.mp hmem)
        exact hk ⟨b, hb⟩
      have hcnt : fs'.blockCnt = fs.blockCnt := congrArg Geo.blockCnt hgeo
      have hlarge : ¬ k < fs.blockCnt.toNat := fun hlt => hk ⟨_, toNat_blockNumber hsound hlt⟩
      simp [hlist, FsInfo.free, hcnt, hlarge]
  have hdisjoint : Disjoint fs.free (old.map UInt32.toNat).toFinset := by
    rw [Finset.disjoint_left]
    intro k hk hgone
    obtain ⟨b, hb, rfl⟩ := List.mem_map.mp (List.mem_toFinset.mp hgone)
    exact (mem_free_iff.mp hk).2 (hown b hb)
  have hdisjoint' : Disjoint fs'.free (new.map UInt32.toNat).toFinset := by
    rw [Finset.disjoint_left]
    intro k hk hadded
    obtain ⟨b, hb, rfl⟩ := List.mem_map.mp (List.mem_toFinset.mp hadded)
    exact (mem_free_iff.mp hk).2 ((hused b).mpr (.inr hb))
  have hcard := congrArg Finset.card hsame
  rwa [Finset.card_union_of_disjoint hdisjoint, Finset.card_union_of_disjoint hdisjoint', card_free hsound,
    card_free hsound', List.toFinset_card_of_nodup (hold.map hinj), List.toFinset_card_of_nodup (hnew.map hinj),
    List.length_map, List.length_map] at hcard

theorem freeBlocks_add (hsound' : fs'.Sound) (hgeo : fs'.geo = fs.geo) {adds : List UInt32} (hnodup : adds.Nodup)
    (hfresh : ∀ b ∈ adds, ¬ fs.Used b) (hused : ∀ q, fs'.Used q ↔ fs.Used q ∨ q ∈ adds) :
    fs'.freeBlocks + adds.length = fs.freeBlocks :=
  freeBlocks_exchange hsound hsound' hgeo List.nodup_nil hnodup (by simp) (fun b hb _ => hfresh b hb)
    (by simpa using hused)

theorem freeBlocks_eq (hsound' : fs'.Sound) (hgeo : fs'.geo = fs.geo) (hused : ∀ q, fs'.Used q ↔ fs.Used q) :
    fs'.freeBlocks = fs.freeBlocks :=
  freeBlocks_add hsound hsound' hgeo List.nodup_nil (by simp) (by simpa using hused)

theorem freeBlocks_take (hsound' : fs'.Sound) (hgeo : fs'.geo = fs.geo) {b : UInt32} (hfresh : ¬ fs.Used b)
    (hused : ∀ q, fs'.Used q ↔ fs.Used q ∨ q = b) : fs'.freeBlocks + 1 = fs.freeBlocks := by
  have hadds : ∀ q, fs'.Used q ↔ fs.Used q ∨ q ∈ [b] := by simpa using hused
  exact freeBlocks_add hsound hsound' hgeo (List.nodup_singleton b) (by simpa using hfresh) hadds

end Count

section Moves

variable (hmounted : Mounted static fs) {b : UInt32}

include hmounted

theorem Took.freeBlocks (htook : Took static fs fs' b) : fs'.freeBlocks + 1 = fs.freeBlocks :=
  freeBlocks_take hmounted.sound htook.frame.mounted.sound htook.frame.geo htook.fresh htook.used

theorem Zeroed.freeBlocks {touched : UInt32 → Prop} (hnew : Zeroed static touched fs fs' b) :
    fs'.freeBlocks + 1 = fs.freeBlocks :=
  freeBlocks_take hmounted.sound hnew.frame.mounted.sound hnew.frame.geo hnew.fresh hnew.used

theorem Frame.freeBlocks {touched : UInt32 → Prop} (hframe : Frame static touched fs fs')
    (hused : ∀ q, fs'.Used q ↔ fs.Used q) : fs'.freeBlocks = fs.freeBlocks :=
  freeBlocks_eq hmounted.sound hframe.mounted.sound hframe.geo hused

theorem Mounted.allocBlock_zero (hrun : allocBlock fs = .ok (0, fs')) : fs.freeBlocks = 0 := by
  obtain ⟨-, -, hall⟩ | ⟨hne, -⟩ := (allocBit_spec hmounted.sound).of_run hrun
  · rw [← card_free hmounted.sound, Finset.card_eq_zero, FsInfo.free, Finset.filter_eq_empty_iff]
    intro k hk
    exact not_not.mpr (hall _ (real_blockNumber hmounted.sound (Finset.mem_range.mp hk)))
  · exact absurd rfl hne

end Moves

/-! ### Enough blocks for a walk -/

section Walk

variable {n : Nat} {p : UInt32} {k idx : Nat} {allocCnt : Option UInt32}

theorem dataBlock_alloc_enough (hmounted : Mounted static fs) (hnode : NodeOk static fs 0 p)
    {result : Except MapFailure (Buf × Option UInt32)} (hrun : dataBlock p k .alloc allocCnt fs = .ok (result, fs')) :
    (∃ entries cnt, result = .ok (entries, cnt)) ↔ missing ptrsPerBlk fs.entries 0 (fs.entries p k) 0 ≤ fs.freeBlocks := by
  rw [dataBlock, run_bind_ok (hmounted.readBlock_data hnode.self_used hnode.self_notStatic)] at hrun
  rw [missing]
  by_cases hzero : fs.entries p k = 0
  · rw [if_pos (show ptr (fs.data p) k = 0 from hzero), if_neg (by simp)] at hrun
    rw [if_pos hzero]
    obtain ⟨blockN, fs₁, halloc, hnext⟩ := run_bind_eq_ok hrun
    obtain ⟨rfl, -⟩ | htook := hmounted.allocBlock_spec.of_run halloc
    · rw [if_pos rfl] at hnext
      cases hnext
      simp [hmounted.allocBlock_zero halloc]
    · rw [if_neg htook.ne_zero] at hnext
      obtain ⟨_, fs₂, -, hlast⟩ := run_bind_eq_ok hnext
      cases hlast
      have hfree := htook.freeBlocks hmounted
      exact ⟨fun _ => by omega, fun _ => ⟨_, _, rfl⟩⟩
  · rw [if_neg (show ¬ ptr (fs.data p) k = 0 from hzero)] at hrun
    rw [if_neg hzero]
    cases hrun
    exact ⟨fun _ => Nat.zero_le _, fun _ => ⟨_, _, rfl⟩⟩

theorem childBlock_alloc_error (hmounted : Mounted static fs) (hnode : NodeOk static fs n p) {failure : MapFailure}
    (hrun : childBlock p k .alloc allocCnt fs = .ok (.error failure, fs')) :
    fs.entries p k = 0 ∧ fs.freeBlocks = 0 := by
  rw [childBlock, run_bind_ok (hmounted.readBlock_data hnode.self_used hnode.self_notStatic)] at hrun
  by_cases hzero : fs.entries p k = 0
  · rw [if_pos (show ptr (fs.data p) k = 0 from hzero), if_neg (by simp)] at hrun
    obtain ⟨blockN, fs₁, halloc, hnext⟩ := run_bind_eq_ok hrun
    obtain ⟨rfl, -⟩ | htook := hmounted.allocBlock_spec.of_run halloc
    · exact ⟨hzero, hmounted.allocBlock_zero halloc⟩
    · rw [if_neg htook.ne_zero] at hnext
      obtain ⟨_, fs₂, -, hthird⟩ := run_bind_eq_ok hnext
      obtain ⟨_, fs₃, -, hlast⟩ := run_bind_eq_ok hthird
      cases hlast
  · rw [if_neg (show ¬ ptr (fs.data p) k = 0 from hzero)] at hrun
    cases hrun

theorem walk_alloc_enough (hmounted : Mounted static fs) (hnode : NodeOk static fs n p)
    (hidx : idx < ptrsPerBlk ^ (n + 1)) {minted : Bool} {result : Walk × Option UInt32}
    (hrun : walk .alloc n p idx minted allocCnt fs = .ok (result, fs')) :
    (∃ diskBlk, result.1 = .done diskBlk) ↔ missing ptrsPerBlk fs.entries (n + 1) p idx ≤ fs.freeBlocks := by
  rw [missing_succ hnode.ne_zero]
  induction n generalizing fs p idx minted allocCnt result fs' with
  | zero =>
    rw [pow_zero, Nat.div_one, Nat.mod_one]
    rw [walk] at hrun
    obtain ⟨data, fs₁, hdata, hnext⟩ := run_bind_eq_ok hrun
    rw [← dataBlock_alloc_enough hmounted hnode hdata]
    obtain (failure | ⟨entries, cnt⟩) := data
    · cases failure <;> cases hnext <;> simp
    · cases hnext
      simp
  | succ n ih =>
    have hslot := slot_lt hidx
    have hrest := rest_lt hidx
    rw [walk] at hrun
    obtain ⟨child, fs₁, hchild, hnext⟩ := run_bind_eq_ok hrun
    obtain ⟨rfl, rfl⟩ | ⟨rfl, hne, rfl⟩ | ⟨blockN, hzero, hmint, rfl⟩ :=
      (childBlock_alloc_spec hmounted hnode _ allocCnt).of_run hchild
    · obtain ⟨hzero, hfree⟩ := childBlock_alloc_error hmounted hnode hchild
      cases hnext
      simp [hzero, hfree]
    · have hchildOk := hnode.child hslot hne
      obtain ⟨below, fs₂, hwalk, hlast⟩ := run_bind_eq_ok hnext
      rw [missing_succ hne, ← ih hmounted hchildOk hrest hwalk]
      obtain ⟨rfl | ⟨-, rfl⟩, -⟩ | ⟨diskBlk, adds, rfl, -⟩ :=
        (walk_alloc_spec hmounted hchildOk hrest (by simp) allocCnt).of_run hwalk
      · cases hlast
        simp
      · cases hlast
        simp
      · cases hlast
        simp
    · have hptr : ptr (setPtr (fs.data p) (idx / ptrsPerBlk ^ (n + 1)) blockN)
          (idx / ptrsPerBlk ^ (n + 1)) = blockN := by
        rw [ptr_setPtr, Function.update_self]
      simp only [hptr] at hnext
      have hfree := hmint.freeBlocks hmounted
      obtain ⟨below, fs₂, hwalk, hlast⟩ := run_bind_eq_ok hnext
      have hbelow := ih hmint.frame.mounted hmint.nodeOk hrest hwalk
      rw [hmint.entries_eq, missing_zero_ptr] at hbelow
      rw [hzero, missing_zero_ptr, ← hfree, Nat.add_le_add_iff_right, ← hbelow]
      obtain ⟨rfl | ⟨hfalse, -⟩, -⟩ | ⟨diskBlk, adds, rfl, -⟩ :=
        (walk_alloc_spec hmint.frame.mounted hmint.nodeOk hrest (fun _ k _ => hmint.entries_eq k) (bump allocCnt)).of_run
          hwalk
      · obtain ⟨_, fs₃, -, hback⟩ := run_bind_eq_ok hlast
        cases minted with
        | true =>
          cases hback
          simp
        | false =>
          obtain ⟨_, fs₄, -, hend⟩ := run_bind_eq_ok hback
          cases hend
          simp
      · cases hfalse
      · cases hlast
        simp

theorem mapRoot_alloc_enough (hmounted : Mounted static fs) {field : UInt32} (hslot : SlotOk static fs (n + 1) field)
    (hidx : idx < ptrsPerBlk ^ (n + 1)) {rooted : Rooted}
    (hrun : mapRoot n field idx .alloc allocCnt fs = .ok (rooted, fs')) :
    rooted.status = .writeSuccess ↔ missing ptrsPerBlk fs.entries (n + 1) field idx ≤ fs.freeBlocks := by
  rw [mapRoot] at hrun
  obtain ⟨root, fs₁, hroot, hnext⟩ := run_bind_eq_ok hrun
  obtain ⟨rfl, rfl, rfl⟩ | ⟨hne, rfl, rfl⟩ | ⟨blockN, rfl, hnew, rfl⟩ :=
    (rootBlock_alloc_spec hmounted allocCnt field).of_run hroot
  · have hfree : fs₁.freeBlocks = 0 := by
      rw [rootBlock, if_pos rfl, if_neg (by simp)] at hroot
      obtain ⟨blockN, fs₂, halloc, hblock⟩ := run_bind_eq_ok hroot
      obtain ⟨rfl, -⟩ | htook := hmounted.allocBlock_spec.of_run halloc
      · exact hmounted.allocBlock_zero halloc
      · rw [if_neg htook.ne_zero] at hblock
        obtain ⟨_, fs₃, -, hlast⟩ := run_bind_eq_ok hblock
        cases hlast
    cases hnext
    simp [hfree, MapFailure.status]
  · obtain ⟨below, fs₂, hwalk, hlast⟩ := run_bind_eq_ok hnext
    rw [← walk_alloc_enough hmounted (hslot.node hne) hidx hwalk]
    obtain ⟨rfl | ⟨-, rfl⟩, -⟩ | ⟨diskBlk, adds, rfl, -⟩ :=
      (walk_alloc_spec hmounted (hslot.node hne) hidx (by simp) allocCnt).of_run hwalk
    · cases hlast
      simp
    · cases hlast
      simp
    · cases hlast
      simp
  · have hfree := hnew.freeBlocks hmounted
    obtain ⟨below, fs₂, hwalk, hlast⟩ := run_bind_eq_ok hnext
    have hbelow := walk_alloc_enough hnew.frame.mounted hnew.nodeOk hidx hwalk
    rw [missing_succ hnew.ne_zero, hnew.entries_eq, missing_zero_ptr] at hbelow
    rw [missing_zero_ptr, ← hfree, Nat.add_le_add_iff_right, ← hbelow]
    obtain ⟨rfl | ⟨hfalse, -⟩, -⟩ | ⟨diskBlk, adds, rfl, -⟩ :=
      (walk_alloc_spec hnew.frame.mounted hnew.nodeOk hidx (fun _ k _ => hnew.entries_eq k) (bump allocCnt)).of_run hwalk
    · obtain ⟨_, fs₃, -, hend⟩ := run_bind_eq_ok hlast
      cases hend
      simp
    · cases hfalse
    · cases hlast
      simp

theorem mapLeaf_alloc_enough (hmounted : Mounted static fs) {field : UInt32} {rooted : Rooted}
    (hrun : mapLeaf field .alloc allocCnt fs = .ok (rooted, fs')) :
    rooted.status = .writeSuccess ↔ missing ptrsPerBlk fs.entries 0 field 0 ≤ fs.freeBlocks := by
  rw [mapLeaf] at hrun
  rw [missing]
  by_cases hzero : field = 0
  · rw [if_pos hzero, if_neg (by simp)] at hrun
    rw [if_pos hzero]
    obtain ⟨blockN, fs₁, halloc, hlast⟩ := run_bind_eq_ok hrun
    obtain ⟨rfl, -⟩ | htook := hmounted.allocBlock_spec.of_run halloc
    · rw [if_pos rfl] at hlast
      cases hlast
      simp [hmounted.allocBlock_zero halloc]
    · rw [if_neg htook.ne_zero] at hlast
      cases hlast
      have hfree := htook.freeBlocks hmounted
      exact ⟨fun _ => by omega, fun _ => rfl⟩
  · rw [if_neg hzero, if_neg (by simp)] at hrun
    rw [if_neg hzero]
    cases hrun
    exact ⟨fun _ => Nat.zero_le _, fun _ => rfl⟩

end Walk

def missingAt (c : Store UInt32) (inode : Inode) (idx : Nat) : Nat :=
  missing ptrsPerBlk c (rootHeight (locate idx).1) (inode.root (locate idx).1) (locate idx).2

theorem mapFileBlock_alloc_enough (hmounted : Mounted static fs) {inode : Inode} (htree : TreeOk static fs inode)
    {idx : UInt32} (hidx : idx.toNat < fileBlkLimit) {allocCnt : Option UInt32} {result : Mapped}
    (hrun : mapFileBlock inode idx .alloc allocCnt fs = .ok (result, fs')) :
    result.status = .writeSuccess ↔ missingAt fs.entries inode idx.toNat ≤ fs.freeBlocks := by
  obtain ⟨hroot, hbelow⟩ := locate_lt hidx
  have hslot := htree.slot hroot
  rw [mapFileBlock_eq inode hidx, map_eq_pure_bind] at hrun
  obtain ⟨rooted, mid, hmap, hlast⟩ := run_bind_eq_ok hrun
  cases hlast
  rw [missingAt]
  change rooted.status = .writeSuccess ↔ _
  generalize rootHeight (locate idx.toNat).1 = height at hslot hbelow hmap ⊢
  cases height with
  | zero =>
    rw [pow_zero, Nat.lt_one_iff] at hbelow
    rw [hbelow]
    exact mapLeaf_alloc_enough hmounted hmap
  | succ n => exact mapRoot_alloc_enough hmounted hslot hbelow hmap

end DeprecatOS
