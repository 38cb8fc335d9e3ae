import Mathlib.Data.List.Perm.Basic
import Mathlib.Data.List.Flatten
import Mathlib.Data.List.Nodup
import Mathlib.Logic.Function.Basic
import Mathlib.Algebra.Order.Ring.Nat
import Mathlib.Tactic.Ring

/-!
# Trees of pointer blocks

A store maps a block and a slot to the pointer in that slot, and the zero pointer stands for an absent
subtree. A tree of height 0 is one data block; a tree of height `n + 1` is a block of `F` pointers to
trees of height `n`. It is a sparse map from indices below `F ^ n` to data blocks.

A program grows and shrinks such a tree one index at a time, allocating and releasing the blocks on the
path to that index. `Edit` says what one such change does to the blocks and to the map, and it lifts
from a subtree to the block that points to it, whether that block stays, is new, or goes away.
-/

namespace PointerTree

variable {K : Type} [Zero K] [DecidableEq K]

abbrev Store (K : Type) := K → Nat → K

section Trees

variable (F : Nat) (c : Store K)

/-- All blocks of the tree of height `n` at `p`, data blocks and pointer blocks. -/
def blocks : Nat → K → List K
  | 0, p => if p = 0 then [] else [p]
  | n + 1, p => if p = 0 then [] else p :: (List.range F).flatMap fun k => blocks n (c p k)

def nodes : Nat → K → List K
  | 0, _ => []
  | n + 1, p => if p = 0 then [] else p :: (List.range F).flatMap fun k => nodes n (c p k)

def find : Nat → K → Nat → K
  | 0, p, _ => p
  | n + 1, p, i => if p = 0 then 0 else find n (c p (i / F ^ n)) (i % F ^ n)

/-- The blocks on the way to index `i`, the data block last. -/
def path : Nat → K → Nat → List K
  | 0, p, _ => [p]
  | n + 1, p, i => p :: path n (c p (i / F ^ n)) (i % F ^ n)

def missing : Nat → K → Nat → Nat
  | 0, p, _ => if p = 0 then 1 else 0
  | n + 1, p, i => if p = 0 then n + 2 else missing n (c p (i / F ^ n)) (i % F ^ n)

/-- No pointer block of the tree is all zero. -/
def Full : Nat → K → Prop
  | 0, _ => True
  | n + 1, p => p = 0 ∨ ((∃ k < F, c p k ≠ 0) ∧ ∀ k < F, Full n (c p k))

/-- The blocks of `m` trees, the `k`-th at `e k` and of height `h k`. -/
def forest (h : Nat → Nat) (e : Nat → K) (m : Nat) : List K :=
  (List.range m).flatMap fun k => blocks F c (h k) (e k)

end Trees

variable {F : Nat} {c c' : Store K} {n : Nat} {p : K}

@[simp]
theorem blocks_zero_ptr : blocks F c n 0 = [] := by
  cases n <;> simp [blocks]

@[simp]
theorem nodes_zero_ptr : nodes F c n 0 = [] := by
  cases n <;> simp [nodes]

@[simp]
theorem find_zero_ptr (i : Nat) : find F c n 0 i = 0 := by
  cases n <;> simp [find]

@[simp]
theorem missing_zero_ptr (i : Nat) : missing F c n 0 i = n + 1 := by
  cases n <;> simp [missing]

omit [DecidableEq K] in
theorem full_zero_ptr : Full F c n 0 := by
  cases n with
  | zero => trivial
  | succ n => exact Or.inl rfl

theorem blocks_succ (hp : p ≠ 0) :
    blocks F c (n + 1) p = p :: forest F c (fun _ => n) (c p) F := by
  rw [blocks, if_neg hp, forest]

theorem nodes_succ (hp : p ≠ 0) :
    nodes F c (n + 1) p = p :: (List.range F).flatMap fun k => nodes F c n (c p k) := by
  rw [nodes, if_neg hp]

theorem find_succ (hp : p ≠ 0) (i : Nat) :
    find F c (n + 1) p i = find F c n (c p (i / F ^ n)) (i % F ^ n) := by
  rw [find, if_neg hp]

theorem missing_succ (hp : p ≠ 0) (i : Nat) :
    missing F c (n + 1) p i = missing F c n (c p (i / F ^ n)) (i % F ^ n) := by
  rw [missing, if_neg hp]

theorem blocks_of_zero_entries (hp : p ≠ 0) (hzero : ∀ k < F, c p k = 0) :
    blocks F c (n + 1) p = [p] := by
  rw [blocks_succ hp, forest]
  congr 1
  apply List.flatMap_eq_nil_iff.mpr
  intro k hk
  rw [hzero k (List.mem_range.mp hk), blocks_zero_ptr]

theorem slot_lt {i : Nat} (hi : i < F ^ (n + 1)) : i / F ^ n < F := by
  rw [pow_succ'] at hi
  exact Nat.div_lt_of_lt_mul (by rwa [Nat.mul_comm])

theorem rest_lt {i : Nat} (hi : i < F ^ (n + 1)) : i % F ^ n < F ^ n := by
  apply Nat.mod_lt
  by_contra hzero
  rw [pow_succ', Nat.eq_zero_of_not_pos hzero, Nat.mul_zero] at hi
  exact Nat.not_lt_zero i hi

theorem index_lt {k j : Nat} (hk : k < F) (hj : j < F ^ n) : k * F ^ n + j < F ^ (n + 1) := by
  calc k * F ^ n + j < k * F ^ n + F ^ n := by omega
    _ = (k + 1) * F ^ n := by ring
    _ ≤ F * F ^ n := Nat.mul_le_mul_right _ hk
    _ = F ^ (n + 1) := by rw [pow_succ']

theorem slot_index {k j : Nat} (hj : j < F ^ n) : (k * F ^ n + j) / F ^ n = k := by
  rw [Nat.mul_comm, Nat.mul_add_div (by omega), Nat.div_eq_of_lt hj, Nat.add_zero]

theorem rest_index {k j : Nat} (hj : j < F ^ n) : (k * F ^ n + j) % F ^ n = j := by
  rw [Nat.mul_comm, Nat.mul_add_mod, Nat.mod_eq_of_lt hj]

/-! ### Membership -/

theorem mem_forest {h : Nat → Nat} {e : Nat → K} {m : Nat} {b : K} :
    b ∈ forest F c h e m ↔ ∃ k < m, b ∈ blocks F c (h k) (e k) := by
  simp [forest]

theorem mem_blocks_succ {b : K} :
    b ∈ blocks F c (n + 1) p ↔ p ≠ 0 ∧ (b = p ∨ ∃ k < F, b ∈ blocks F c n (c p k)) := by
  by_cases hp : p = 0
  · simp [hp]
  · rw [blocks_succ hp, List.mem_cons, mem_forest]
    simp [hp]

theorem mem_nodes_succ {b : K} :
    b ∈ nodes F c (n + 1) p ↔ p ≠ 0 ∧ (b = p ∨ ∃ k < F, b ∈ nodes F c n (c p k)) := by
  by_cases hp : p = 0
  · simp [hp]
  · rw [nodes_succ hp, List.mem_cons]
    simp [hp]

theorem blocks_of_mem_nodes {b : K} (hb : b ∈ nodes F c n p) : b ∈ blocks F c n p := by
  induction n generalizing p with
  | zero => simp [nodes] at hb
  | succ n ih =>
    obtain ⟨hp, heq | ⟨k, hk, hmem⟩⟩ := mem_nodes_succ.mp hb
    · exact mem_blocks_succ.mpr ⟨hp, Or.inl heq⟩
    · exact mem_blocks_succ.mpr ⟨hp, Or.inr ⟨k, hk, ih hmem⟩⟩

theorem find_mem_blocks {i : Nat} (hi : i < F ^ n) (hfind : find F c n p i ≠ 0) :
    find F c n p i ∈ blocks F c n p := by
  induction n generalizing p i with
  | zero =>
    rw [find] at hfind ⊢
    simp [blocks, hfind]
  | succ n ih =>
    by_cases hp : p = 0
    · rw [hp, find_zero_ptr] at hfind
      exact absurd rfl hfind
    rw [find_succ hp] at hfind ⊢
    exact mem_blocks_succ.mpr ⟨hp, Or.inr ⟨_, slot_lt hi, ih (rest_lt hi) hfind⟩⟩

/-! ### Stores that agree on the pointer blocks -/

theorem nodes_child_subset {k : Nat} (hp : p ≠ 0) (hk : k < F) {q : K}
    (hq : q ∈ nodes F c n (c p k)) : q ∈ nodes F c (n + 1) p :=
  mem_nodes_succ.mpr ⟨hp, Or.inr ⟨k, hk, hq⟩⟩

theorem self_mem_nodes (hp : p ≠ 0) : p ∈ nodes F c (n + 1) p :=
  mem_nodes_succ.mpr ⟨hp, Or.inl rfl⟩

theorem blocks_congr (hsame : ∀ q ∈ nodes F c n p, c' q = c q) :
    blocks F c' n p = blocks F c n p := by
  induction n generalizing p with
  | zero => rfl
  | succ n ih =>
    by_cases hp : p = 0
    · simp [hp]
    rw [blocks_succ hp, blocks_succ hp, hsame p (self_mem_nodes hp), forest, forest]
    congr 1
    apply List.flatMap_congr
    intro k hk
    exact ih fun q hq => hsame q (nodes_child_subset hp (List.mem_range.mp hk) hq)

theorem find_congr (hsame : ∀ q ∈ nodes F c n p, c' q = c q) {i : Nat} (hi : i < F ^ n) :
    find F c' n p i = find F c n p i := by
  induction n generalizing p i with
  | zero => rfl
  | succ n ih =>
    by_cases hp : p = 0
    · simp [hp]
    rw [find_succ hp, find_succ hp, hsame p (self_mem_nodes hp)]
    exact ih (fun q hq => hsame q (nodes_child_subset hp (slot_lt hi) hq)) (rest_lt hi)

theorem full_congr (hsame : ∀ q ∈ nodes F c n p, c' q = c q) (hfull : Full F c n p) :
    Full F c' n p := by
  induction n generalizing p with
  | zero => trivial
  | succ n ih =>
    by_cases hp : p = 0
    · exact Or.inl hp
    obtain hzero | ⟨hsome, hall⟩ := hfull
    · exact absurd hzero hp
    refine Or.inr ⟨?_, ?_⟩
    · rwa [hsame p (self_mem_nodes hp)]
    · intro k hk
      rw [hsame p (self_mem_nodes hp)]
      exact ih (fun q hq => hsame q (nodes_child_subset hp hk hq)) (hall k hk)

/-! ### Trees without repeated blocks -/

section Forest

variable {h : Nat → Nat} {e : Nat → K} {m : Nat}

theorem nodup_of_forest (hnodup : (forest F c h e m).Nodup) {k : Nat} (hk : k < m) :
    (blocks F c (h k) (e k)).Nodup :=
  (List.nodup_flatMap.mp hnodup).1 k (List.mem_range.mpr hk)

theorem forest_slot_unique (hnodup : (forest F c h e m).Nodup) {k l : Nat} (hk : k < m) (hl : l < m)
    {b : K} (hbk : b ∈ blocks F c (h k) (e k)) (hbl : b ∈ blocks F c (h l) (e l)) : k = l := by
  by_contra hne
  have hpair := (List.nodup_flatMap.mp hnodup).2
  have hdisjoint : ∀ {i j : Nat}, i < j → j < m → b ∈ blocks F c (h i) (e i) →
      b ∉ blocks F c (h j) (e j) := by
    intro i j hij hj hbi hbj
    have := List.pairwise_iff_getElem.mp hpair i j (by simp; omega) (by simp; omega) hij
    simp only [List.getElem_range, Function.onFun] at this
    exact this hbi hbj
  obtain hlt | hgt := Nat.lt_or_gt_of_ne hne
  · exact hdisjoint hlt hl hbk hbl
  · exact hdisjoint hgt hk hbl hbk

end Forest

theorem nodup_children (hp : p ≠ 0) (hnodup : (blocks F c (n + 1) p).Nodup) :
    p ∉ forest F c (fun _ => n) (c p) F ∧ (forest F c (fun _ => n) (c p) F).Nodup := by
  rw [blocks_succ hp] at hnodup
  exact List.nodup_cons.mp hnodup

theorem find_inj (hnodup : (blocks F c n p).Nodup) {i j : Nat} (hi : i < F ^ n) (hj : j < F ^ n)
    (hne : find F c n p i ≠ 0) (heq : find F c n p i = find F c n p j) : i = j := by
  induction n generalizing p i j with
  | zero =>
    simp only [pow_zero, Nat.lt_one_iff] at hi hj
    rw [hi, hj]
  | succ n ih =>
    by_cases hp : p = 0
    · rw [hp, find_zero_ptr] at hne
      exact absurd rfl hne
    rw [find_succ hp] at hne heq
    rw [find_succ hp] at heq
    have hforest := (nodup_children hp hnodup).2
    have hmemI := find_mem_blocks (rest_lt hi) hne
    have hmemJ := find_mem_blocks (rest_lt hj) (heq ▸ hne)
    rw [← heq] at hmemJ
    have hslot : i / F ^ n = j / F ^ n :=
      forest_slot_unique hforest (slot_lt hi) (slot_lt hj) hmemI hmemJ
    rw [← hslot] at heq
    have hrest := ih (nodup_of_forest hforest (slot_lt hi)) (rest_lt hi) (rest_lt hj) hne heq
    rw [← Nat.div_add_mod i (F ^ n), ← Nat.div_add_mod j (F ^ n), hslot, hrest]

theorem find_notMem_nodes (hnodup : (blocks F c n p).Nodup) {i : Nat} (hi : i < F ^ n)
    (hne : find F c n p i ≠ 0) : find F c n p i ∉ nodes F c n p := by
  induction n generalizing p i with
  | zero => simp [nodes]
  | succ n ih =>
    by_cases hp : p = 0
    · simp [hp]
    rw [find_succ hp] at hne ⊢
    obtain ⟨hself, hforest⟩ := nodup_children hp hnodup
    have hmem := find_mem_blocks (rest_lt hi) hne
    intro hnode
    obtain ⟨-, heq | ⟨k, hk, hchild⟩⟩ := mem_nodes_succ.mp hnode
    · rw [heq] at hmem
      exact hself (mem_forest.mpr ⟨_, slot_lt hi, hmem⟩)
    · have hslot : i / F ^ n = k :=
        forest_slot_unique hforest (slot_lt hi) hk hmem (blocks_of_mem_nodes hchild)
      rw [← hslot] at hchild
      exact ih (nodup_of_forest hforest (slot_lt hi)) (rest_lt hi) hne hchild

theorem exists_find_ne_zero (hfull : Full F c n p) (hp : p ≠ 0) :
    ∃ i < F ^ n, find F c n p i ≠ 0 := by
  induction n generalizing p with
  | zero => exact ⟨0, by simp, hp⟩
  | succ n ih =>
    obtain hzero | ⟨⟨k, hk, hne⟩, hall⟩ := hfull
    · exact absurd hzero hp
    obtain ⟨j, hj, hfind⟩ := ih (hall k hk) hne
    refine ⟨k * F ^ n + j, index_lt hk hj, ?_⟩
    rwa [find_succ hp, slot_index hj, rest_index hj]

theorem mem_blocks_iff_path (hfull : Full F c n p) {b : K} :
    b ∈ blocks F c n p ↔ ∃ i < F ^ n, find F c n p i ≠ 0 ∧ b ∈ path F c n p i := by
  induction n generalizing p with
  | zero =>
    by_cases hp : p = 0
    · simp [blocks, find, hp]
    · simp [blocks, find, path, hp]
  | succ n ih =>
    by_cases hp : p = 0
    · simp [hp]
    have hall := (hfull.resolve_left hp).2
    have hindex : ∀ k < F, ∀ j < F ^ n, find F c n (c p k) j ≠ 0 → ∃ i < F ^ (n + 1),
        find F c (n + 1) p i ≠ 0 ∧ path F c (n + 1) p i = p :: path F c n (c p k) j := by
      intro k hk j hj hfind
      refine ⟨k * F ^ n + j, index_lt hk hj, ?_, ?_⟩
      · rwa [find_succ hp, slot_index hj, rest_index hj]
      · rw [path, slot_index hj, rest_index hj]
    rw [mem_blocks_succ, and_iff_right hp]
    constructor
    · rintro (rfl | ⟨k, hk, hmem⟩)
      · obtain ⟨k, hk, hne⟩ := (hfull.resolve_left hp).1
        obtain ⟨j, hj, hfind⟩ := exists_find_ne_zero (hall k hk) hne
        obtain ⟨i, hi, hfind', hpath⟩ := hindex k hk j hj hfind
        exact ⟨i, hi, hfind', hpath ▸ List.mem_cons_self⟩
      · obtain ⟨j, hj, hfind, hmem⟩ := (ih (hall k hk)).mp hmem
        obtain ⟨i, hi, hfind', hpath⟩ := hindex k hk j hj hfind
        exact ⟨i, hi, hfind', hpath ▸ List.mem_cons_of_mem _ hmem⟩
    · rintro ⟨i, hi, hfind, hmem⟩
      rw [find_succ hp] at hfind
      refine (List.mem_cons.mp hmem).imp id fun hmem => ?_
      exact ⟨_, slot_lt hi, (ih (hall _ (slot_lt hi))).mpr ⟨_, rest_lt hi, hfind, hmem⟩⟩

theorem ptr_eq_zero_iff {p' : K} (hfull : Full F c n p) (hfull' : Full F c' n p')
    (hsame : ∀ i < F ^ n, find F c n p i = 0 ↔ find F c' n p' i = 0) : p = 0 ↔ p' = 0 := by
  constructor
  · rintro rfl
    by_contra hne
    obtain ⟨i, hi, hfind⟩ := exists_find_ne_zero hfull' hne
    exact hfind ((hsame i hi).mp (find_zero_ptr i))
  · rintro rfl
    by_contra hne
    obtain ⟨i, hi, hfind⟩ := exists_find_ne_zero hfull hne
    exact hfind ((hsame i hi).mpr (find_zero_ptr i))

theorem missing_congr {p' : K} (hfull : Full F c n p) (hfull' : Full F c' n p')
    (hsame : ∀ i < F ^ n, find F c n p i = 0 ↔ find F c' n p' i = 0) {i : Nat} (hi : i < F ^ n) :
    missing F c n p i = missing F c' n p' i := by
  have hptr := ptr_eq_zero_iff hfull hfull' hsame
  induction n generalizing p p' i with
  | zero => simp only [missing, hptr]
  | succ n ih =>
    by_cases hp : p = 0
    · rw [hp, hptr.mp hp, missing_zero_ptr, missing_zero_ptr]
    have hp' := mt hptr.mpr hp
    obtain hzero | ⟨-, hall⟩ := hfull
    · exact absurd hzero hp
    obtain hzero | ⟨-, hall'⟩ := hfull'
    · exact absurd hzero hp'
    have hslot := slot_lt hi
    have hbelow : ∀ j < F ^ n, find F c n (c p (i / F ^ n)) j = 0 ↔ find F c' n (c' p' (i / F ^ n)) j = 0 := by
      intro j hj
      have hj' := hsame _ (index_lt hslot hj)
      rwa [find_succ hp, find_succ hp', slot_index hj, rest_index hj] at hj'
    rw [missing_succ hp, missing_succ hp']
    exact ih (hall _ hslot) (hall' _ hslot) hbelow (rest_lt hi) (ptr_eq_zero_iff (hall _ hslot) (hall' _ hslot) hbelow)

/-! ### Trees inside one another -/

/-- The tree of height `n` at `p` in the store `c` is part of the tree at `p'` in the store `c'`: every pointer of the one
is a pointer of the other. -/
def Inside (F : Nat) (c c' : Store K) : Nat → K → K → Prop
  | 0, p, p' => p = 0 ∨ p' = p
  | n + 1, p, p' => p = 0 ∨ (p' = p ∧ ∀ k < F, Inside F c c' n (c p k) (c' p k))

namespace Inside

variable {c'' : Store K} {p' p'' : K}

omit [DecidableEq K] in
theorem of_zero : Inside F c c' n 0 p' := by
  cases n <;> exact Or.inl rfl

theorem of_same (hsame : ∀ q ∈ nodes F c n p, c' q = c q) : Inside F c c' n p p ∧ Inside F c' c n p p := by
  induction n generalizing p with
  | zero => exact ⟨Or.inr rfl, Or.inr rfl⟩
  | succ n ih =>
    by_cases hp : p = 0
    · exact ⟨Or.inl hp, Or.inl hp⟩
    have hchild : ∀ k < F, Inside F c c' n (c p k) (c p k) ∧ Inside F c' c n (c p k) (c p k) := fun k hk =>
      ih fun q hq => hsame q (nodes_child_subset hp hk hq)
    constructor
    · refine Or.inr ⟨rfl, fun k hk => ?_⟩
      rw [hsame p (self_mem_nodes hp)]
      exact (hchild k hk).1
    · refine Or.inr ⟨rfl, fun k hk => ?_⟩
      rw [hsame p (self_mem_nodes hp)]
      exact (hchild k hk).2

omit [DecidableEq K] in
theorem trans (hfirst : Inside F c c' n p p') (hsecond : Inside F c' c'' n p' p'') : Inside F c c'' n p p'' := by
  induction n generalizing p p' p'' with
  | zero =>
    obtain hzero | rfl := hfirst
    · exact Or.inl hzero
    · exact hsecond
  | succ n ih =>
    obtain hzero | ⟨rfl, hchild⟩ := hfirst
    · exact Or.inl hzero
    obtain hzero | ⟨rfl, hchild'⟩ := hsecond
    · exact Or.inl hzero
    · exact Or.inr ⟨rfl, fun k hk => ih (hchild k hk) (hchild' k hk)⟩

theorem mem_blocks (hinside : Inside F c c' n p p') {b : K} (hb : b ∈ blocks F c n p) : b ∈ blocks F c' n p' := by
  induction n generalizing p p' with
  | zero =>
    obtain rfl | rfl := hinside
    · simp at hb
    · exact hb
  | succ n ih =>
    obtain ⟨hp, hb⟩ := mem_blocks_succ.mp hb
    obtain ⟨rfl, hchild⟩ := hinside.resolve_left hp
    obtain rfl | ⟨k, hk, hmem⟩ := hb
    · exact mem_blocks_succ.mpr ⟨hp, Or.inl rfl⟩
    · exact mem_blocks_succ.mpr ⟨hp, Or.inr ⟨k, hk, ih (hchild k hk) hmem⟩⟩

theorem find_eq (hinside : Inside F c c' n p p') {i : Nat} (hi : i < F ^ n) (hfind : find F c n p i ≠ 0) :
    find F c' n p' i = find F c n p i ∧ path F c' n p' i = path F c n p i := by
  induction n generalizing p p' i with
  | zero =>
    obtain rfl := hinside.resolve_left hfind
    exact ⟨rfl, rfl⟩
  | succ n ih =>
    have hp : p ≠ 0 := by
      rintro rfl
      exact hfind (find_zero_ptr i)
    obtain ⟨rfl, hchild⟩ := hinside.resolve_left hp
    rw [find_succ hp] at hfind ⊢
    obtain ⟨hsame, hpath⟩ := ih (hchild _ (slot_lt hi)) (rest_lt hi) hfind
    exact ⟨by rw [find_succ hp, hsame], by rw [path, path, hpath]⟩

theorem agree (hfull : Full F c n p) (hfull'' : Full F c'' n p'') (hinside : Inside F c c' n p p')
    (hinside'' : Inside F c'' c' n p'' p') (hsame : ∀ i < F ^ n, find F c n p i = 0 ↔ find F c'' n p'' i = 0) :
    p'' = p ∧ blocks F c'' n p'' = blocks F c n p ∧ ∀ i < F ^ n, find F c'' n p'' i = find F c n p i := by
  have hroot := ptr_eq_zero_iff hfull hfull'' hsame
  by_cases hp : p = 0
  · rw [hp, hroot.mp hp]
    simp
  have hp'' : p'' ≠ 0 := mt hroot.mpr hp
  induction n generalizing p p' p'' with
  | zero =>
    obtain rfl : p'' = p := (hinside''.resolve_left hp'').symm.trans (hinside.resolve_left hp)
    exact ⟨rfl, rfl, fun _ _ => rfl⟩
  | succ n ih =>
    obtain ⟨rfl, hchild⟩ := hinside.resolve_left hp
    obtain ⟨rfl, hchild''⟩ := hinside''.resolve_left hp''
    have hagree : ∀ k < F, c'' p' k = c p' k ∧ blocks F c'' n (c'' p' k) = blocks F c n (c p' k) ∧
        ∀ i < F ^ n, find F c'' n (c'' p' k) i = find F c n (c p' k) i := by
      intro k hk
      have hfullChild := (hfull.resolve_left hp).2 k hk
      have hfullChild'' := (hfull''.resolve_left hp).2 k hk
      have hsameChild : ∀ i < F ^ n, find F c n (c p' k) i = 0 ↔ find F c'' n (c'' p' k) i = 0 := by
        intro i hi
        have hindex := hsame _ (index_lt hk hi)
        rwa [find_succ hp, find_succ hp, slot_index hi, rest_index hi] at hindex
      have hrootChild := ptr_eq_zero_iff hfullChild hfullChild'' hsameChild
      by_cases hzero : c p' k = 0
      · rw [hzero, hrootChild.mp hzero]
        simp
      · exact ih hfullChild hfullChild'' (hchild k hk) (hchild'' k hk) hsameChild hrootChild hzero
          (mt hrootChild.mpr hzero)
    refine ⟨rfl, ?_, fun i hi => ?_⟩
    · rw [blocks_succ hp, blocks_succ hp, forest, forest]
      congr 1
      apply List.flatMap_congr
      intro k hk
      exact (hagree k (List.mem_range.mp hk)).2.1
    · rw [find_succ hp, find_succ hp]
      exact (hagree _ (slot_lt hi)).2.2 _ (rest_lt hi)

end Inside

/-! ### Changing one index -/

/-- The tree of height `n` at `p` has become the tree at `p'`: index `i` now maps to `b` and every other
index to what it did, the blocks `adds` are new and `dels` are gone, and of the live blocks only pointer
blocks of this tree have changed. -/
structure Edit (F : Nat) (live : K → Prop) (c c' : Store K) (n : Nat) (p p' : K) (i : Nat) (b : K)
    (adds dels : List K) : Prop where
  perm : (blocks F c' n p' ++ dels).Perm (adds ++ blocks F c n p)
  find_eq : ∀ j < F ^ n, find F c' n p' j = if j = i then b else find F c n p j
  frame : ∀ q, live q → q ∉ nodes F c n p → c' q = c q

omit [Zero K] in
theorem flatMap_range_perm {f f' : Nat → List K} {m r : Nat} {adds dels : List K} (hr : r < m)
    (hsame : ∀ k < m, k ≠ r → f' k = f k) (hperm : (f' r ++ dels).Perm (adds ++ f r)) :
    ((List.range m).flatMap f' ++ dels).Perm (adds ++ (List.range m).flatMap f) := by
  induction m with
  | zero => omega
  | succ m ih =>
    simp only [List.range_succ, List.flatMap_append, List.flatMap_singleton]
    by_cases heq : r = m
    · have hbelow : (List.range m).flatMap f' = (List.range m).flatMap f := by
        apply List.flatMap_congr
        intro k hk
        rw [List.mem_range] at hk
        exact hsame k (by omega) (by omega)
      rw [hbelow, ← heq]
      rw [List.perm_iff_count] at hperm ⊢
      intro a
      have hcount := hperm a
      simp only [List.count_append] at hcount ⊢
      omega
    · have hbelow := ih (by omega) fun k hk => hsame k (by omega)
      rw [hsame m (by omega) fun h => heq h.symm]
      rw [List.perm_iff_count] at hbelow ⊢
      intro a
      have hcount := hbelow a
      simp only [List.count_append] at hcount ⊢
      omega

theorem perm_forest_graft {h : Nat → Nat} {e : Nat → K} {m r : Nat} {p' : K} {adds : List K} (hr : r < m)
    (hempty : e r = 0) (hsame : ∀ k < m, ∀ q ∈ nodes F c (h k) (e k), c' q = c q)
    (hblocks : (blocks F c' (h r) p').Perm adds) :
    (forest F c' h (Function.update e r p') m).Perm (adds ++ forest F c h e m) := by
  have hperm : (forest F c' h (Function.update e r p') m ++ []).Perm (adds ++ forest F c h e m) := by
    refine flatMap_range_perm hr (fun k hk hne => ?_) ?_
    · rw [Function.update_of_ne hne]
      exact blocks_congr (hsame k hk)
    · rw [Function.update_self, hempty, blocks_zero_ptr, List.append_nil, List.append_nil]
      exact hblocks
  rwa [List.append_nil] at hperm

namespace Edit

variable {live : K → Prop} {p' : K} {i : Nat} {b : K} {adds dels : List K}

theorem refl (p : K) (i : Nat) : Edit F live c c n p p i (find F c n p i) [] [] := by
  refine ⟨by simp, fun j _ => ?_, fun _ _ _ => rfl⟩
  split_ifs with heq
  · rw [heq]
  · rfl

theorem mono {live' : K → Prop} (hedit : Edit F live c c' n p p' i b adds dels)
    (hlive : ∀ q, live' q → live q) : Edit F live' c c' n p p' i b adds dels :=
  ⟨hedit.perm, hedit.find_eq, fun q hq => hedit.frame q (hlive q hq)⟩

theorem of_store {live' : K → Prop} {c₂ : Store K} (hedit : Edit F live c c' n p p' i b adds dels)
    (hsame : ∀ q ∈ nodes F c' n p', c₂ q = c' q) (hlive : ∀ q, live' q → live q ∧ c₂ q = c' q) :
    Edit F live' c c₂ n p p' i b adds dels where
  perm := by
    rw [blocks_congr hsame]
    exact hedit.perm
  find_eq j hj := by
    rw [find_congr hsame hj]
    exact hedit.find_eq j hj
  frame q hq hnode := (hlive q hq).2.trans (hedit.frame q (hlive q hq).1 hnode)

theorem perm_dels {dels' : List K} (hedit : Edit F live c c' n p p' i b adds dels)
    (hperm : dels.Perm dels') : Edit F live c c' n p p' i b adds dels' :=
  ⟨((List.perm_append_left_iff _).mpr hperm.symm).trans hedit.perm, hedit.find_eq, hedit.frame⟩

section Forest

variable {h : Nat → Nat} {e : Nat → K} {m r : Nat} (hr : r < m)
  (hedit : Edit F live c c' (h r) (e r) p' i b adds dels)
  (hnodup : (forest F c h e m).Nodup) (hlive : ∀ q ∈ forest F c h e m, live q)

include hr hedit hnodup hlive

theorem frame_forest {k : Nat} (hk : k < m) (hne : k ≠ r) : ∀ q ∈ nodes F c (h k) (e k), c' q = c q := by
  intro q hq
  have hmem := blocks_of_mem_nodes hq
  refine hedit.frame q (hlive q (mem_forest.mpr ⟨k, hk, hmem⟩)) fun hnode => hne ?_
  exact forest_slot_unique hnodup hk hr hmem (blocks_of_mem_nodes hnode)

theorem perm_forest :
    (forest F c' h (Function.update e r p') m ++ dels).Perm (adds ++ forest F c h e m) := by
  refine flatMap_range_perm hr ?_ ?_
  · intro k hk hne
    rw [Function.update_of_ne hne]
    exact blocks_congr (frame_forest hr hedit hnodup hlive hk hne)
  · rw [Function.update_self]
    exact hedit.perm

end Forest

/-! The block that points to an edited tree. -/

section Node

variable {q' : K}

section Stay

variable (hp : p ≠ 0) (hi : i < F ^ (n + 1)) (hnodup : (blocks F c (n + 1) p).Nodup)
  (hlive : ∀ q ∈ blocks F c (n + 1) p, live q)
  (hedit : Edit F (fun q => live q ∧ q ≠ p) c c' n (c p (i / F ^ n)) q' (i % F ^ n) b adds dels)

include hp hi hnodup hlive hedit

omit hi hedit in
theorem live_children : ∀ q ∈ forest F c (fun _ => n) (c p) F, live q ∧ q ≠ p := by
  intro q hq
  refine ⟨hlive q ?_, ?_⟩
  · rw [blocks_succ hp]
    exact List.mem_cons_of_mem _ hq
  · rintro rfl
    exact (nodup_children hp hnodup).1 hq

theorem frame_node {k : Nat} (hk : k < F) (hne : k ≠ i / F ^ n) : ∀ q ∈ nodes F c n (c p k), c' q = c q :=
  frame_forest (slot_lt hi) hedit (nodup_children hp hnodup).2 (live_children hp hnodup hlive) hk hne

variable (hwrite : c' p = Function.update (c p) (i / F ^ n) q')

include hwrite

theorem node_stay : Edit F live c c' (n + 1) p p i b adds dels := by
  refine ⟨?_, ?_, ?_⟩
  · rw [blocks_succ hp, blocks_succ hp, hwrite]
    have hperm := perm_forest (slot_lt hi) hedit (nodup_children hp hnodup).2 (live_children hp hnodup hlive)
    rw [List.perm_iff_count] at hperm ⊢
    intro a
    have hcount := hperm a
    simp only [List.count_append, List.cons_append, List.count_cons] at hcount ⊢
    omega
  · intro j hj
    rw [find_succ hp, find_succ hp, hwrite]
    by_cases hslot : j / F ^ n = i / F ^ n
    · rw [hslot, Function.update_self, hedit.find_eq _ (rest_lt hj)]
      refine if_congr ?_ rfl rfl
      constructor
      · intro hrest
        rw [← Nat.div_add_mod j (F ^ n), ← Nat.div_add_mod i (F ^ n), hslot, hrest]
      · rintro rfl
        rfl
    · have hne : j ≠ i := by
        rintro rfl
        exact hslot rfl
      rw [Function.update_of_ne hslot, if_neg hne]
      exact find_congr (frame_node hp hi hnodup hlive hedit (slot_lt hj) hslot) (rest_lt hj)
  · intro q hq hnode
    rw [mem_nodes_succ] at hnode
    push Not at hnode
    obtain ⟨hne, hchildren⟩ := hnode hp
    exact hedit.frame q ⟨hq, hne⟩ (hchildren _ (slot_lt hi))

theorem full_node_stay (hfull : ∀ k < F, Full F c n (c p k)) (hfull' : Full F c' n q')
    (hsome : ∃ k < F, c' p k ≠ 0) : Full F c' (n + 1) p := by
  refine Or.inr ⟨hsome, fun k hk => ?_⟩
  rw [hwrite]
  by_cases hslot : k = i / F ^ n
  · rwa [hslot, Function.update_self]
  · rw [Function.update_of_ne hslot]
    exact full_congr (frame_node hp hi hnodup hlive hedit hk hslot) (hfull k hk)

theorem inside_node_grown (hinside : Inside F c c' n (c p (i / F ^ n)) q') : Inside F c c' (n + 1) p p := by
  refine Or.inr ⟨rfl, fun k hk => ?_⟩
  rw [hwrite]
  by_cases hslot : k = i / F ^ n
  · rwa [hslot, Function.update_self]
  · rw [Function.update_of_ne hslot]
    exact (Inside.of_same (frame_node hp hi hnodup hlive hedit hk hslot)).1

theorem inside_node_shrunk (hinside : Inside F c' c n q' (c p (i / F ^ n))) : Inside F c' c (n + 1) p p := by
  refine Or.inr ⟨rfl, fun k hk => ?_⟩
  rw [hwrite]
  by_cases hslot : k = i / F ^ n
  · rwa [hslot, Function.update_self]
  · rw [Function.update_of_ne hslot]
    exact (Inside.of_same (frame_node hp hi hnodup hlive hedit hk hslot)).2

end Stay

theorem node_gone (hp : p ≠ 0) (hi : i < F ^ (n + 1)) (hothers : ∀ k < F, k ≠ i / F ^ n → c p k = 0)
    (hedit : Edit F (fun q => live q ∧ q ≠ p) c c' n (c p (i / F ^ n)) 0 (i % F ^ n) 0 adds dels) :
    Edit F live c c' (n + 1) p 0 i 0 adds (p :: dels) := by
  have hslot := slot_lt hi
  have hforest : (forest F c (fun _ => n) (c p) F).Perm (blocks F c n (c p (i / F ^ n))) := by
    have hperm : (forest F c (fun _ => n) (c p) F ++ []).Perm
        (blocks F c n (c p (i / F ^ n)) ++ (List.range F).flatMap fun _ => []) := by
      refine flatMap_range_perm hslot (fun k hk hne => ?_) (by simp)
      rw [hothers k hk hne, blocks_zero_ptr]
    rwa [List.append_nil, List.flatMap_eq_nil_iff.mpr fun _ _ => rfl, List.append_nil] at hperm
  refine ⟨?_, ?_, ?_⟩
  · have hperm := hedit.perm
    rw [blocks_succ hp, blocks_zero_ptr]
    rw [blocks_zero_ptr] at hperm
    rw [List.perm_iff_count] at hperm hforest ⊢
    intro a
    have hcount := hperm a
    have hcountForest := hforest a
    simp only [List.count_append, List.count_cons, List.nil_append] at hcount ⊢
    omega
  · intro j hj
    rw [find_zero_ptr]
    split_ifs with heq
    · rfl
    · rw [find_succ hp]
      by_cases hslotJ : j / F ^ n = i / F ^ n
      · have hrest : j % F ^ n ≠ i % F ^ n := by
          intro hrest
          apply heq
          rw [← Nat.div_add_mod j (F ^ n), ← Nat.div_add_mod i (F ^ n), hslotJ, hrest]
        have hfind := hedit.find_eq _ (rest_lt hj)
        rw [find_zero_ptr, if_neg hrest] at hfind
        rw [hslotJ, ← hfind]
      · rw [hothers _ (slot_lt hj) hslotJ, find_zero_ptr]
  · intro q hq hnode
    rw [mem_nodes_succ] at hnode
    push Not at hnode
    obtain ⟨hne, hchildren⟩ := hnode hp
    exact hedit.frame q ⟨hq, hne⟩ (hchildren _ hslot)

end Node

theorem of_empty {live₁ : K → Prop} {c₁ : Store K} (hp : p ≠ 0) (hzero : ∀ k < F, c₁ p k = 0)
    (hedit : Edit F live₁ c₁ c' (n + 1) p p i b adds dels)
    (hlive : ∀ q, live q → live₁ q ∧ q ≠ p ∧ c₁ q = c q) :
    Edit F live c c' (n + 1) 0 p i b (p :: adds) dels := by
  have hblocks := blocks_of_zero_entries (n := n) hp hzero
  refine ⟨?_, ?_, ?_⟩
  · have hperm := hedit.perm
    rw [hblocks] at hperm
    rw [blocks_zero_ptr]
    rw [List.perm_iff_count] at hperm ⊢
    intro a
    have hcount := hperm a
    simp only [List.count_append, List.count_cons, List.count_nil] at hcount ⊢
    omega
  · intro j hj
    rw [hedit.find_eq j hj, find_succ hp, hzero _ (slot_lt hj), find_zero_ptr, find_zero_ptr]
  · intro q hq _
    obtain ⟨hq₁, hne, heq⟩ := hlive q hq
    rw [← heq]
    refine hedit.frame q hq₁ fun hnode => hne ?_
    have hmem := blocks_of_mem_nodes hnode
    rw [hblocks] at hmem
    exact List.mem_singleton.mp hmem

theorem leaf_alloc (hb : b ≠ 0) (hframe : ∀ q, live q → c' q = c q) :
    Edit F live c c' 0 0 b 0 b [b] [] := by
  refine ⟨by simp [blocks, hb], ?_, fun q hq _ => hframe q hq⟩
  intro j hj
  rw [pow_zero, Nat.lt_one_iff] at hj
  rw [hj, if_pos rfl, find]

theorem leaf_free (hp : p ≠ 0) (hframe : ∀ q, live q → c' q = c q) :
    Edit F live c c' 0 p 0 0 0 [] [p] := by
  refine ⟨by simp [blocks, hp], ?_, fun q hq _ => hframe q hq⟩
  intro j hj
  rw [pow_zero, Nat.lt_one_iff] at hj
  rw [hj, if_pos rfl, find_zero_ptr]

end Edit

end PointerTree
