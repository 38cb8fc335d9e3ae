import Mathlib.Data.List.Induction
import Mathlib.Data.List.Pairwise
import Mathlib.Logic.Function.Basic

/-!
# Loops over the cells of a grid

The cells are visited row by row. Rules for such loops: each step reaches a goal of its own that later steps keep, each
step fills a cell of an array, or each step copies one to another that is not read any more.
-/

namespace Sweep

variable {σ ι κ α : Type}

def cells (first rows cols : Nat) : List (Nat × Nat) :=
  (List.range' first rows).flatMap fun r => (List.range cols).map fun c => (r, c)

theorem mem_cells {first rows cols r c : Nat} :
    (r, c) ∈ cells first rows cols ↔ (first ≤ r ∧ r < first + rows) ∧ c < cols := by
  simp [cells, List.mem_range'_1]

theorem pairwise_cells (first rows cols : Nat) :
    (cells first rows cols).Pairwise fun x y => x.1 < y.1 ∨ x.1 = y.1 ∧ x.2 < y.2 := by
  rw [cells, List.pairwise_flatMap]
  constructor
  · intro r _
    rw [List.pairwise_map]
    exact List.pairwise_lt_range.imp fun hlt => .inr ⟨rfl, hlt⟩
  · refine (List.pairwise_lt_range' (s := first) (n := rows)).imp fun hlt x hx y hy => ?_
    obtain ⟨c, -, rfl⟩ := List.mem_map.mp hx
    obtain ⟨d, -, rfl⟩ := List.mem_map.mp hy
    exact .inl hlt

theorem foldl_reaches (step : σ → ι → σ) (P : σ → Prop) (Q : ι → σ → Prop) {l : List ι} {s : σ} (hP : P s)
    (hstep : ∀ s, P s → ∀ x ∈ l, P (step s x) ∧ Q x (step s x))
    (hkeep : ∀ s, P s → ∀ x ∈ l, ∀ y ∈ l, Q y s → Q y (step s x)) :
    P (l.foldl step s) ∧ ∀ y ∈ l, Q y (l.foldl step s) := by
  induction l using List.reverseRecOn with
  | nil => exact ⟨hP, fun y hy => absurd hy List.not_mem_nil⟩
  | append_singleton l x ih =>
    have hmem : ∀ y ∈ l, y ∈ l ++ [x] := fun y => List.mem_append_left [x]
    have hx : x ∈ l ++ [x] := List.mem_append_right l List.mem_cons_self
    obtain ⟨hdone, hgoals⟩ := ih (fun s hs y hy => hstep s hs y (hmem y hy))
      fun s hs y hy z hz => hkeep s hs y (hmem y hy) z (hmem z hz)
    rw [List.foldl_append, List.foldl_cons, List.foldl_nil]
    obtain ⟨hnext, hgoal⟩ := hstep _ hdone x hx
    refine ⟨hnext, fun y hy => ?_⟩
    rcases List.mem_append.mp hy with hold | hnew
    · exact hkeep _ hdone x hx y hy (hgoals y hold)
    · rw [List.mem_singleton.mp hnew]
      exact hgoal

section Arrays

variable [DecidableEq κ] (dst src : ι → κ)

def fillLoop (v : α) (l : List ι) (f : κ → α) : κ → α := l.foldl (fun f x => Function.update f (dst x) v) f

theorem fillLoop_of_forall_ne {v : α} {l : List ι} {f : κ → α} {k : κ} (hk : ∀ x ∈ l, dst x ≠ k) :
    fillLoop dst v l f k = f k := by
  induction l generalizing f with
  | nil => rfl
  | cons x l ih =>
    have hrest := ih (f := Function.update f (dst x) v) fun y hy => hk y (List.mem_cons_of_mem x hy)
    rw [Function.update_of_ne (hk x List.mem_cons_self).symm] at hrest
    exact hrest

theorem fillLoop_dst {v : α} {l : List ι} {f : κ → α} {x : ι} (hx : x ∈ l) : fillLoop dst v l f (dst x) = v := by
  induction l using List.reverseRecOn with
  | nil => cases hx
  | append_singleton l y ih =>
    rw [fillLoop, List.foldl_append, List.foldl_cons, List.foldl_nil]
    by_cases hlast : dst x = dst y
    · rw [hlast, Function.update_self]
    · rw [Function.update_of_ne hlast]
      refine ih ((List.mem_append.mp hx).resolve_right fun hmem => hlast ?_)
      rw [List.mem_singleton.mp hmem]

def copyLoop (l : List ι) (f : κ → α) : κ → α := l.foldl (fun f x => Function.update f (dst x) (f (src x))) f

theorem copyLoop_of_forall_ne {l : List ι} {f : κ → α} {k : κ} (hk : ∀ x ∈ l, dst x ≠ k) :
    copyLoop dst src l f k = f k := by
  induction l generalizing f with
  | nil => rfl
  | cons x l ih =>
    have hrest := ih (f := Function.update f (dst x) (f (src x))) fun y hy => hk y (List.mem_cons_of_mem x hy)
    rw [Function.update_of_ne (hk x List.mem_cons_self).symm] at hrest
    exact hrest

theorem copyLoop_dst {l : List ι} {f : κ → α} (hl : l.Pairwise fun x y => dst x ≠ src y ∧ dst y ≠ dst x) {x : ι}
    (hx : x ∈ l) : copyLoop dst src l f (dst x) = f (src x) := by
  induction l generalizing f with
  | nil => cases hx
  | cons y l ih =>
    obtain ⟨hfirst, hrest⟩ := List.pairwise_cons.mp hl
    change copyLoop dst src l (Function.update f (dst y) (f (src y))) (dst x) = f (src x)
    rcases List.mem_cons.mp hx with rfl | hmem
    · rw [copyLoop_of_forall_ne dst src fun z hz => (hfirst z hz).2, Function.update_self]
    · rw [ih hrest hmem, Function.update_of_ne (hfirst x hmem).1.symm]

end Arrays

end Sweep
