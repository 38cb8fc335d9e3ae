import Mathlib.Logic.Basic

/-!
# Bounded queues

A first-in first-out queue of bounded capacity as a list, the oldest element first, and what a sequence of operations
answers. An implementation whose states represent such lists, and whose single operations answer as the queue does,
answers every sequence as the queue does.
-/

namespace Fifo

def answers {σ ι ω : Type} (step : σ → ι → ω × σ) : σ → List ι → List ω
  | _, [] => []
  | s, op :: ops => (step s op).1 :: answers step (step s op).2 ops

/-- One step of an implementation that answers as an abstract step does keeps the relation of their states. -/
theorem answers_eq_map {σ τ ι κ ω ψ : Type} {step : σ → ι → ω × σ} {abstract : τ → κ → ψ × τ} {R : σ → τ → Prop}
    {op : ι → κ} {answer : ψ → ω}
    (hstep : ∀ s t i, R s t → (step s i).1 = answer (abstract t (op i)).1 ∧ R (step s i).2 (abstract t (op i)).2)
    {s : σ} {t : τ} (hrel : R s t) (ops : List ι) :
    answers step s ops = (answers abstract t (ops.map op)).map answer := by
  induction ops generalizing s t with
  | nil => rfl
  | cons i ops ih =>
    obtain ⟨hanswer, hnext⟩ := hstep s t i hrel
    rw [List.map_cons, answers, answers, List.map_cons, hanswer, ih hnext]

variable {α : Type}

inductive Op (α : Type) where
  | push (a : α)
  | pop
  | peek
  | size

inductive Answer (α : Type) where
  | pushed (ok : Bool)
  | element (a : Option α)
  | count (n : Nat)
  deriving DecidableEq

/-- A push fails when `capacity` elements are held; there is no element to pop or to peek at when none is. -/
def step (capacity : Nat) (held : List α) : Op α → Answer α × List α
  | .push a => if held.length < capacity then (.pushed true, held ++ [a]) else (.pushed false, held)
  | .pop => (.element held.head?, held.tail)
  | .peek => (.element held.head?, held)
  | .size => (.count held.length, held)

theorem forall_element_answers {capacity : Nat} {P : α → Prop} {held : List α} {ops : List (Op α)}
    (hheld : ∀ a ∈ held, P a) (hpushed : ∀ a, Op.push a ∈ ops → P a) :
    ∀ a, Answer.element (some a) ∈ answers (step capacity) held ops → P a := by
  induction ops generalizing held with
  | nil => simp [answers]
  | cons op ops ih =>
    intro a ha
    have hrest : ∀ a, Op.push a ∈ ops → P a := fun a h => hpushed a (List.mem_cons_of_mem _ h)
    have hfirst : ∀ a, held.head? = some a → P a := fun a h => hheld a (List.mem_of_mem_head? h)
    cases op with
    | push b =>
      have hb := hpushed b List.mem_cons_self
      by_cases hroom : held.length < capacity
      · simp only [answers, step, if_pos hroom, List.mem_cons, reduceCtorEq, false_or] at ha
        exact ih (by simpa [or_imp, forall_and] using ⟨hheld, hb⟩) hrest a ha
      · simp only [answers, step, if_neg hroom, List.mem_cons, reduceCtorEq, false_or] at ha
        exact ih hheld hrest a ha
    | pop =>
      simp only [answers, step, List.mem_cons, Answer.element.injEq] at ha
      obtain ha | ha := ha
      · exact hfirst a ha.symm
      · exact ih (fun a h => hheld a (List.mem_of_mem_tail h)) hrest a ha
    | peek =>
      simp only [answers, step, List.mem_cons, Answer.element.injEq] at ha
      obtain ha | ha := ha
      · exact hfirst a ha.symm
      · exact ih hheld hrest a ha
    | size =>
      simp only [answers, step, List.mem_cons, reduceCtorEq, false_or] at ha
      exact ih hheld hrest a ha

end Fifo
