import DeprecatOS.RingBuffer
import DeprecatOS.Lib.Fifo
import DeprecatOS.Proof.Scheduler

/-!
# The ring queues are queues

The ring buffer of the keyboard and the queue of processes answer every sequence of calls as a first-in first-out queue
of 255 elements does. `pqueue_pop` and `pqueue_peek` answer with a pointer, and null says that there is none.
-/

namespace DeprecatOS

def queueCapacity : Nat := 255

/-! ### The ring buffer -/

inductive RbCall where
  | push (c : UInt8)
  | pop
  | peek

def RbCall.op : RbCall → Fifo.Op UInt8
  | .push c => .push c
  | .pop => .pop
  | .peek => .peek

namespace RingBuffer

variable {rb : RingBuffer} {c : UInt8}

def call (rb : RingBuffer) : RbCall → Fifo.Answer UInt8 × RingBuffer
  | .push c => (.pushed (rb.rbPush c).1, (rb.rbPush c).2)
  | .pop => (.element rb.rbPop.1, rb.rbPop.2)
  | .peek => (.element rb.rbPeek, rb)

def held (rb : RingBuffer) : List UInt8 := Ring.held rb.queue rb.head rb.tail

theorem rbIsEmpty_iff : rb.rbIsEmpty = true ↔ rb.held = [] := by
  rw [rbIsEmpty, decide_eq_true_iff, ← List.length_eq_zero_iff, held, Ring.length_held, Ring.toNat_sub_eq_zero_iff, eq_comm]

theorem length_held_lt_iff : rb.held.length < queueCapacity ↔ rb.head + 1 ≠ rb.tail := by
  have hlt : (rb.head - rb.tail).toNat < 256 := UInt8.toNat_lt _
  rw [held, Ring.length_held, ne_eq, ← Ring.toNat_sub_eq_max_iff]
  unfold queueCapacity
  omega

theorem held_of_some (hsome : rb.head ≠ rb.tail) :
    rb.held = rb.queue rb.tail :: held { rb with tail := rb.tail + 1 } := Ring.held_pop hsome

theorem call_eq (rb : RingBuffer) (f : RbCall) :
    (rb.call f).1 = (Fifo.step queueCapacity rb.held f.op).1 ∧
      (rb.call f).2.held = (Fifo.step queueCapacity rb.held f.op).2 := by
  cases f with
  | push c =>
    simp only [call, RbCall.op, Fifo.step, rbPush]
    by_cases hfull : rb.head + 1 = rb.tail
    · rw [if_pos hfull, if_neg (mt length_held_lt_iff.mp (not_not.mpr hfull))]
      exact ⟨rfl, rfl⟩
    · rw [if_neg hfull, if_pos (length_held_lt_iff.mpr hfull)]
      exact ⟨rfl, Ring.held_push hfull⟩
  | pop =>
    simp only [call, RbCall.op, Fifo.step, rbPop]
    by_cases hempty : rb.rbIsEmpty
    · rw [if_pos hempty, rbIsEmpty_iff.mp hempty]
      exact ⟨rfl, rfl⟩
    · rw [if_neg hempty, held_of_some (by simpa [rbIsEmpty, eq_comm] using hempty)]
      exact ⟨rfl, rfl⟩
  | peek =>
    simp only [call, RbCall.op, Fifo.step, rbPeek, and_true]
    by_cases hempty : rb.rbIsEmpty
    · rw [if_pos hempty, rbIsEmpty_iff.mp hempty]
      rfl
    · rw [if_neg hempty, held_of_some (by simpa [rbIsEmpty, eq_comm] using hempty)]
      rfl

theorem answers_call (rb : RingBuffer) (calls : List RbCall) :
    Fifo.answers call rb.rbInit calls = Fifo.answers (Fifo.step queueCapacity) [] (calls.map RbCall.op) := by
  have hanswers : Fifo.answers call rb.rbInit calls =
      (Fifo.answers (Fifo.step queueCapacity) [] (calls.map RbCall.op)).map id :=
    Fifo.answers_eq_map (R := fun rb l => RingBuffer.held rb = l) (by rintro rb l f rfl; exact call_eq rb f)
      (show rb.rbInit.held = [] from Ring.held_self) calls
  rwa [List.map_id] at hanswers

end RingBuffer

/-! ### The queue of processes -/

inductive PqueueAnswer where
  | pushed (ok : Bool)
  | process (p : UInt32)
  | size (n : Nat)

def PqueueAnswer.ofAnswer : Fifo.Answer UInt32 → PqueueAnswer
  | .pushed ok => .pushed ok
  | .element p => .process (p.getD 0)
  | .count n => .size n

def PqueueAnswer.read : PqueueAnswer → Fifo.Answer UInt32
  | .pushed ok => .pushed ok
  | .process p => .element (if p = 0 then none else some p)
  | .size n => .count n

namespace Sched

variable {s : Sched}

def queueCall (s : Sched) : Fifo.Op UInt32 → PqueueAnswer × Sched
  | .push p => (.pushed (s.pqueuePush p).1, (s.pqueuePush p).2)
  | .pop => (.process s.pqueuePop.1, s.pqueuePop.2)
  | .peek => (.process s.pqueuePeek, s)
  | .size => (.size s.pqueueSize.toNat, s)

theorem waiting_eq_nil_iff : s.waiting = [] ↔ s.size = 0 := by rw [← List.length_eq_zero_iff, length_waiting]

theorem pqueuePeek_eq : s.pqueuePeek = s.pqueuePop.1 := by
  unfold pqueuePeek pqueuePop
  split_ifs <;> rfl

theorem head_waiting (s : Sched) : s.waiting.head?.getD 0 = s.pqueuePop.1 ∧ s.waiting.tail = s.pqueuePop.2.waiting := by
  by_cases hempty : s.size = 0
  · have hpop : s.pqueuePop = (0, s) := if_pos (pqueueIsEmpty_iff.mpr hempty)
    rw [hpop, waiting_eq_nil_iff.mpr hempty]
    exact ⟨rfl, rfl⟩
  · rw [waiting_pqueuePop hempty]
    exact ⟨rfl, rfl⟩

theorem queueCall_eq (s : Sched) (op : Fifo.Op UInt32) :
    (s.queueCall op).1 = .ofAnswer (Fifo.step queueCapacity s.waiting op).1 ∧
      (s.queueCall op).2.waiting = (Fifo.step queueCapacity s.waiting op).2 := by
  cases op with
  | push p =>
    simp only [queueCall, Fifo.step, length_waiting]
    by_cases hroom : s.size < queueCapacity
    · rw [if_pos hroom, waiting_pqueuePush hroom, pqueuePush_of_room hroom]
      exact ⟨rfl, rfl⟩
    · have hfull : s.size = 255 := by
        have hlt := s.size_lt
        unfold queueCapacity at hroom
        omega
      rw [if_neg hroom, pqueuePush_of_full hfull]
      exact ⟨rfl, rfl⟩
  | pop =>
    simp only [queueCall, Fifo.step, PqueueAnswer.ofAnswer, (head_waiting s).1, (head_waiting s).2, and_self]
  | peek => simp only [queueCall, Fifo.step, PqueueAnswer.ofAnswer, pqueuePeek_eq, (head_waiting s).1, and_self]
  | size =>
    simp only [queueCall, Fifo.step, PqueueAnswer.ofAnswer, length_waiting, and_true]
    rfl

theorem answers_queueCall (s : Sched) (ops : List (Fifo.Op UInt32)) :
    Fifo.answers queueCall s.pqueueInit ops =
      (Fifo.answers (Fifo.step queueCapacity) [] ops).map PqueueAnswer.ofAnswer := by
  have hanswers : Fifo.answers queueCall s.pqueueInit ops =
      (Fifo.answers (Fifo.step queueCapacity) [] (ops.map id)).map PqueueAnswer.ofAnswer :=
    Fifo.answers_eq_map (R := fun s l => Sched.waiting s = l) (by rintro s l op rfl; exact queueCall_eq s op)
      (show s.pqueueInit.waiting = [] from Ring.held_self) ops
  rwa [List.map_id] at hanswers

end Sched

theorem read_ofAnswer {a : Fifo.Answer UInt32} (hsome : a ≠ .element (some 0)) : (PqueueAnswer.ofAnswer a).read = a := by
  cases a with
  | pushed ok => rfl
  | element p =>
    cases p with
    | none => rfl
    | some p =>
      have hne : p ≠ 0 := fun h => hsome (by rw [h])
      simp [PqueueAnswer.ofAnswer, PqueueAnswer.read, hne]
  | count n => rfl

theorem Sched.read_answers_queueCall (s : Sched) {ops : List (Fifo.Op UInt32)} (hpushed : ∀ p, .push p ∈ ops → p ≠ 0) :
    (Fifo.answers queueCall s.pqueueInit ops).map PqueueAnswer.read = Fifo.answers (Fifo.step queueCapacity) [] ops := by
  have helements : ∀ a, Fifo.Answer.element (some a) ∈ Fifo.answers (Fifo.step queueCapacity) [] ops → a ≠ 0 :=
    Fifo.forall_element_answers (P := fun p : UInt32 => p ≠ 0) (by simp) hpushed
  rw [answers_queueCall, List.map_map]
  conv_rhs => rw [← List.map_id (Fifo.answers (Fifo.step queueCapacity) [] ops)]
  apply List.map_congr_left
  intro a ha
  exact read_ofAnswer fun heq => helements 0 (heq ▸ ha) rfl

/-- **The ring queues are queues.** After they are set up, the ring buffer and the queue of processes answer every
sequence of calls as a queue of 255 elements does. -/
theorem queues_answer_as_fifo (rb : RingBuffer) (s : Sched) :
    (∀ calls : List RbCall,
      Fifo.answers RingBuffer.call rb.rbInit calls = Fifo.answers (Fifo.step 255) [] (calls.map RbCall.op)) ∧
      ∀ ops : List (Fifo.Op UInt32),
        Fifo.answers Sched.queueCall s.pqueueInit ops =
            (Fifo.answers (Fifo.step 255) [] ops).map PqueueAnswer.ofAnswer ∧
          ((∀ p, .push p ∈ ops → p ≠ 0) →
            (Fifo.answers Sched.queueCall s.pqueueInit ops).map PqueueAnswer.read =
              Fifo.answers (Fifo.step 255) [] ops) :=
  ⟨rb.answers_call, fun ops => ⟨s.answers_queueCall ops, s.read_answers_queueCall⟩⟩

end DeprecatOS
