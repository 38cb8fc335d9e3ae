import DeprecatOS.Scheduler
import DeprecatOS.Lib.Ring
import Mathlib.Data.List.Nodup
import Mathlib.Data.List.Perm.Subperm
import Mathlib.Data.List.Rotate
import Mathlib.Logic.Relation
import Mathlib.Tactic.SplitIfs

/-!
# No process is lost

A push onto the full ring fails, and neither `schedule` nor the functions that create a process notice. As long as that
does not happen, the running process and those in the ring are the processes that are alive, each of them once.
-/

namespace DeprecatOS

namespace Sched

variable {s : Sched} {p : UInt32}

def size (s : Sched) : Nat := (s.head - s.tail).toNat

def waiting (s : Sched) : List UInt32 := Ring.contents 256 (fun i => s.queue (UInt8.ofNat i)) s.tail.toNat s.size

@[simp]
theorem length_waiting : s.waiting.length = s.size := Ring.length_contents

theorem size_lt : s.size < 256 := UInt8.toNat_lt _

theorem pqueueIsEmpty_iff : s.pqueueIsEmpty = true ↔ s.size = 0 := by
  rw [pqueueIsEmpty, decide_eq_true_iff, size, Ring.toNat_sub_eq_zero_iff]

theorem isFull_iff : s.head + 1 = s.tail ↔ s.size = 255 := Ring.toNat_sub_eq_max_iff.symm

/-! ### One operation on the ring -/

theorem pqueuePush_of_full (hfull : s.size = 255) : s.pqueuePush p = (false, s) := if_pos (isFull_iff.mpr hfull)

theorem pqueuePush_of_room (hroom : s.size < 255) :
    s.pqueuePush p = (true, { s with queue := Function.update s.queue s.head p, head := s.head + 1 }) :=
  if_neg (mt isFull_iff.mp hroom.ne)

theorem size_pqueuePush (hroom : s.size < 255) : (s.pqueuePush p).2.size = s.size + 1 := by
  rw [pqueuePush_of_room hroom]
  exact Ring.toNat_succ_sub (mt isFull_iff.mp hroom.ne)

theorem waiting_pqueuePush (hroom : s.size < 255) : (s.pqueuePush p).2.waiting = s.waiting ++ [p] := by
  rw [pqueuePush_of_room hroom]
  exact Ring.held_push (mt isFull_iff.mp hroom.ne)

theorem pqueuePop_of_some (hsome : s.size ≠ 0) : s.pqueuePop = (s.queue s.tail, { s with tail := s.tail + 1 }) :=
  if_neg (mt pqueueIsEmpty_iff.mp hsome)

theorem waiting_pqueuePop (hsome : s.size ≠ 0) : s.waiting = s.pqueuePop.1 :: s.pqueuePop.2.waiting := by
  rw [pqueuePop_of_some hsome]
  exact Ring.held_pop (mt Ring.toNat_sub_eq_zero_iff.mpr hsome)

/-! ### Whole calls -/

structure SameRing (s s' : Sched) : Prop where
  current : s'.current = s.current
  size : s'.size = s.size
  waiting : s'.waiting = s.waiting

theorem SameRing.refl (s : Sched) : SameRing s s := ⟨rfl, rfl, rfl⟩

theorem SameRing.trans {s' s'' : Sched} (hfirst : SameRing s s') (hsecond : SameRing s' s'') : SameRing s s'' :=
  ⟨hsecond.current.trans hfirst.current, hsecond.size.trans hfirst.size, hsecond.waiting.trans hfirst.waiting⟩

theorem SameRing.of_fields {s' : Sched} (hcurrent : s'.current = s.current) (hqueue : s'.queue = s.queue)
    (hhead : s'.head = s.head) (htail : s'.tail = s.tail) : SameRing s s' := by
  refine ⟨hcurrent, ?_, ?_⟩
  · rw [Sched.size, Sched.size, hhead, htail]
  · rw [Sched.waiting, Sched.waiting, Sched.size, Sched.size, hqueue, hhead, htail]

theorem sameRing_write (s : Sched) (addr word : UInt32) : SameRing s (s.write addr word) := .of_fields rfl rfl rfl rfl

theorem sameRing_setKernelStack (s : Sched) : SameRing s s.setKernelStack := by
  unfold setKernelStack
  split_ifs
  · exact .of_fields rfl rfl rfl rfl
  · exact SameRing.refl s

theorem sameRing_writeFrame (s : Sched) (frame : UInt32) (words : List (UInt32 × UInt32)) :
    SameRing s (s.writeFrame frame words) := by
  unfold writeFrame
  induction words generalizing s with
  | nil => exact SameRing.refl s
  | cons entry words ih => exact (sameRing_write s _ _).trans (ih _)

theorem createProcess_eq {stackAlloc : UInt32} (hp : p ≠ 0) (hstack : stackAlloc ≠ 0) (entry : UInt32) :
    ∃ mid, SameRing s mid ∧ s.createProcess p stackAlloc entry = (mid.pqueuePush p).2 := by
  refine ⟨_, ?_, if_neg (not_or.mpr ⟨hp, hstack⟩)⟩
  exact ((sameRing_write s _ _).trans (sameRing_write _ _ _)).trans (sameRing_writeFrame _ _ _)

theorem createUserProcess_eq {stackAlloc : UInt32} (hp : p ≠ 0) (hstack : stackAlloc ≠ 0)
    (entry userStackTop : UInt32) :
    ∃ mid, SameRing s mid ∧ s.createUserProcess p stackAlloc entry userStackTop = (mid.pqueuePush p).2 := by
  refine ⟨_, ?_, if_neg (not_or.mpr ⟨hp, hstack⟩)⟩
  exact ((sameRing_write s _ _).trans (sameRing_write _ _ _)).trans (sameRing_writeFrame _ _ _)

theorem current_pqueuePush : (s.pqueuePush p).2.current = s.current := by
  unfold pqueuePush
  split_ifs <;> rfl

def runNext (s : Sched) : Sched := ({ s.pqueuePop.2 with current := s.pqueuePop.1 } : Sched).setKernelStack

theorem runNext_ring (hsome : s.size ≠ 0) : s.runNext.current :: s.runNext.waiting = s.waiting := by
  have hset := sameRing_setKernelStack { s.pqueuePop.2 with current := s.pqueuePop.1 }
  rw [waiting_pqueuePop hsome, runNext, hset.current, hset.waiting]
  rfl

theorem killCurrent_ring (hsome : s.size ≠ 0) : s.killCurrent.2.current :: s.killCurrent.2.waiting = s.waiting := by
  rw [killCurrent, if_neg (mt pqueueIsEmpty_iff.mp hsome)]
  exact runNext_ring hsome

theorem schedule_eq (hsome : s.size ≠ 0) (esp : UInt32) :
    ∃ mid, SameRing s mid ∧ (s.schedule esp).2 = (mid.pqueuePush s.current).2.runNext := by
  refine ⟨s.setEsp s.current esp, sameRing_write _ _ _, ?_⟩
  rw [schedule, if_neg (mt pqueueIsEmpty_iff.mp hsome)]
  rfl

theorem schedule_ring (hsome : s.size ≠ 0) (esp : UInt32) :
    (s.schedule esp).2.current :: (s.schedule esp).2.waiting =
      if s.size < 255 then s.waiting ++ [s.current] else s.waiting := by
  obtain ⟨mid, hsame, heq⟩ := schedule_eq hsome esp
  have hlt := s.size_lt
  rw [heq]
  split_ifs with hroom
  · have hroom' : mid.size < 255 := hsame.size ▸ hroom
    rw [← hsame.waiting, ← waiting_pqueuePush hroom']
    apply runNext_ring
    rw [size_pqueuePush hroom']
    omega
  · have hfull : mid.size = 255 := by
      rw [hsame.size]
      omega
    rw [pqueuePush_of_full hfull, ← hsame.waiting]
    apply runNext_ring
    rw [hfull]
    decide

end Sched

/-! ### Runs -/

inductive SchedCall where
  | createProcess (p stackAlloc entry : UInt32)
  | createUserProcess (p stackAlloc entry userStackTop : UInt32)
  | schedule (esp : UInt32)
  | killCurrent

structure Procs where
  sched : Sched
  alive : List UInt32

def Procs.start (s : Sched) (boot : UInt32) : Procs := ⟨s.pqueueInit.schedulerInit boot, [boot]⟩

def SchedCall.exec (w : Procs) : SchedCall → Procs
  | createProcess p stackAlloc entry => ⟨w.sched.createProcess p stackAlloc entry, p :: w.alive⟩
  | createUserProcess p stackAlloc entry userStackTop =>
    ⟨w.sched.createUserProcess p stackAlloc entry userStackTop, p :: w.alive⟩
  | schedule esp => ⟨(w.sched.schedule esp).2, w.alive⟩
  | killCurrent =>
    ⟨w.sched.killCurrent.2, if w.sched.pqueueIsEmpty then w.alive else w.alive.erase w.sched.current⟩

/-- The heap succeeds and does not hand out the struct of a process that is alive. -/
def SchedCall.Allowed (w : Procs) : SchedCall → Prop
  | createProcess p stackAlloc _ => p ≠ 0 ∧ stackAlloc ≠ 0 ∧ p ∉ w.alive
  | createUserProcess p stackAlloc _ _ => p ≠ 0 ∧ stackAlloc ≠ 0 ∧ p ∉ w.alive
  | schedule _ => True
  | killCurrent => True

def SchedCall.Room (w : Procs) : SchedCall → Prop
  | killCurrent => True
  | _ => w.sched.size < 255

/-- Every process that is alive is found once among the running one and those in the ring. -/
def Procs.Once (w : Procs) : Prop := ∀ p ∈ w.alive, (w.sched.current :: w.sched.waiting).count p = 1

/-- The running process and those in the ring are the processes that are alive. -/
structure Procs.Exact (w : Procs) : Prop where
  nodup : w.alive.Nodup
  perm : (w.sched.current :: w.sched.waiting).Perm w.alive

namespace Procs

variable {w : Procs}

theorem Exact.once (hexact : w.Exact) : w.Once := by
  intro p hp
  rw [hexact.perm.count_eq, List.count_eq_one_of_mem hexact.nodup hp]

theorem exact_start (s : Sched) (boot : UInt32) : (start s boot).Exact where
  nodup := List.nodup_singleton boot
  perm := by
    have hsize : (start s boot).sched.size = 0 := Sched.pqueueIsEmpty_iff.mp (decide_eq_true rfl)
    rw [Sched.waiting, hsize, Ring.contents_zero]
    rfl

theorem not_once_of_length (hnodup : w.alive.Nodup) (hshort : w.sched.size + 1 < w.alive.length) : ¬ w.Once := by
  intro honce
  have hsub : w.alive ⊆ w.sched.current :: w.sched.waiting := by
    intro p hp
    apply List.count_pos_iff.mp
    rw [honce p hp]
    exact Nat.one_pos
  have hle := (List.subperm_of_subset hnodup hsub).length_le
  rw [List.length_cons, Sched.length_waiting] at hle
  omega

theorem Exact.length (hexact : w.Exact) : w.alive.length = w.sched.size + 1 := by
  rw [← hexact.perm.length_eq, List.length_cons, Sched.length_waiting]

theorem Exact.pushed (hexact : w.Exact) {p : UInt32} (hp : p ∉ w.alive) {mid : Sched} (hsame : w.sched.SameRing mid)
    (hroom : w.sched.size < 255) : Procs.Exact ⟨(mid.pqueuePush p).2, p :: w.alive⟩ where
  nodup := List.nodup_cons.mpr ⟨hp, hexact.nodup⟩
  perm := by
    rw [Sched.current_pqueuePush, Sched.waiting_pqueuePush (hsame.size ▸ hroom), hsame.current, hsame.waiting]
    exact (List.perm_append_singleton p (w.sched.current :: w.sched.waiting)).trans (hexact.perm.cons p)

theorem Exact.not_pushed (hexact : w.Exact) {p : UInt32} (hp : p ∉ w.alive) {mid : Sched}
    (hsame : w.sched.SameRing mid) (hfull : w.sched.size = 255) :
    ¬ Procs.Once ⟨(mid.pqueuePush p).2, p :: w.alive⟩ := by
  apply not_once_of_length (List.nodup_cons.mpr ⟨hp, hexact.nodup⟩)
  rw [Sched.pqueuePush_of_full (hsame.size.trans hfull), List.length_cons, hexact.length, ← hsame.size]
  exact Nat.lt_succ_self _

theorem Exact.created (hexact : w.Exact) {p : UInt32} (hp : p ∉ w.alive) {sched : Sched}
    (hcreate : ∃ mid, w.sched.SameRing mid ∧ sched = (mid.pqueuePush p).2) :
    (w.sched.size < 255 → Procs.Exact ⟨sched, p :: w.alive⟩) ∧
      (¬ w.sched.size < 255 → ¬ Procs.Once ⟨sched, p :: w.alive⟩) := by
  obtain ⟨mid, hsame, rfl⟩ := hcreate
  have hlt := w.sched.size_lt
  exact ⟨hexact.pushed hp hsame, fun hfull => hexact.not_pushed hp hsame (by omega)⟩

theorem Exact.scheduled (hexact : w.Exact) (esp : UInt32) :
    (w.sched.size < 255 → Procs.Exact ⟨(w.sched.schedule esp).2, w.alive⟩) ∧
      (¬ w.sched.size < 255 → ¬ Procs.Once ⟨(w.sched.schedule esp).2, w.alive⟩) := by
  by_cases hsome : w.sched.size = 0
  · have hidle : (w.sched.schedule esp).2 = w.sched := by
      rw [Sched.schedule, if_pos (Sched.pqueueIsEmpty_iff.mpr hsome)]
    rw [hidle]
    exact ⟨fun _ => hexact, fun hfull => absurd hsome (by omega)⟩
  have hring := Sched.schedule_ring hsome esp
  constructor
  · intro hroom
    rw [if_pos hroom] at hring
    refine ⟨hexact.nodup, ?_⟩
    rw [hring]
    exact (List.perm_append_singleton _ _).trans hexact.perm
  · intro hfull
    rw [if_neg hfull] at hring
    refine not_once_of_length (w := ⟨_, w.alive⟩) hexact.nodup ?_
    have hlength := congrArg List.length hring
    rw [List.length_cons, Sched.length_waiting, Sched.length_waiting] at hlength
    rw [hexact.length]
    dsimp only
    omega

theorem Exact.killed (hexact : w.Exact) : (SchedCall.killCurrent.exec w).Exact := by
  unfold SchedCall.exec
  by_cases hsome : w.sched.size = 0
  · have hempty := Sched.pqueueIsEmpty_iff.mpr hsome
    rw [Sched.killCurrent, if_pos hempty, if_pos hempty]
    exact hexact
  · rw [if_neg (mt Sched.pqueueIsEmpty_iff.mp hsome)]
    refine ⟨hexact.nodup.erase _, ?_⟩
    rw [Sched.killCurrent_ring hsome]
    have herase := hexact.perm.erase w.sched.current
    rwa [List.erase_cons_head] at herase

theorem Exact.exec (hexact : w.Exact) {call : SchedCall} (hallowed : call.Allowed w) :
    (call.Room w → (call.exec w).Exact) ∧ (¬ call.Room w → ¬ (call.exec w).Once) := by
  cases call with
  | createProcess p stackAlloc entry =>
    exact hexact.created hallowed.2.2 (Sched.createProcess_eq hallowed.1 hallowed.2.1 entry)
  | createUserProcess p stackAlloc entry userStackTop =>
    exact hexact.created hallowed.2.2 (Sched.createUserProcess_eq hallowed.1 hallowed.2.1 entry userStackTop)
  | schedule esp => exact hexact.scheduled esp
  | killCurrent => exact ⟨fun _ => hexact.killed, fun hroom => absurd trivial hroom⟩

end Procs

def SchedStep (guard : Procs → SchedCall → Prop) (w w' : Procs) : Prop :=
  ∃ call : SchedCall, call.Allowed w ∧ guard w call ∧ w' = call.exec w

/-- In every run whose calls find room in the ring, each process that is alive is found once. In each state of such a
run the next call keeps it so exactly if it finds room too. -/
theorem scheduler_keeps_processes (s : Sched) (boot : UInt32) {w : Procs}
    (hrun : Relation.ReflTransGen (SchedStep fun w call => call.Room w) (Procs.start s boot) w) :
    w.Once ∧ ∀ call : SchedCall, call.Allowed w → ((call.exec w).Once ↔ call.Room w) := by
  have hexact : w.Exact := by
    induction hrun with
    | refl => exact Procs.exact_start s boot
    | tail _ hlast ih =>
      obtain ⟨call, hallowed, hroom, rfl⟩ := hlast
      exact (ih.exec hallowed).1 hroom
  refine ⟨hexact.once, fun call hallowed => ⟨fun honce => ?_, fun hroom => ?_⟩⟩
  · by_contra hroom
    exact (hexact.exec hallowed).2 hroom honce
  · exact ((hexact.exec hallowed).1 hroom).once

def idleSched : Sched where
  current := 0
  queue _ := 0
  head := 0
  tail := 0
  esp0 := 0
  mem _ := 0

theorem scheduler_keeps_processes_idle :
    Relation.ReflTransGen (SchedStep fun w call => call.Room w) (Procs.start idleSched 16)
        (SchedCall.exec (Procs.start idleSched 16) (.createProcess 32 65536 0)) ∧
      (SchedCall.exec (Procs.start idleSched 16) (.createProcess 32 65536 0)).Once := by
  have hrun : Relation.ReflTransGen (SchedStep fun w call => call.Room w) (Procs.start idleSched 16)
      (SchedCall.exec (Procs.start idleSched 16) (.createProcess 32 65536 0)) := by
    apply Relation.ReflTransGen.single
    have hallowed : (SchedCall.createProcess 32 65536 0).Allowed (Procs.start idleSched 16) :=
      ⟨by decide, by decide, by decide⟩
    exact ⟨.createProcess 32 65536 0, hallowed, (by decide : (Procs.start idleSched 16).sched.size < 255), rfl⟩
  exact ⟨hrun, (scheduler_keeps_processes idleSched 16 hrun).1⟩

/-! ### Taking turns -/

namespace Sched

variable {s : Sched} {p : UInt32} {procs : List UInt32} {esps : Nat → UInt32} {run : Nat → Sched}

/-- The structs of different processes, of 12 bytes each, have no byte in common. -/
def Separate (procs : List UInt32) : Prop :=
  procs.Pairwise fun p q => ∀ i j : UInt32, i < 12 → j < 12 → p + i ≠ q + j

/-- Between two calls of `schedule` the processes write to memory, but not to the structs of processes. -/
structure Ran (procs : List UInt32) (s s' : Sched) : Prop where
  ring : SameRing s s'
  esp : ∀ p ∈ procs, s'.esp p = s.esp p
  mallocAddr : ∀ p ∈ procs, s'.mallocAddr p = s.mallocAddr p

/-- The first `n` calls of `schedule` in a run. Call `j` is made in state `run j` with the stack pointer `esps j`. -/
def Turns (procs : List UInt32) (esps : Nat → UInt32) (run : Nat → Sched) (n : Nat) : Prop :=
  ∀ j < n, Ran procs ((run j).schedule (esps j)).2 (run (j + 1))

/-- A call resumes a process: it returns the stack pointer that was saved, and interrupts will use the stack of the
process if it has one. -/
structure Resumes (s : Sched) (esp p saved stack : UInt32) : Prop where
  current : (s.schedule esp).2.current = p
  returned : (s.schedule esp).1 = saved
  esp0 : stack ≠ 0 → (s.schedule esp).2.esp0 = stack + stackSize

theorem Separate.add_ne (hsep : Separate procs) {i j : Nat} (hi : i < procs.length) (hj : j < procs.length) (hne : i ≠ j)
    {a b : UInt32} (ha : a < 12) (hb : b < 12) : procs[i] + a ≠ procs[j] + b := by
  rw [Separate, List.pairwise_iff_getElem] at hsep
  obtain hlt | hlt := Nat.lt_or_gt_of_ne hne
  · exact hsep i j hi hj hlt a b ha hb
  · exact (hsep j i hj hi hlt b a hb ha).symm

theorem Separate.nodup (hsep : Separate procs) : procs.Nodup := by
  refine hsep.imp fun hpq heq => ?_
  have hzero := hpq 0 0 (by decide) (by decide)
  rw [heq] at hzero
  exact hzero rfl

theorem mem_pqueuePush : (s.pqueuePush p).2.mem = s.mem := by
  unfold pqueuePush
  split_ifs <;> rfl

theorem mem_pqueuePop : s.pqueuePop.2.mem = s.mem := by
  unfold pqueuePop
  split_ifs <;> rfl

theorem mem_setKernelStack : s.setKernelStack.mem = s.mem := by
  unfold setKernelStack
  split_ifs <;> rfl

theorem schedule_mem (hsome : s.size ≠ 0) (esp : UInt32) :
    (s.schedule esp).2.mem = Function.update s.mem s.current esp := by
  rw [schedule, if_neg (mt pqueueIsEmpty_iff.mp hsome)]
  dsimp only
  rw [mem_setKernelStack]
  dsimp only
  rw [mem_pqueuePop, mem_pqueuePush]
  rfl

theorem resumes_current (hsome : s.size ≠ 0) (esp : UInt32) :
    Resumes s esp (s.schedule esp).2.current ((s.schedule esp).2.esp (s.schedule esp).2.current)
      ((s.schedule esp).2.mallocAddr (s.schedule esp).2.current) := by
  refine ⟨rfl, ?_, ?_⟩
  · rw [schedule, if_neg (mt pqueueIsEmpty_iff.mp hsome)]
  · obtain ⟨mid, -, heq⟩ := schedule_eq hsome esp
    generalize (mid.pqueuePush s.current).2 = pushed at heq
    obtain ⟨next, hnext⟩ : ∃ next : Sched, next = { pushed.pqueuePop.2 with current := pushed.pqueuePop.1 } := ⟨_, rfl⟩
    rw [heq, runNext, ← hnext, mallocAddr, mem_setKernelStack, (sameRing_setKernelStack next).current]
    intro hstack
    rw [setKernelStack, if_pos (show next.mallocAddr next.current ≠ 0 from hstack)]
    rfl

/-- The state before call `j`: the processes in the ring moved on by `j`, and the first `j` of them were switched out. -/
structure Turn (s : Sched) (esps : Nat → UInt32) (s' : Sched) (j : Nat) : Prop where
  ring : s'.current :: s'.waiting = (s.current :: s.waiting).rotate j
  esp : ∀ i (hi : i < (s.current :: s.waiting).length), s'.esp (s.current :: s.waiting)[i] =
    if i < j then esps i else s.esp (s.current :: s.waiting)[i]
  mallocAddr : ∀ p ∈ s.current :: s.waiting, s'.mallocAddr p = s.mallocAddr p

section Turn

variable {s' : Sched} {j : Nat} (hturn : Turn s esps s' j)

include hturn

theorem Turn.size : s'.size = s.size := by
  have hlength := congrArg List.length hturn.ring
  rw [List.length_rotate, List.length_cons, List.length_cons, length_waiting, length_waiting] at hlength
  exact Nat.succ_injective hlength

theorem Turn.current (hj : j < (s.current :: s.waiting).length) : s'.current = (s.current :: s.waiting)[j] := by
  have hhead := congrArg List.head? hturn.ring
  rw [List.head?_cons, List.head?_rotate hj, List.getElem?_eq_getElem hj] at hhead
  exact Option.some.inj hhead

variable (hsome : s.size ≠ 0) (hroom : s.size < 255) (hsep : Separate (s.current :: s.waiting))
  (hj : j < (s.current :: s.waiting).length)

include hsome hroom hsep hj

theorem Turn.schedule (esp : UInt32) (hesp : esp = esps j) : Turn s esps (s'.schedule esp).2 (j + 1) := by
  have hmem := schedule_mem (s := s') (by rwa [hturn.size]) esp
  have hcurrent := hturn.current hj
  refine ⟨?_, fun i hi => ?_, fun p hp => ?_⟩
  · rw [schedule_ring (by rwa [hturn.size]), if_pos (by rwa [hturn.size]), ← List.rotate_rotate, ← hturn.ring,
      List.rotate_cons_succ, List.rotate_zero]
  · have hold := hturn.esp i hi
    rw [Sched.esp] at hold
    rw [Sched.esp, hmem, hcurrent]
    by_cases heq : i = j
    · subst heq
      rw [Function.update_self, if_pos (Nat.lt_succ_self i), hesp]
    · have hne : (s.current :: s.waiting)[i] ≠ (s.current :: s.waiting)[j] := by
        intro h
        exact hsep.add_ne hi hj heq (show (0 : UInt32) < 12 by decide) (show (0 : UInt32) < 12 by decide) (by rw [h])
      rw [Function.update_of_ne hne, hold]
      congr 1
      exact propext (by omega)
  · have hold := hturn.mallocAddr p hp
    rw [Sched.mallocAddr] at hold
    rw [Sched.mallocAddr, hmem, hcurrent, Function.update_of_ne, hold]
    obtain ⟨i, hi, rfl⟩ := List.getElem_of_mem hp
    intro heq
    by_cases hij : i = j
    · subst hij
      exact absurd (UInt32.add_eq_left.mp heq) (by decide)
    · refine hsep.add_ne hi hj hij (show (8 : UInt32) < 12 by decide) (show (0 : UInt32) < 12 by decide) ?_
      rw [heq, UInt32.add_zero]

end Turn

theorem Turns.turn (hsome : s.size ≠ 0) (hroom : s.size < 255) (hsep : Separate (s.current :: s.waiting))
    (hstart : run 0 = s) {n j : Nat} (hturns : Turns (s.current :: s.waiting) esps run n)
    (hn : n ≤ (s.current :: s.waiting).length) (hj : j ≤ n) : Turn s esps (run j) j := by
  induction j with
  | zero =>
    rw [hstart]
    exact ⟨(List.rotate_zero _).symm, fun i _ => (if_neg (Nat.not_lt_zero i)).symm, fun _ _ => rfl⟩
  | succ j ih =>
    have hcall := (ih (by omega)).schedule hsome hroom hsep (by omega) (esps j) rfl
    have hran := hturns j hj
    refine ⟨?_, fun i hi => ?_, fun p hp => ?_⟩
    · rw [hran.ring.current, hran.ring.waiting]
      exact hcall.ring
    · rw [hran.esp _ (List.getElem_mem hi)]
      exact hcall.esp i hi
    · rw [hran.mallocAddr p hp]
      exact hcall.mallocAddr p hp

/-- The processes take turns. As many calls of `schedule` as there are processes resume those in the ring in their
order and then the one that ran first, each with the stack pointer it was switched out with and its own stack, and
leave the ring as it was. -/
theorem schedule_round_robin (hsome : 1 ≤ s.size) (hroom : s.size ≤ 254) (hsep : Separate (s.current :: s.waiting))
    (hstart : run 0 = s) (hturns : Turns (s.current :: s.waiting) esps run (s.size + 1)) :
    (∀ j (hj : j < s.waiting.length),
      Resumes (run j) (esps j) s.waiting[j] (s.esp s.waiting[j]) (s.mallocAddr s.waiting[j])) ∧
    Resumes (run s.size) (esps s.size) s.current (esps 0) (s.mallocAddr s.current) ∧
    (s.waiting ++ [s.current]).Nodup ∧
    (run (s.size + 1)).current = s.current ∧ (run (s.size + 1)).waiting = s.waiting := by
  have hlength : (s.current :: s.waiting).length = s.size + 1 := by rw [List.length_cons, length_waiting]
  have hround : (s.current :: s.waiting).rotate (s.size + 1) = s.current :: s.waiting := by
    rw [← hlength, List.rotate_length]
  have hturn : ∀ j ≤ s.size + 1, Turn s esps (run j) j := fun j hj =>
    hturns.turn (by omega) (by omega) hsep hstart hlength.ge hj
  have hcall : ∀ j ≤ s.size, Turn s esps ((run j).schedule (esps j)).2 (j + 1) := fun j hj =>
    (hturn j (by omega)).schedule (by omega) (by omega) hsep (by omega) (esps j) rfl
  have hresumes : ∀ j ≤ s.size, Resumes (run j) (esps j) ((run j).schedule (esps j)).2.current
      (((run j).schedule (esps j)).2.esp ((run j).schedule (esps j)).2.current)
      (((run j).schedule (esps j)).2.mallocAddr ((run j).schedule (esps j)).2.current) := fun j hj =>
    resumes_current (by rw [(hturn j (by omega)).size]; omega) (esps j)
  refine ⟨fun j hj => ?_, ?_, ?_, ?_⟩
  · rw [length_waiting] at hj
    have hnext : j + 1 < (s.current :: s.waiting).length := by omega
    have hlater := hresumes j (by omega)
    rw [(hcall j (by omega)).current hnext, (hcall j (by omega)).esp _ hnext, if_neg (Nat.lt_irrefl _),
      (hcall j (by omega)).mallocAddr _ (List.getElem_mem hnext)] at hlater
    exact hlater
  · -- the last call comes back to the process that ran first
    have hlast := hcall s.size le_rfl
    have hcurrent : ((run s.size).schedule (esps s.size)).2.current = s.current := by
      have hring := hlast.ring
      rw [hround] at hring
      exact (List.cons.inj hring).1
    have hesp := hlast.esp 0 (by omega)
    have hlater := hresumes s.size le_rfl
    rw [List.getElem_cons_zero, if_pos (by omega)] at hesp
    rwa [hcurrent, hesp, hlast.mallocAddr _ List.mem_cons_self] at hlater
  · exact (List.perm_append_singleton _ _).nodup_iff.mpr hsep.nodup
  · have hring := (hturn (s.size + 1) le_rfl).ring
    rw [hround] at hring
    exact List.cons.inj hring

end Sched

def pairSched : Sched := (SchedCall.exec (Procs.start idleSched 16) (.createProcess 32 65536 0)).sched

theorem schedule_round_robin_pair : pairSched.current = 16 ∧ pairSched.waiting = [32] ∧
    pairSched.Resumes 7 32 (65536 + stackSize - kernelFrameSize) 65536 ∧
    (pairSched.schedule 7).2.Resumes 9 16 7 0 := by
  have hcurrent : pairSched.current = 16 := by decide
  have hwaiting : pairSched.waiting = [32] := by decide
  have hsize : pairSched.size = 1 := by decide
  have hfields : pairSched.esp 32 = 65536 + stackSize - kernelFrameSize ∧ pairSched.mallocAddr 32 = 65536 ∧
      pairSched.mallocAddr 16 = 0 := by decide
  have hsep : Sched.Separate (pairSched.current :: pairSched.waiting) := by
    rw [hcurrent, hwaiting, Sched.Separate, List.pairwise_pair]
    intro i j hi hj heq
    rw [UInt32.lt_iff_toNat_lt] at hi hj
    have heq := congrArg UInt32.toNat heq
    rw [UInt32.toNat_add, UInt32.toNat_add] at heq
    simp only [UInt32.reduceToNat] at hi hj heq
    omega
  obtain ⟨run, hrun⟩ : ∃ run : Nat → Sched, run = fun j =>
      if j = 0 then pairSched else if j = 1 then (pairSched.schedule 7).2 else ((pairSched.schedule 7).2.schedule 9).2 :=
    ⟨_, rfl⟩
  have hturns : Sched.Turns (pairSched.current :: pairSched.waiting) (fun j => if j = 0 then 7 else 9) run
      (pairSched.size + 1) := by
    intro j hj
    have hnext : run (j + 1) = ((run j).schedule (if j = 0 then 7 else 9)).2 := by
      rw [hsize] at hj
      obtain rfl | rfl : j = 0 ∨ j = 1 := by omega
      · rw [hrun]
        rfl
      · rw [hrun]
        rfl
    rw [hnext]
    exact ⟨.refl _, fun _ _ => rfl, fun _ _ => rfl⟩
  obtain ⟨hfirst, hlast, -⟩ := Sched.schedule_round_robin (by rw [hsize]) (by rw [hsize]; decide) hsep
    (by rw [hrun]; rfl) hturns
  have hwaits := hfirst 0 (by rw [hwaiting]; decide)
  simp only [hwaiting, List.getElem_cons_zero, hfields.1, hfields.2.1] at hwaits
  rw [hsize, hcurrent, hfields.2.2] at hlast
  rw [hrun] at hwaits hlast
  exact ⟨hcurrent, hwaiting, hwaits, hlast⟩

/-! ### A full ring -/

def crowded : Nat → Procs
  | 0 => Procs.start idleSched 16
  | n + 1 => SchedCall.exec (crowded n) (.createProcess (UInt32.ofNat (16 * (n + 2))) 65536 0)

theorem crowded_spec {n : Nat} (hn : n ≤ 255) :
    Relation.ReflTransGen (SchedStep fun _ _ => True) (Procs.start idleSched 16) (crowded n) ∧ (crowded n).Exact ∧
      (crowded n).sched.size = n ∧ (crowded n).sched.current = 16 ∧ ∀ q ∈ (crowded n).alive, q.toNat < 16 * (n + 2) := by
  induction n with
  | zero =>
    refine ⟨.refl, Procs.exact_start _ _, by decide, rfl, fun q hq => ?_⟩
    rw [List.mem_singleton.mp hq]
    exact Nat.lt_add_of_pos_right (Nat.succ_pos 15)
  | succ n ih =>
    obtain ⟨hrun, hexact, hsize, hcurrent, hbound⟩ := ih (by omega)
    have hcast : (UInt32.ofNat (16 * (n + 2))).toNat = 16 * (n + 2) :=
      UInt32.toNat_ofNat_of_lt' (show 16 * (n + 2) < 4294967296 by omega)
    have hp : UInt32.ofNat (16 * (n + 2)) ≠ 0 := by
      intro hzero
      rw [hzero, UInt32.toNat_zero] at hcast
      omega
    have hfresh : UInt32.ofNat (16 * (n + 2)) ∉ (crowded n).alive := by
      intro hmem
      have hlt := hbound _ hmem
      omega
    have hallowed : (SchedCall.createProcess (UInt32.ofNat (16 * (n + 2))) 65536 0).Allowed (crowded n) :=
      ⟨hp, by decide, hfresh⟩
    have hexact' := (hexact.exec hallowed).1 (show (crowded n).sched.size < 255 by omega)
    refine ⟨hrun.tail ⟨_, hallowed, trivial, rfl⟩, hexact', ?_, ?_, ?_⟩
    · have hlength := hexact'.length
      change (_ :: (crowded n).alive).length = _ at hlength
      rw [List.length_cons, hexact.length, hsize] at hlength
      exact (Nat.succ_injective hlength).symm
    · obtain ⟨mid, hsame, heq⟩ := Sched.createProcess_eq (s := (crowded n).sched) hp hallowed.2.1 0
      change ((crowded n).sched.createProcess _ 65536 0).current = 16
      rw [heq, Sched.current_pqueuePush, hsame.current, hcurrent]
    · intro q hq
      rcases List.mem_cons.mp hq with rfl | hq
      · omega
      · have hlt := hbound q hq
        omega

/-- With 255 processes in the ring, a timer interrupt loses the running one. -/
theorem schedule_loses_current :
    Relation.ReflTransGen (SchedStep fun _ _ => True) (Procs.start idleSched 16)
        (SchedCall.exec (crowded 255) (.schedule 0)) ∧
      16 ∈ (SchedCall.exec (crowded 255) (.schedule 0)).alive ∧
      16 ∉ (SchedCall.exec (crowded 255) (.schedule 0)).sched.current ::
        (SchedCall.exec (crowded 255) (.schedule 0)).sched.waiting := by
  obtain ⟨hrun, hexact, hsize, hcurrent, -⟩ := crowded_spec (le_refl 255)
  generalize crowded 255 = w at *
  have hring := Sched.schedule_ring (s := w.sched) (by omega) 0
  rw [if_neg (by omega)] at hring
  refine ⟨hrun.tail ⟨.schedule 0, trivial, trivial, rfl⟩, ?_, ?_⟩
  · exact hexact.perm.mem_iff.mp (hcurrent ▸ List.mem_cons_self)
  · change 16 ∉ (w.sched.schedule 0).2.current :: (w.sched.schedule 0).2.waiting
    rw [hring, ← hcurrent]
    exact (List.nodup_cons.mp (hexact.perm.nodup_iff.mpr hexact.nodup)).1

end DeprecatOS
