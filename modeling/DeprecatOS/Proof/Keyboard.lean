import DeprecatOS.Keyboard
import Mathlib.Data.List.Basic
import Mathlib.Tactic.SplitIfs

/-!
# What the keyboard tracks

A stream of complete sequences is a stream of key events, and the decoder is in step with it: after each sequence no
prefix is pending, and the variables are those of a machine that reads events. That machine knows which keys are down.
It turns a lock at every event in which the key goes down, and a held key repeats that event, so a lock is right if and
only if its key repeated an even number of times.
-/

namespace DeprecatOS

/-! ### Streams -/

abbrev Code := { b : UInt8 // b ≠ keyExtendedPrefix ∧ b ≠ keyPausePrefix }

inductive Sequence where
  | plain (code : Code)
  | extended (code : Code)
  | pause

structure ScanEvent where
  key : KeyCode
  make : Bool
  deriving DecidableEq

namespace Sequence

def bytes : Sequence → List UInt8
  | plain code => [code]
  | extended code => [keyExtendedPrefix, code]
  | pause => [keyPausePrefix, 0x1D, 0x45, keyPausePrefix, 0x9D, 0xC5]

def eventOf (key : KeyCode) (code : UInt8) : Option ScanEvent :=
  if key = .keyNone then none else some ⟨key, code &&& keyReleaseBit = 0⟩

def event : Sequence → Option ScanEvent
  | plain code => eventOf (scancodeToKeycode (code.val &&& (0x7F : UInt8))) code
  | extended code => eventOf (extendedScancodeToKeycode (code.val &&& (0x7F : UInt8))) code
  | pause => none

end Sequence

/-! ### Keys and locks -/

section Events

variable {k : KeyCode} {events : List ScanEvent}

def LastMake (events : List ScanEvent) (k : KeyCode) : Prop :=
  ∃ before after, events = before ++ ⟨k, true⟩ :: after ∧ ∀ e ∈ after, e.key ≠ k

def presses (k : KeyCode) : Bool → List ScanEvent → Nat
  | _, [] => 0
  | down, e :: events =>
    if e.key = k then (if e.make ∧ ¬ down then 1 else 0) + presses k e.make events else presses k down events

def repeats (k : KeyCode) : Bool → List ScanEvent → Nat
  | _, [] => 0
  | down, e :: events =>
    if e.key = k then (if e.make ∧ down then 1 else 0) + repeats k e.make events else repeats k down events

structure Tracked where
  keysDown : KeyCode → Bool
  capslock : Bool
  scrollock : Bool
  numlock : Bool

def turn (k : KeyCode) (lock : Bool) (e : ScanEvent) : Bool := if e.key = k ∧ e.make then !lock else lock

def Tracked.apply (s : Tracked) (e : ScanEvent) : Tracked where
  keysDown := Function.update s.keysDown e.key e.make
  capslock := turn .keyCapslock s.capslock e
  scrollock := turn .keyScrolllock s.scrollock e
  numlock := turn .keyNumlock s.numlock e

def Tracked.start : Tracked := ⟨fun _ => false, false, false, false⟩

def Tracked.after (s : Tracked) (events : List ScanEvent) : Tracked := events.foldl Tracked.apply s

theorem lastMake_nil : ¬ LastMake [] k := by
  rintro ⟨before, after, heq, -⟩
  simp at heq

theorem lastMake_concat {e : ScanEvent} :
    LastMake (events ++ [e]) k ↔ if e.key = k then e.make = true else LastMake events k := by
  constructor
  · rintro ⟨before, after, heq, hafter⟩
    obtain rfl | ⟨after, e', rfl⟩ := after.eq_nil_or_concat'
    · obtain ⟨rfl, rfl⟩ : events = before ∧ e = ⟨k, true⟩ := by simpa using heq
      rw [if_pos rfl]
    · rw [← List.cons_append, ← List.append_assoc] at heq
      obtain ⟨rfl, hlast⟩ := List.append_inj' heq rfl
      obtain rfl := List.singleton_inj.mp hlast
      rw [if_neg (hafter e (by simp))]
      exact ⟨before, after, rfl, fun e' he' => hafter e' (by simp [he'])⟩
  · intro h
    split_ifs at h with hkey
    · exact ⟨events, [], by rw [← hkey, ← h], by simp⟩
    · obtain ⟨before, after, rfl, hafter⟩ := h
      refine ⟨before, after ++ [e], by simp, fun e' he' => ?_⟩
      obtain he' | he' := List.mem_append.mp he'
      · exact hafter e' he'
      · rwa [List.mem_singleton.mp he']

theorem Tracked.keysDown_after : (Tracked.start.after events).keysDown k = true ↔ LastMake events k := by
  induction events using List.reverseRecOn with
  | nil => simp [after, start, lastMake_nil]
  | append_singleton events e ih =>
    rw [lastMake_concat, after, List.foldl_append]
    change Function.update (start.after events).keysDown e.key e.make k = true ↔ _
    by_cases hkey : e.key = k
    · rw [if_pos hkey, ← hkey, Function.update_self]
    · rw [if_neg hkey, Function.update_of_ne (Ne.symm hkey), ih]

theorem decide_succ_odd (n : Nat) : decide ((n + 1) % 2 = 1) = !decide (n % 2 = 1) := by
  obtain h | h : n % 2 = 0 ∨ n % 2 = 1 := by omega
  · simp [Nat.add_mod, h]
  · simp [Nat.add_mod, h]

theorem foldl_turn (k : KeyCode) (lock down : Bool) (events : List ScanEvent) :
    events.foldl (turn k) lock = xor lock (decide ((presses k down events + repeats k down events) % 2 = 1)) := by
  induction events generalizing lock down with
  | nil => simp [presses, repeats]
  | cons e events ih =>
    rw [List.foldl_cons, presses, repeats]
    by_cases hkey : e.key = k
    · rw [if_pos hkey, if_pos hkey, ih _ e.make]
      cases hmake : e.make with
      | false => simp [turn, hmake]
      | true =>
        -- The event is a press or a repeat.
        have hsum : (if true = true ∧ ¬ down = true then 1 else 0) + presses k true events
            + ((if true = true ∧ down = true then 1 else 0) + repeats k true events)
            = presses k true events + repeats k true events + 1 := by
          cases down <;> simp <;> omega
        rw [hsum, decide_succ_odd]
        simp [turn, hkey, hmake]
    · rw [if_neg hkey, if_neg hkey, turn, if_neg (fun h => hkey h.1)]
      exact ih lock down

end Events

/-! ### The decoder -/

namespace Keyboard

variable {font : Nat → UInt8} {s : Keyboard}

def feed (font : Nat → UInt8) (s : Keyboard) (bytes : List UInt8) : Keyboard := bytes.foldl (keyboardHandler font) s

def tracked (s : Keyboard) : Tracked := ⟨s.keysDown, s.capslock, s.scrollock, s.numlock⟩

structure InStep (s : Keyboard) : Prop where
  e0Pending : s.e0Pending = false
  e1Skip : s.e1Skip = 0

variable (font) in
theorem keyEffect_tracked (key : KeyCode) (released : Bool) : (s.keyEffect font key released).tracked = s.tracked ∧
    (s.keyEffect font key released).e0Pending = s.e0Pending ∧ (s.keyEffect font key released).e1Skip = s.e1Skip := by
  unfold keyEffect
  dsimp only
  split_ifs <;> exact ⟨rfl, rfl, rfl⟩

theorem toggleLocks_eq (key : KeyCode) (released : Bool) : s.toggleLocks key released =
    { s with
      capslock := turn .keyCapslock s.capslock ⟨key, !released⟩
      scrollock := turn .keyScrolllock s.scrollock ⟨key, !released⟩
      numlock := turn .keyNumlock s.numlock ⟨key, !released⟩ } := by
  have hmake : (!released) = true ↔ ¬ released = true := by cases released <;> simp
  unfold toggleLocks turn
  simp only [hmake]
  split_ifs <;> rfl

theorem keyboardHandler_code (code : Code) (hskip : s.e1Skip = 0) {key : KeyCode}
    (hkey : (if s.e0Pending then extendedScancodeToKeycode (code.val &&& (0x7F : UInt8))
      else scancodeToKeycode (code.val &&& (0x7F : UInt8))) = key) :
    InStep (s.keyboardHandler font code) ∧ (s.keyboardHandler font code).tracked =
      ((Sequence.eventOf key code).elim s.tracked s.tracked.apply) := by
  unfold keyboardHandler
  rw [if_neg (not_not.mpr hskip), if_neg code.2.1, if_neg code.2.2]
  dsimp only
  rw [hkey]
  unfold Sequence.eventOf
  by_cases hnone : key = .keyNone
  · rw [if_pos hnone, if_pos hnone]
    exact ⟨⟨rfl, hskip⟩, rfl⟩
  · rw [if_neg hnone, if_neg hnone]
    have hmake : (!decide (code.val &&& keyReleaseBit ≠ 0)) = decide (code.val &&& keyReleaseBit = 0) := by simp
    obtain ⟨htracked, hpending, hskip'⟩ := keyEffect_tracked font key _
    refine ⟨⟨hpending.trans ?_, hskip'.trans ?_⟩, htracked.trans ?_⟩
    · rw [toggleLocks_eq]
    · rw [toggleLocks_eq]
      exact hskip
    · rw [toggleLocks_eq, ← hmake]
      rfl

theorem feed_skip {bytes : List UInt8} (hskip : s.e1Skip.toNat = bytes.length) :
    feed font s bytes = { s with e1Skip := 0 } := by
  induction bytes generalizing s with
  | nil =>
    have hzero : s.e1Skip = 0 := UInt8.toNat_inj.mp hskip
    rw [← hzero]
    rfl
  | cons b bytes ih =>
    rw [List.length_cons] at hskip
    have hne : s.e1Skip ≠ 0 := by
      intro hzero
      rw [hzero] at hskip
      simp at hskip
    have hle : (1 : UInt8) ≤ s.e1Skip := UInt8.le_iff_toNat_le.mpr (show 1 ≤ s.e1Skip.toNat by omega)
    have hleft : (s.e1Skip - 1).toNat = bytes.length := by
      rw [UInt8.toNat_sub_of_le _ _ hle]
      change s.e1Skip.toNat - 1 = _
      omega
    have hhandler : s.keyboardHandler font b = { s with e1Skip := s.e1Skip - 1 } := if_pos hne
    rw [feed, List.foldl_cons, hhandler]
    exact ih hleft

variable (font) in
theorem InStep.feed_bytes (hs : InStep s) (seq : Sequence) :
    InStep (feed font s seq.bytes) ∧ (feed font s seq.bytes).tracked = seq.event.elim s.tracked s.tracked.apply := by
  cases seq with
  | plain code => exact keyboardHandler_code code hs.e1Skip (by rw [hs.e0Pending]; rfl)
  | extended code =>
    have hextended : s.keyboardHandler font keyExtendedPrefix = { s with e0Pending := true } := by
      rw [keyboardHandler, if_neg (not_not.mpr hs.e1Skip), if_pos rfl]
    change InStep (keyboardHandler font (s.keyboardHandler font keyExtendedPrefix) code) ∧
      (keyboardHandler font (s.keyboardHandler font keyExtendedPrefix) code).tracked = _
    rw [hextended]
    exact keyboardHandler_code (s := { s with e0Pending := true }) code hs.e1Skip (if_pos rfl)
  | pause =>
    have hpause : s.keyboardHandler font keyPausePrefix = { s with e1Skip := 5 } := by
      rw [keyboardHandler, if_neg (not_not.mpr hs.e1Skip), if_neg (by decide), if_pos rfl]
    have hfeed : feed font s Sequence.pause.bytes = { s with e1Skip := 0 } := by
      rw [feed, Sequence.bytes, List.foldl_cons, hpause]
      exact feed_skip rfl
    rw [hfeed]
    exact ⟨⟨hs.e0Pending, rfl⟩, rfl⟩

variable (font) in
theorem InStep.feed_stream (hs : InStep s) (seqs : List Sequence) :
    InStep (feed font s (seqs.flatMap Sequence.bytes)) ∧
      (feed font s (seqs.flatMap Sequence.bytes)).tracked = s.tracked.after (seqs.filterMap Sequence.event) := by
  induction seqs generalizing s with
  | nil => exact ⟨hs, rfl⟩
  | cons seq seqs ih =>
    obtain ⟨hstep, htracked⟩ := hs.feed_bytes font seq
    have hsplit : feed font s ((seq :: seqs).flatMap Sequence.bytes)
        = feed font (feed font s seq.bytes) (seqs.flatMap Sequence.bytes) := by
      rw [List.flatMap_cons, feed, List.foldl_append]
      rfl
    obtain ⟨hrest, hafter⟩ := ih hstep
    rw [hsplit]
    refine ⟨hrest, hafter.trans ?_⟩
    rw [htracked, List.filterMap_cons]
    cases seq.event <;> rfl

end Keyboard

/-! ### The whole stream -/

structure Keyboard.Tracks (s : Keyboard) (events : List ScanEvent) : Prop where
  e0Pending : s.e0Pending = false
  e1Skip : s.e1Skip = 0
  keysDown : ∀ k, s.keysDown k = true ↔ LastMake events k
  capslock : s.capslock = true ↔ presses .keyCapslock false events % 2 = 1
  numlock : s.numlock = true ↔ presses .keyNumlock false events % 2 = 1
  scrollock : s.scrollock = true ↔ presses .keyScrolllock false events % 2 = 1

theorem foldl_turn_iff (k : KeyCode) (events : List ScanEvent) :
    (events.foldl (turn k) false = true ↔ presses k false events % 2 = 1) ↔ repeats k false events % 2 = 0 := by
  rw [foldl_turn k false false, Bool.false_xor, decide_eq_true_iff]
  omega

theorem Tracked.locks_after (s : Tracked) (events : List ScanEvent) :
    (s.after events).capslock = events.foldl (turn .keyCapslock) s.capslock ∧
      (s.after events).numlock = events.foldl (turn .keyNumlock) s.numlock ∧
      (s.after events).scrollock = events.foldl (turn .keyScrolllock) s.scrollock := by
  induction events generalizing s with
  | nil => exact ⟨rfl, rfl, rfl⟩
  | cons e events ih => exact ih (s.apply e)

/-- **What the decoder tracks.** After a stream of complete sequences no prefix is pending and `keys_down` is the last
event of each key. The locks are the parity of the presses of their keys if and only if each of the three keys repeated
an even number of times. -/
theorem keyboard_tracks_iff (font : Nat → UInt8) (rb : RingBuffer) (fb : Fb) (seqs : List Sequence) :
    (Keyboard.feed font (Keyboard.keyboardInit rb fb) (seqs.flatMap Sequence.bytes)).Tracks
        (seqs.filterMap Sequence.event) ↔
      ∀ k, k = .keyCapslock ∨ k = .keyNumlock ∨ k = .keyScrolllock →
        repeats k false (seqs.filterMap Sequence.event) % 2 = 0 := by
  have hinit : Keyboard.InStep (Keyboard.keyboardInit rb fb) := ⟨rfl, rfl⟩
  obtain ⟨hstep, htracked⟩ := hinit.feed_stream font seqs
  generalize Keyboard.feed font _ _ = s at hstep htracked ⊢
  generalize seqs.filterMap Sequence.event = events at htracked ⊢
  obtain ⟨hcaps, hnum, hscroll⟩ := Tracked.start.locks_after events
  have hcaps' : s.capslock = events.foldl (turn .keyCapslock) false := (congrArg Tracked.capslock htracked).trans hcaps
  have hnum' : s.numlock = events.foldl (turn .keyNumlock) false := (congrArg Tracked.numlock htracked).trans hnum
  have hscroll' : s.scrollock = events.foldl (turn .keyScrolllock) false :=
    (congrArg Tracked.scrollock htracked).trans hscroll
  constructor
  · rintro ⟨-, -, -, hcapslock, hnumlock, hscrollock⟩ k (rfl | rfl | rfl)
    · rwa [hcaps', foldl_turn_iff] at hcapslock
    · rwa [hnum', foldl_turn_iff] at hnumlock
    · rwa [hscroll', foldl_turn_iff] at hscrollock
  · intro heven
    refine ⟨hstep.e0Pending, hstep.e1Skip, fun k => ?_, ?_, ?_, ?_⟩
    · have hkeys : s.keysDown k = (Tracked.start.after events).keysDown k :=
        congrFun (congrArg Tracked.keysDown htracked) k
      rw [hkeys, Tracked.keysDown_after]
    · rw [hcaps', foldl_turn_iff]
      exact heven _ (.inl rfl)
    · rw [hnum', foldl_turn_iff]
      exact heven _ (.inr (.inl rfl))
    · rw [hscroll', foldl_turn_iff]
      exact heven _ (.inr (.inr rfl))

def heldCapslock : List Sequence := [.plain ⟨0x3A, by decide⟩, .plain ⟨0x3A, by decide⟩]

def emptyRb : RingBuffer := ⟨fun _ => 0, 0, 0⟩

def emptyFb : Fb := ⟨0, 0, 0, 0, 80, 25, fun _ _ => 0, fun _ => .blank, fun _ => .blank, 0, 0, 0, true⟩

theorem capslock_repeat_turns :
    ¬ (Keyboard.feed (fun _ => 0) (Keyboard.keyboardInit emptyRb emptyFb) (heldCapslock.flatMap Sequence.bytes)).Tracks
      (heldCapslock.filterMap Sequence.event) := by
  intro htracks
  have hon := htracks.capslock.mpr (by decide)
  exact absurd hon (by decide)

end DeprecatOS
