import Mathlib.Data.List.TakeWhile
import Mathlib.Data.List.DropRight
import Mathlib.Logic.Function.Iterate
import Mathlib.Tactic.SplitIfs

/-!
# Texts with a cursor, in gap buffers

A document is a text with a cursor in it. A gap buffer keeps it in an array: what stands before the cursor from the
start of the array on, and what stands behind it up to the end, with a gap in between. Moving the cursor by one moves one
element across the gap.
-/

namespace GapBuffer

variable {α : Type}

structure Doc (α : Type) where
  text : List α
  cursor : Nat
  cursor_le : cursor ≤ text.length

namespace Doc

@[ext]
theorem ext {d e : Doc α} (htext : d.text = e.text) (hcursor : d.cursor = e.cursor) : d = e := by
  cases d
  cases e
  simp_all

def cut (before after : List α) : Doc α := ⟨before ++ after, before.length, by simp⟩

theorem exists_cut (d : Doc α) : ∃ before after, d = cut before after := by
  refine ⟨d.text.take d.cursor, d.text.drop d.cursor, ?_⟩
  apply ext
  · simp [cut]
  · simp [cut, d.cursor_le]

def moveTo (d : Doc α) (pos : Nat) : Doc α := ⟨d.text, min pos d.text.length, min_le_right _ _⟩

def right (d : Doc α) : Doc α := d.moveTo (d.cursor + 1)

def left (d : Doc α) : Doc α := d.moveTo (d.cursor - 1)

def toEnd (d : Doc α) : Doc α := d.moveTo d.text.length

def insert (d : Doc α) (x : α) : Doc α := cut (d.text.take d.cursor ++ [x]) (d.text.drop d.cursor)

def erase (d : Doc α) : Doc α := cut (d.text.take (d.cursor - 1)) (d.text.drop d.cursor)

section Lines

variable [DecidableEq α] (nl : α)

def lineStart (text : List α) (pos : Nat) : Nat := pos - ((text.take pos).rtakeWhile (· ≠ nl)).length

def lineEnd (text : List α) (pos : Nat) : Nat := pos + ((text.drop pos).takeWhile (· ≠ nl)).length

def column (d : Doc α) : Nat := d.cursor - lineStart nl d.text d.cursor

def down (d : Doc α) : Doc α :=
  let stop := lineEnd nl d.text d.cursor
  if stop = d.text.length then d
  else d.moveTo (stop + 1 + min (d.column nl) (lineEnd nl d.text (stop + 1) - (stop + 1)))

def up (d : Doc α) : Doc α :=
  let start := lineStart nl d.text d.cursor
  if start = 0 then d
  else
    let previous := lineStart nl d.text (start - 1)
    d.moveTo (previous + min (d.column nl) (start - 1 - previous))

end Lines

/-! ### Documents that are cut at the cursor -/

section Cut

variable {before after : List α} {x : α}

@[simp]
theorem text_cut : (cut before after).text = before ++ after := rfl

@[simp]
theorem cursor_cut : (cut before after).cursor = before.length := rfl

theorem moveTo_cut_right (line : List α) :
    (cut before (line ++ after)).moveTo (before.length + line.length) = cut (before ++ line) after := by
  apply ext
  · simp [moveTo]
  · simp [moveTo]

theorem moveTo_cut_left (line : List α) :
    (cut (before ++ line) after).moveTo before.length = cut before (line ++ after) := by
  apply ext
  · simp [moveTo]
  · simp [moveTo]

@[simp]
theorem right_cut_cons : (cut before (x :: after)).right = cut (before ++ [x]) after :=
  moveTo_cut_right [x]

@[simp]
theorem right_cut_nil : (cut before []).right = cut before [] := by
  apply ext
  · simp [right, moveTo]
  · simp [right, moveTo]

@[simp]
theorem left_cut_snoc : (cut (before ++ [x]) after).left = cut before (x :: after) := by
  have hleft : (cut (before ++ [x]) after).moveTo before.length = cut before (x :: after) := moveTo_cut_left [x]
  rw [left, cursor_cut, List.length_append, List.length_singleton, Nat.add_sub_cancel]
  exact hleft

@[simp]
theorem left_cut_nil : (cut [] after).left = cut [] after := by
  apply ext
  · simp [left, moveTo]
  · simp [left, moveTo]

@[simp]
theorem insert_cut : (cut before after).insert x = cut (before ++ [x]) after := by
  simp [insert]

@[simp]
theorem erase_cut_snoc : (cut (before ++ [x]) after).erase = cut before after := by
  simp [erase]

@[simp]
theorem erase_cut_nil : (cut [] after).erase = cut [] after := by
  simp [erase]

end Cut

/-! ### Moves -/

variable (d : Doc α)

@[simp]
theorem text_moveTo (pos : Nat) : (d.moveTo pos).text = d.text := rfl

theorem cursor_moveTo {pos : Nat} (hpos : pos ≤ d.text.length) : (d.moveTo pos).cursor = pos := min_eq_left hpos

theorem moveTo_moveTo (i j : Nat) : (d.moveTo i).moveTo j = d.moveTo j := rfl

theorem moveTo_cursor : d.moveTo d.cursor = d := ext rfl (min_eq_left d.cursor_le)

section Lines

variable [DecidableEq α] {nl : α}

theorem lineEnd_le (nl : α) (text : List α) {pos : Nat} (hpos : pos ≤ text.length) :
    lineEnd nl text pos ≤ text.length := by
  have hle := ((text.drop pos).takeWhile_sublist (· ≠ nl)).length_le
  rw [List.length_drop] at hle
  rw [lineEnd]
  omega

theorem le_lineEnd (nl : α) (text : List α) (pos : Nat) : pos ≤ lineEnd nl text pos := Nat.le_add_right _ _

theorem lineStart_le (nl : α) (text : List α) (pos : Nat) : lineStart nl text pos ≤ pos := Nat.sub_le _ _

theorem lineEnd_eq_self {text : List α} {pos : Nat} (hpos : text.length ≤ pos ∨ text[pos]? = some nl) :
    lineEnd nl text pos = pos := by
  rcases hpos with hend | hbreak
  · rw [lineEnd, List.drop_eq_nil_of_le hend]
    rfl
  · obtain ⟨hlt, heq⟩ := List.getElem?_eq_some_iff.mp hbreak
    rw [lineEnd, List.drop_eq_getElem_cons hlt, heq, List.takeWhile_cons_of_neg (by simp)]
    rfl

theorem lineEnd_succ {text : List α} {pos : Nat} {x : α} (hx : text[pos]? = some x) (hne : x ≠ nl) :
    lineEnd nl text (pos + 1) = lineEnd nl text pos := by
  obtain ⟨hlt, heq⟩ := List.getElem?_eq_some_iff.mp hx
  rw [lineEnd, lineEnd, List.drop_eq_getElem_cons hlt, heq, List.takeWhile_cons_of_pos (by simpa using hne),
    List.length_cons]
  omega

end Lines

end Doc

/-! ### The array -/

/-- The array holds the elements before the cursor below `start`, and those behind it from `stop` up to `cap`. -/
structure Rep (cap : Nat) (text : Nat → α) (start stop : Nat) (before after : List α) : Prop where
  start_eq : start = before.length
  stop_eq : stop + after.length = cap
  le : start ≤ stop
  before_eq : ∀ i x, before[i]? = some x → text i = x
  after_eq : ∀ i x, after[i]? = some x → text (stop + i) = x

namespace Rep

variable {cap start stop : Nat} {text : Nat → α} {before after : List α} {x : α}

theorem right (hrep : Rep cap text start stop before (x :: after)) :
    Rep cap (Function.update text start (text stop)) (start + 1) (stop + 1) (before ++ [x]) after where
  start_eq := by simp [hrep.start_eq]
  stop_eq := by
    have := hrep.stop_eq
    simp only [List.length_cons] at this
    omega
  le := Nat.succ_le_succ hrep.le
  before_eq i y hy := by
    have hstart := hrep.start_eq
    rw [List.getElem?_append] at hy
    split_ifs at hy with hi
    · rw [Function.update_of_ne (by omega)]
      exact hrep.before_eq i y hy
    · have hlt := (List.getElem?_eq_some_iff.mp hy).1
      have heq : i = start := by
        rw [List.length_singleton] at hlt
        omega
      rw [heq, Function.update_self]
      rw [heq, hstart, Nat.sub_self] at hy
      exact hrep.after_eq 0 y hy
  after_eq i y hy := by
    have hle := hrep.le
    rw [Function.update_of_ne (by omega), Nat.add_assoc, Nat.add_comm 1]
    exact hrep.after_eq (i + 1) y hy

theorem left (hrep : Rep cap text start stop (before ++ [x]) after) :
    Rep cap (Function.update text (stop - 1) (text (start - 1))) (start - 1) (stop - 1) before (x :: after) where
  start_eq := by simp [hrep.start_eq]
  stop_eq := by
    have hstop := hrep.stop_eq
    have hstart := hrep.start_eq
    have hle := hrep.le
    rw [List.length_append, List.length_singleton] at hstart
    rw [List.length_cons]
    omega
  le := Nat.sub_le_sub_right hrep.le 1
  before_eq i y hy := by
    have hstart := hrep.start_eq
    have hle := hrep.le
    have hlt := (List.getElem?_eq_some_iff.mp hy).1
    rw [List.length_append, List.length_singleton] at hstart
    rw [Function.update_of_ne (by omega)]
    apply hrep.before_eq
    rwa [List.getElem?_append_left hlt]
  after_eq i y hy := by
    have hstart := hrep.start_eq
    have hle := hrep.le
    rw [List.length_append, List.length_singleton] at hstart
    cases i with
    | zero =>
      rw [Nat.add_zero, Function.update_self]
      apply hrep.before_eq
      rw [hstart, Nat.add_sub_cancel, List.getElem?_append_right le_rfl, Nat.sub_self]
      exact hy
    | succ i =>
      rw [Function.update_of_ne (by omega), show stop - 1 + (i + 1) = stop + i by omega]
      exact hrep.after_eq i y hy

theorem insert (hrep : Rep cap text start stop before after) (hgap : start ≠ stop) (x : α) :
    Rep cap (Function.update text start x) (start + 1) stop (before ++ [x]) after where
  start_eq := by simp [hrep.start_eq]
  stop_eq := hrep.stop_eq
  le := Nat.lt_of_le_of_ne hrep.le hgap
  before_eq i y hy := by
    have hstart := hrep.start_eq
    rw [List.getElem?_append] at hy
    split_ifs at hy with hi
    · rw [Function.update_of_ne (by omega)]
      exact hrep.before_eq i y hy
    · have hlt := (List.getElem?_eq_some_iff.mp hy).1
      have heq : i = start := by
        rw [List.length_singleton] at hlt
        omega
      rw [heq, hstart, Nat.sub_self, List.getElem?_cons_zero, Option.some.injEq] at hy
      rw [heq, Function.update_self, hy]
  after_eq i y hy := by
    have hle := hrep.le
    rw [Function.update_of_ne (by omega)]
    exact hrep.after_eq i y hy

theorem erase (hrep : Rep cap text start stop (before ++ [x]) after) :
    Rep cap text (start - 1) stop before after where
  start_eq := by simp [hrep.start_eq]
  stop_eq := hrep.stop_eq
  le := (Nat.sub_le start 1).trans hrep.le
  before_eq i y hy := by
    apply hrep.before_eq
    rwa [List.getElem?_append_left (List.getElem?_eq_some_iff.mp hy).1]
  after_eq := hrep.after_eq

/-! What the array says about the two parts. -/

theorem after_eq_nil_iff (hrep : Rep cap text start stop before after) : after = [] ↔ stop = cap := by
  rw [← List.length_eq_zero_iff]
  have := hrep.stop_eq
  omega

theorem before_eq_nil_iff (hrep : Rep cap text start stop before after) : before = [] ↔ start = 0 := by
  rw [← List.length_eq_zero_iff, hrep.start_eq]

theorem before_map (hrep : Rep cap text start stop before after) : (List.range start).map text = before := by
  apply List.ext_getElem?
  intro i
  rw [List.getElem?_map]
  by_cases hi : i < start
  · have hlt : i < before.length := hrep.start_eq ▸ hi
    rw [List.getElem?_range hi, Option.map_some, hrep.before_eq i _ (List.getElem?_eq_getElem hlt),
      List.getElem?_eq_getElem hlt]
  · have hge : before.length ≤ i := hrep.start_eq ▸ Nat.le_of_not_lt hi
    rw [List.getElem?_eq_none (by simpa using hi), List.getElem?_eq_none hge]
    rfl

theorem after_map (hrep : Rep cap text start stop before after) :
    (List.range (cap - stop)).map (fun k => text (stop + k)) = after := by
  have hlength : cap - stop = after.length := by
    have := hrep.stop_eq
    omega
  apply List.ext_getElem?
  intro i
  rw [List.getElem?_map, hlength]
  by_cases hi : i < after.length
  · rw [List.getElem?_range hi, Option.map_some, hrep.after_eq i _ (List.getElem?_eq_getElem hi),
      List.getElem?_eq_getElem hi]
  · rw [List.getElem?_eq_none (by simpa using hi), List.getElem?_eq_none (Nat.le_of_not_lt hi)]
    rfl

end Rep

/-! ### The array and the document -/

/-- The array holds the document, with the gap at its cursor. -/
def Holds (cap : Nat) (text : Nat → α) (start stop : Nat) (d : Doc α) : Prop :=
  Rep cap text start stop (d.text.take d.cursor) (d.text.drop d.cursor)

namespace Holds

variable {cap start stop : Nat} {text : Nat → α} {d : Doc α} {before after : List α} {x : α}

theorem cut_iff : Holds cap text start stop (Doc.cut before after) ↔ Rep cap text start stop before after := by
  rw [Holds, Doc.text_cut, Doc.cursor_cut, List.take_left, List.drop_left]

variable (hholds : Holds cap text start stop d)

include hholds

theorem start_eq : start = d.cursor := by
  rw [Rep.start_eq hholds, List.length_take_of_le d.cursor_le]

theorem stop_eq : stop + (d.text.length - d.cursor) = cap := by
  rw [← List.length_drop]
  exact Rep.stop_eq hholds

theorem behind_eq {i : Nat} (hi : stop + i < cap) : d.text[d.cursor + i]? = some (text (stop + i)) := by
  have hstop := stop_eq hholds
  have hlt : d.cursor + i < d.text.length := by omega
  have hdrop : (d.text.drop d.cursor)[i]? = some d.text[d.cursor + i] := by
    rw [List.getElem?_drop, List.getElem?_eq_getElem hlt]
  rw [List.getElem?_eq_getElem hlt, Rep.after_eq hholds i _ hdrop]

theorem text_eq : (List.range start).map text ++ (List.range (cap - stop)).map (fun k => text (stop + k)) = d.text := by
  rw [Rep.before_map hholds, Rep.after_map hholds, List.take_append_drop]

theorem right (hstop : stop ≠ cap) :
    Holds cap (Function.update text start (text stop)) (start + 1) (stop + 1) d.right := by
  obtain ⟨before, after, rfl⟩ := d.exists_cut
  rw [cut_iff] at hholds
  cases after with
  | nil => exact absurd (hholds.after_eq_nil_iff.mp rfl) hstop
  | cons x after =>
    rw [Doc.right_cut_cons, cut_iff]
    exact hholds.right

theorem right_eq_self (hstop : stop = cap) : d.right = d := by
  obtain ⟨before, after, rfl⟩ := d.exists_cut
  rw [cut_iff] at hholds
  rw [hholds.after_eq_nil_iff.mpr hstop, Doc.right_cut_nil]

theorem left (hstart : start ≠ 0) :
    Holds cap (Function.update text (stop - 1) (text (start - 1))) (start - 1) (stop - 1) d.left := by
  obtain ⟨before, after, rfl⟩ := d.exists_cut
  rw [cut_iff] at hholds
  induction before using List.reverseRecOn with
  | nil => exact absurd (hholds.before_eq_nil_iff.mp rfl) hstart
  | append_singleton before x =>
    rw [Doc.left_cut_snoc, cut_iff]
    exact hholds.left

theorem left_eq_self (hstart : start = 0) : d.left = d := by
  obtain ⟨before, after, rfl⟩ := d.exists_cut
  rw [cut_iff] at hholds
  rw [hholds.before_eq_nil_iff.mpr hstart, Doc.left_cut_nil]

theorem insert (hgap : start ≠ stop) (x : α) :
    Holds cap (Function.update text start x) (start + 1) stop (d.insert x) := by
  obtain ⟨before, after, rfl⟩ := d.exists_cut
  rw [cut_iff] at hholds
  rw [Doc.insert_cut, cut_iff]
  exact hholds.insert hgap x

theorem erase (hstart : start ≠ 0) : Holds cap text (start - 1) stop d.erase := by
  obtain ⟨before, after, rfl⟩ := d.exists_cut
  rw [cut_iff] at hholds
  induction before using List.reverseRecOn with
  | nil => exact absurd (hholds.before_eq_nil_iff.mp rfl) hstart
  | append_singleton before x =>
    rw [Doc.erase_cut_snoc, cut_iff]
    exact hholds.erase

theorem erase_eq_self (hstart : start = 0) : d.erase = d := by
  obtain ⟨before, after, rfl⟩ := d.exists_cut
  rw [cut_iff] at hholds
  rw [hholds.before_eq_nil_iff.mpr hstart, Doc.erase_cut_nil]

theorem gap_eq_iff : start = stop ↔ d.text.length = cap := by
  have hstart := start_eq hholds
  have hstop := stop_eq hholds
  have hle := d.cursor_le
  omega

end Holds

end GapBuffer
