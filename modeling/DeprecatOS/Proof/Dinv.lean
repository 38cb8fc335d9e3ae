import DeprecatOS.Dinv
import DeprecatOS.Lib.GapBuffer

/-!
# The editor edits a text

What the editor is for: a text with a cursor, a command line that is being typed, and the texts that were saved. Every
handler does to the gap buffer what the key means for the text.
-/

namespace DeprecatOS

open Bytes GapBuffer

/-! ### What the keys mean -/

structure Session where
  doc : Doc UInt8
  line : List UInt8
  saves : List (UInt32 × UInt32 × List UInt8)

namespace Session

def saveNames : List (List UInt8) := [[119], [119, 113], [119, 97], [119, 113, 97]]

def opened (file : List UInt8) (saves : List (UInt32 × UInt32 × List UInt8)) : Session where
  doc := Doc.cut file []
  line := []
  saves := saves

variable (a : Session)

def onDoc (f : Doc UInt8 → Doc UInt8) : Session := { a with doc := f a.doc }

def save (env : SaveEnv) : Session where
  doc := a.doc.toEnd
  line := a.line
  saves := a.saves ++ (env.resolvedAgain.map fun (fs, ino) => (fs, ino, a.doc.text)).toList

def run (env : SaveEnv) (name : List UInt8) : Session := if name ∈ saveNames then a.save env else a

def normalKey (c : UInt8) : Session :=
  if c = 58 then { a with line := [] }
  else if c = 97 ∨ c = 108 then a.onDoc Doc.right
  else if c = 104 then a.onDoc Doc.left
  else if c = 106 then a.onDoc (Doc.down newline)
  else if c = 107 then a.onDoc (Doc.up newline)
  else a

def insertKey (c : UInt8) : Session :=
  if 0x80 ≤ c ∨ c = keyEsc then a
  else if c = keyBackspace then a.onDoc Doc.erase
  else if a.doc.text.length = textCap then a
  else a.onDoc fun d => d.insert c

def commandKey (env : SaveEnv) (c : UInt8) : Session :=
  if 0x80 ≤ c then a
  else if c = keyEsc then { a with line := [] }
  else if c = keyBackspace then { a with line := a.line.dropLast }
  else if c = newline then { a.run env (a.line.takeWhile (· ≠ 0)) with line := [] }
  else if a.line.length < cmdBufSize - 1 then { a with line := a.line ++ [c] }
  else a

def handle (env : SaveEnv) (handler : Mode) (c : UInt8) : Session :=
  match handler with
  | .normal => a.normalKey c
  | .insert => a.insertKey c
  | .command => a.commandKey env c

end Session

def FileCall.saved : FileCall → Option (UInt32 × UInt32 × List UInt8)
  | .touch => none
  | .fsave fs ino buf len => some (fs, ino, (List.range len).map buf)

def Dinv.saves (s : Dinv) : List (UInt32 × UInt32 × List UInt8) := s.calls.filterMap FileCall.saved

structure Mirrors (s : Dinv) (a : Session) : Prop where
  holds : Holds textCap s.text s.gapStart s.gapEnd a.doc
  cmdLen : s.cmdLen = a.line.length
  short : a.line.length < cmdBufSize
  cmdBuf : ∀ i x, a.line[i]? = some x → s.cmdBuf i = x
  saves : s.saves = a.saves

variable {s : Dinv} {a : Session}

namespace Mirrors

theorem edit {s' : Dinv} {d : Doc UInt8} (h : Mirrors s a)
    (hholds : Holds textCap s'.text s'.gapStart s'.gapEnd d) (hcmdLen : s'.cmdLen = s.cmdLen)
    (hcmdBuf : s'.cmdBuf = s.cmdBuf) (hcalls : s'.calls = s.calls) : Mirrors s' (a.onDoc fun _ => d) where
  holds := hholds
  cmdLen := hcmdLen.trans h.cmdLen
  short := h.short
  cmdBuf := hcmdBuf ▸ h.cmdBuf
  saves := by
    rw [Dinv.saves, hcalls]
    exact h.saves

theorem clearLine {s' : Dinv} {d : Doc UInt8} (h : Mirrors s a)
    (hholds : Holds textCap s'.text s'.gapStart s'.gapEnd d) (hcmdLen : s'.cmdLen = 0)
    (hcalls : s'.calls = s.calls) : Mirrors s' { a with doc := d, line := [] } where
  holds := hholds
  cmdLen := hcmdLen
  short := show 0 < 64 by decide
  cmdBuf := fun i x hx => by simp at hx
  saves := by
    rw [Dinv.saves, hcalls]
    exact h.saves

variable (h : Mirrors s a)

include h

/-! ### Moves of the cursor -/

theorem cursorRight : Mirrors s.cursorRight (a.onDoc Doc.right) := by
  rw [Dinv.cursorRight]
  split_ifs with hend
  · rw [Session.onDoc, h.holds.right_eq_self hend]
    exact h
  · exact h.edit (h.holds.right hend) rfl rfl rfl

theorem cursorLeft : Mirrors s.cursorLeft (a.onDoc Doc.left) := by
  rw [Dinv.cursorLeft]
  split_ifs with hstart
  · rw [Session.onDoc, h.holds.left_eq_self hstart]
    exact h
  · exact h.edit (h.holds.left hstart) rfl rfl rfl

theorem rightUntil (stop n fuel : Nat) (hstop : stop = s.gapEnd + n) (hle : stop ≤ textCap) (hfuel : n ≤ fuel) :
    (Dinv.rightUntil stop fuel s).gapEnd = stop ∧
      Mirrors (Dinv.rightUntil stop fuel s) (a.onDoc fun d => d.moveTo (d.cursor + n)) := by
  induction fuel generalizing s a n with
  | zero =>
    obtain rfl : n = 0 := by omega
    refine ⟨hstop.symm, ?_⟩
    rw [Session.onDoc, Nat.add_zero, Doc.moveTo_cursor]
    exact h
  | succ fuel ih =>
    rw [Dinv.rightUntil]
    by_cases hdone : s.gapEnd = stop
    · obtain rfl : n = 0 := by omega
      rw [if_pos hdone]
      refine ⟨hdone, ?_⟩
      rw [Session.onDoc, Nat.add_zero, Doc.moveTo_cursor]
      exact h
    rw [if_neg hdone]
    have hend : s.gapEnd ≠ textCap := by omega
    have hgap : s.cursorRight.gapEnd = s.gapEnd + 1 := by
      rw [Dinv.cursorRight, if_neg hend]
    have hroom : a.doc.cursor + 1 ≤ a.doc.text.length := by
      have := h.holds.stop_eq
      omega
    obtain ⟨hgoal, hmirrors⟩ := ih h.cursorRight (n - 1) (by omega) (by omega)
    refine ⟨hgoal, ?_⟩
    have hcursor : a.doc.right.cursor = a.doc.cursor + 1 := Doc.cursor_moveTo _ hroom
    have hdoc : a.doc.right.moveTo (a.doc.right.cursor + (n - 1)) = a.doc.moveTo (a.doc.cursor + n) := by
      rw [hcursor, Doc.right, Doc.moveTo_moveTo]
      congr 1
      omega
    simpa only [Session.onDoc, hdoc] using hmirrors

theorem leftUntil (stop fuel : Nat) (hstop : stop ≤ s.gapStart) (hfuel : s.gapStart - stop ≤ fuel) :
    (Dinv.leftUntil stop fuel s).gapStart = stop ∧
      Mirrors (Dinv.leftUntil stop fuel s) (a.onDoc fun d => d.moveTo stop) := by
  induction fuel generalizing s a with
  | zero =>
    have hdone : s.gapStart = stop := by omega
    refine ⟨hdone, ?_⟩
    rw [Session.onDoc, ← hdone, h.holds.start_eq, Doc.moveTo_cursor]
    exact h
  | succ fuel ih =>
    rw [Dinv.leftUntil]
    by_cases hdone : s.gapStart = stop
    · rw [if_pos hdone]
      refine ⟨hdone, ?_⟩
      rw [Session.onDoc, ← hdone, h.holds.start_eq, Doc.moveTo_cursor]
      exact h
    rw [if_neg hdone]
    have hgap : s.cursorLeft.gapStart = s.gapStart - 1 := by
      rw [Dinv.cursorLeft, if_neg (by omega)]
    have hrest := ih h.cursorLeft (by omega) (by omega)
    exact hrest

/-! ### Lines -/

omit h in
theorem findLineEnd_eq {text : Buf} {l : List UInt8} {p fuel : Nat} (hl : ∀ i x, l[i]? = some x → text (p + i) = x)
    (hcap : p + l.length = textCap) (hfuel : l.length ≤ fuel) :
    Dinv.findLineEnd text fuel p = p + (l.takeWhile (· ≠ newline)).length := by
  induction l generalizing p fuel with
  | nil =>
    have hend : p = textCap := hcap
    cases fuel with
    | zero => rfl
    | succ fuel =>
      rw [Dinv.findLineEnd, if_neg (fun hlt => absurd hlt.1 (by omega))]
      rfl
  | cons x l ih =>
    rw [List.length_cons] at hcap hfuel
    obtain ⟨fuel, rfl⟩ : ∃ k, fuel = k + 1 := ⟨fuel - 1, by omega⟩
    have hx : text p = x := hl 0 x rfl
    rw [Dinv.findLineEnd, hx]
    by_cases hbreak : x = newline
    · rw [if_neg (fun hlt => hlt.2 hbreak), List.takeWhile_cons_of_neg (by simpa using hbreak)]
      rfl
    · rw [if_pos ⟨by omega, hbreak⟩, List.takeWhile_cons_of_pos (by simpa using hbreak), List.length_cons,
        ih (p := p + 1) (fun i y hy => ?_) (by omega) (by omega)]
      · omega
      · rw [Nat.add_assoc, Nat.add_comm 1]
        exact hl (i + 1) y hy

omit h in
theorem findLineStart_eq {text : Buf} {l : List UInt8} (hl : ∀ i x, l[i]? = some x → text i = x) :
    Dinv.findLineStart text l.length = l.length - (l.rtakeWhile (· ≠ newline)).length := by
  induction l using List.reverseRecOn with
  | nil => rfl
  | append_singleton l x ih =>
    have hx : text l.length = x := hl _ _ List.getElem?_concat_length
    have hl' : ∀ i y, l[i]? = some y → text i = y := by
      intro i y hy
      apply hl
      rwa [List.getElem?_append_left (List.getElem?_eq_some_iff.mp hy).1]
    rw [List.length_append, List.length_singleton, Dinv.findLineStart, hx, List.rtakeWhile_concat]
    by_cases hbreak : x = newline
    · rw [if_neg (not_not.mpr hbreak), if_neg (by simpa using hbreak)]
      rfl
    · rw [if_pos hbreak, if_pos (by simpa using hbreak), ih hl', List.length_append, List.length_singleton]
      omega

theorem lineEnd_eq :
    Dinv.findLineEnd s.text textCap s.gapEnd =
      s.gapEnd + (Doc.lineEnd newline a.doc.text a.doc.cursor - a.doc.cursor) := by
  have hstop := h.holds.stop_eq
  rw [findLineEnd_eq (Rep.after_eq h.holds) (Rep.stop_eq h.holds) (by rw [List.length_drop]; omega), Doc.lineEnd,
    Nat.add_sub_cancel_left]

theorem lineStart_eq :
    Dinv.findLineStart s.text s.gapStart = Doc.lineStart newline a.doc.text a.doc.cursor := by
  have hlength := Rep.start_eq h.holds
  have hstart := h.holds.start_eq
  rw [hlength, findLineStart_eq (Rep.before_eq h.holds), Doc.lineStart, ← hlength, hstart]

omit h in
theorem rowcol_snd (l : List UInt8) :
    (l.foldl (fun (r, c) x => if x = newline then (r + 1, 0) else (r, c + 1)) ((0, 0) : Nat × Nat)).2 =
      (l.rtakeWhile (· ≠ newline)).length := by
  induction l using List.reverseRecOn with
  | nil => rfl
  | append_singleton l x ih =>
    rw [List.foldl_append, List.foldl_cons, List.foldl_nil, List.rtakeWhile_concat]
    by_cases hbreak : x = newline
    · simp only [if_pos hbreak]
      rw [if_neg (by simpa using hbreak)]
      rfl
    · simp only [if_neg hbreak]
      rw [if_pos (by simpa using hbreak), List.length_append, ← ih]
      rfl

theorem column_eq : s.cursorRowcol.2 = a.doc.column newline := by
  have hbefore := Rep.before_map h.holds
  have hle : ((a.doc.text.take a.doc.cursor).rtakeWhile (· ≠ newline)).length ≤ a.doc.cursor := by
    have hsuffix := (List.rtakeWhile_suffix (· ≠ newline) (a.doc.text.take a.doc.cursor)).length_le
    rw [List.length_take_of_le a.doc.cursor_le] at hsuffix
    exact hsuffix
  have hfold := rowcol_snd ((List.range s.gapStart).map s.text)
  rw [List.foldl_map, hbefore] at hfold
  rw [Dinv.cursorRowcol, hfold, Doc.column, Doc.lineStart]
  omega

theorem rightInLine (k : Nat) :
    Mirrors (Dinv.rightInLine k s)
      (a.onDoc fun d => d.moveTo (d.cursor + min k (Doc.lineEnd newline d.text d.cursor - d.cursor))) := by
  induction k generalizing s a with
  | zero =>
    simp only [Session.onDoc, Nat.zero_min, Nat.add_zero, Doc.moveTo_cursor]
    exact h
  | succ k ih =>
    have hstop := h.holds.stop_eq
    have hcursor := a.doc.cursor_le
    rw [Dinv.rightInLine]
    by_cases hend : s.gapEnd = textCap ∨ s.text s.gapEnd = newline
    · have hline : Doc.lineEnd newline a.doc.text a.doc.cursor = a.doc.cursor := by
        apply Doc.lineEnd_eq_self
        by_cases hcap : s.gapEnd = textCap
        · exact .inl (by omega)
        · have hnext := h.holds.behind_eq (i := 0) (by omega)
          rw [Nat.add_zero, Nat.add_zero, hend.resolve_left hcap] at hnext
          exact .inr hnext
      rw [if_pos hend]
      simp only [Session.onDoc, hline, Nat.sub_self, Nat.min_zero, Nat.add_zero, Doc.moveTo_cursor]
      exact h
    · have hcap : s.gapEnd ≠ textCap := fun heq => hend (.inl heq)
      have hnext := h.holds.behind_eq (i := 0) (by omega)
      rw [Nat.add_zero, Nat.add_zero] at hnext
      have hsucc := Doc.lineEnd_succ hnext fun heq => hend (.inr heq)
      have hright : a.doc.right.cursor = a.doc.cursor + 1 := Doc.cursor_moveTo _ (by omega)
      have hle : a.doc.cursor + 1 ≤ Doc.lineEnd newline a.doc.text a.doc.cursor := hsucc ▸ Doc.le_lineEnd _ _ _
      have hdoc : a.doc.right.moveTo (a.doc.right.cursor +
          min k (Doc.lineEnd newline a.doc.right.text a.doc.right.cursor - a.doc.right.cursor)) =
          a.doc.moveTo (a.doc.cursor +
            min (k + 1) (Doc.lineEnd newline a.doc.text a.doc.cursor - a.doc.cursor)) := by
        rw [hright, show a.doc.right.text = a.doc.text from rfl, hsucc, Doc.right, Doc.moveTo_moveTo]
        congr 1
        omega
      rw [if_neg hend]
      simpa only [Session.onDoc, hdoc] using ih h.cursorRight

theorem leftToColumn (col colTemp : Nat) :
    Mirrors (Dinv.leftToColumn col colTemp s) (a.onDoc fun d => d.moveTo (d.cursor - (colTemp - col))) := by
  induction colTemp generalizing s a with
  | zero =>
    simp only [Session.onDoc, Nat.zero_sub, Nat.sub_zero, Doc.moveTo_cursor]
    exact h
  | succ colTemp ih =>
    have hcursor := a.doc.cursor_le
    rw [Dinv.leftToColumn]
    by_cases hcol : col < colTemp + 1
    · have hleft : a.doc.left.cursor = a.doc.cursor - 1 := Doc.cursor_moveTo _ (by omega)
      have hdoc : a.doc.left.moveTo (a.doc.left.cursor - (colTemp - col)) =
          a.doc.moveTo (a.doc.cursor - (colTemp + 1 - col)) := by
        rw [hleft, Doc.left, Doc.moveTo_moveTo]
        congr 1
        omega
      rw [if_pos hcol]
      simpa only [Session.onDoc, hdoc] using ih h.cursorLeft
    · rw [if_neg hcol]
      simp only [Session.onDoc, Nat.sub_eq_zero_of_le (Nat.le_of_not_lt hcol), Nat.sub_zero, Doc.moveTo_cursor]
      exact h

theorem cursorDown : Mirrors s.cursorDown (a.onDoc (Doc.down newline)) := by
  have hstop := h.holds.stop_eq
  have hlow := Doc.le_lineEnd newline a.doc.text a.doc.cursor
  have hhigh := Doc.lineEnd_le newline a.doc.text a.doc.cursor_le
  rw [Dinv.cursorDown, h.lineEnd_eq, h.column_eq]
  generalize hend : Doc.lineEnd newline a.doc.text a.doc.cursor = stop at hlow hhigh
  by_cases hlast : stop = a.doc.text.length
  · rw [if_pos (by omega), Session.onDoc, Doc.down, hend, if_pos hlast]
    exact h
  · rw [if_neg (by omega)]
    have hnext := (h.rightUntil (s.gapEnd + (stop - a.doc.cursor) + 1) (stop + 1 - a.doc.cursor) textCap (by omega)
      (by omega) (by omega)).2
    have hcursor : (a.doc.moveTo (stop + 1)).cursor = stop + 1 := Doc.cursor_moveTo _ (by omega)
    have hmove := hnext.rightInLine (a.doc.column newline)
    rw [Session.onDoc, Session.onDoc] at hmove
    rw [Session.onDoc, Doc.down, hend, if_neg hlast]
    simpa only [Nat.add_sub_cancel' (Nat.le_succ_of_le hlow), hcursor, Doc.text_moveTo, Doc.moveTo_moveTo] using hmove

theorem cursorUp : Mirrors s.cursorUp (a.onDoc (Doc.up newline)) := by
  have hcap := h.holds.stop_eq
  have hle := Rep.le h.holds
  have hstart := h.holds.start_eq
  have hlow := Doc.lineStart_le newline a.doc.text a.doc.cursor
  have hcursor := a.doc.cursor_le
  rw [Dinv.cursorUp, h.lineStart_eq, h.column_eq]
  generalize hbegin : Doc.lineStart newline a.doc.text a.doc.cursor = start at hlow
  by_cases hfirst : start = 0
  · rw [if_pos hfirst, Session.onDoc, Doc.up, hbegin, if_pos hfirst]
    exact h
  · rw [if_neg hfirst]
    have hprevious := (h.leftUntil (start - 1) textCap (by omega) (by omega)).2
    have hback : (a.doc.moveTo (start - 1)).cursor = start - 1 := Doc.cursor_moveTo _ (by omega)
    have hmove := hprevious.leftToColumn (a.doc.column newline) ((a.doc.moveTo (start - 1)).column newline)
    have hprev := Doc.lineStart_le newline a.doc.text (start - 1)
    have hcolumn : (a.doc.moveTo (start - 1)).column newline =
        start - 1 - Doc.lineStart newline a.doc.text (start - 1) := by
      rw [Doc.column, hback, Doc.text_moveTo]
    have hdoc : (a.doc.moveTo (start - 1)).moveTo
        (start - 1 - ((a.doc.moveTo (start - 1)).column newline - a.doc.column newline)) = a.doc.up newline := by
      rw [Doc.up, hbegin, if_neg hfirst, Doc.moveTo_moveTo, hcolumn]
      congr 1
      omega
    simp only [hprevious.column_eq]
    simpa only [Session.onDoc, hback, hdoc] using hmove

/-! ### Keys -/

theorem handleInsert (c : UInt8) : Mirrors (s.handleInsert c) (a.insertKey c) := by
  have hmode : Mirrors { s with mode := .insert } a := h.edit h.holds rfl rfl rfl
  rw [Dinv.handleInsert, Session.insertKey]
  by_cases hhigh : 0x80 ≤ c
  · rw [if_pos hhigh, if_pos (.inl hhigh)]
    exact hmode
  by_cases hesc : c = keyEsc
  · rw [if_neg hhigh, if_pos hesc, if_pos (.inr hesc)]
    exact h.edit h.holds rfl rfl rfl
  rw [if_neg hhigh, if_neg hesc, if_neg (not_or.mpr ⟨hhigh, hesc⟩)]
  by_cases hback : c = keyBackspace
  · rw [if_pos hback, if_pos hback]
    by_cases hstart : 0 < s.gapStart
    · rw [if_pos hstart]
      exact h.edit (h.holds.erase (Nat.ne_of_gt hstart)) rfl rfl rfl
    · rw [if_neg hstart, Session.onDoc, h.holds.erase_eq_self (by omega)]
      exact hmode
  rw [if_neg hback, if_neg hback]
  by_cases hfull : s.gapStart = s.gapEnd
  · rw [if_pos hfull, if_pos (h.holds.gap_eq_iff.mp hfull)]
    exact hmode
  · rw [if_neg hfull, if_neg (mt h.holds.gap_eq_iff.mpr hfull)]
    exact h.edit (h.holds.insert hfull c) rfl rfl rfl

theorem handleNormal (c : UInt8) : Mirrors (s.handleNormal c) (a.normalKey c) := by
  have hmode : Mirrors { s with mode := .normal } a := h.edit h.holds rfl rfl rfl
  rw [Dinv.handleNormal, Session.normalKey]
  by_cases hcolon : c = 58
  · rw [if_pos hcolon, if_pos hcolon]
    exact h.clearLine h.holds rfl rfl
  rw [if_neg hcolon, if_neg hcolon]
  by_cases hi : c = 105
  · subst hi
    exact h.edit h.holds rfl rfl rfl
  rw [if_neg hi]
  by_cases ha : c = 97
  · rw [if_pos ha, if_pos (.inl ha)]
    have hright := hmode.cursorRight
    exact hright.edit hright.holds rfl rfl rfl
  rw [if_neg ha]
  by_cases hl : c = 108
  · subst hl
    exact hmode.cursorRight
  rw [if_neg (not_or.mpr ⟨ha, hl⟩), if_neg hl]
  split_ifs
  · exact hmode.cursorLeft
  · exact hmode.cursorDown
  · exact hmode.cursorUp
  · exact hmode

/-! ### Commands -/

theorem eraseCommand {mode : Mode} :
    Mirrors (if 0 < s.cmdLen then { s with mode := mode, cmdLen := s.cmdLen - 1, replacementStatus := .cmd }
      else { s with mode := mode }) { a with line := a.line.dropLast } := by
  have hlen := h.cmdLen
  have hshort := h.short
  have hbuf : ∀ i x, a.line.dropLast[i]? = some x → s.cmdBuf i = x := by
    intro i x hx
    apply h.cmdBuf
    rw [List.getElem?_dropLast] at hx
    split_ifs at hx
    exact hx
  split_ifs with hpos
  · refine ⟨h.holds, ?_, ?_, hbuf, h.saves⟩
    · rw [List.length_dropLast, ← hlen]
    · rw [List.length_dropLast]
      omega
  · refine ⟨h.holds, ?_, ?_, hbuf, h.saves⟩
    · change s.cmdLen = a.line.dropLast.length
      rw [List.length_dropLast]
      omega
    · rw [List.length_dropLast]
      omega

theorem typeCommand {mode : Mode} (c : UInt8) (hroom : a.line.length < cmdBufSize - 1) :
    Mirrors { s with
      mode := mode
      cmdBuf := Function.update s.cmdBuf s.cmdLen c
      cmdLen := s.cmdLen + 1
      replacementStatus := .cmd } { a with line := a.line ++ [c] } := by
  have hlen := h.cmdLen
  refine ⟨h.holds, ?_, ?_, fun i x hx => ?_, h.saves⟩
  · rw [List.length_append, ← hlen]
    rfl
  · rw [List.length_append, List.length_singleton]
    omega
  · change Function.update s.cmdBuf s.cmdLen c i = x
    rw [List.getElem?_append] at hx
    split_ifs at hx with hi
    · rw [Function.update_of_ne (by omega)]
      exact h.cmdBuf i x hx
    · have hlt := (List.getElem?_eq_some_iff.mp hx).1
      rw [List.length_singleton] at hlt
      obtain rfl : i = s.cmdLen := by omega
      rw [hlen, Nat.sub_self, List.getElem?_cons_zero, Option.some.injEq] at hx
      rw [Function.update_self, hx]

theorem complain (message : List UInt8) (ticks : UInt64) : Mirrors (s.complain message ticks) a :=
  h.edit h.holds rfl rfl rfl

theorem quit : Mirrors s.quit a := h.edit h.holds rfl rfl rfl

theorem call (c : FileCall) :
    Mirrors (s.call c) { a with saves := a.saves ++ c.saved.toList } where
  holds := h.holds
  cmdLen := h.cmdLen
  short := h.short
  cmdBuf := h.cmdBuf
  saves := by
    have hsaves := h.saves
    rw [Dinv.saves] at hsaves ⊢
    rw [Dinv.call, List.filterMap_append, hsaves]
    cases hsaved : c.saved with
    | none => simp [hsaved]
    | some x => simp [hsaved]

theorem save (env : SaveEnv) : Mirrors (s.save env) (a.save env) := by
  have hstop := h.holds.stop_eq
  have hcursor := a.doc.cursor_le
  have hend := (h.rightUntil textCap (a.doc.text.length - a.doc.cursor) textCap hstop.symm le_rfl (by omega)).2
  rw [Dinv.save]
  generalize Dinv.rightUntil textCap textCap s = s' at hend
  have hdoc : a.doc.moveTo (a.doc.cursor + (a.doc.text.length - a.doc.cursor)) = a.doc.toEnd := by
    rw [Doc.toEnd, Nat.add_sub_cancel' hcursor]
  rw [Session.onDoc, hdoc] at hend
  have htouch : Mirrors (if env.resolved = none then s'.call .touch else s') { a with doc := a.doc.toEnd } := by
    split_ifs
    · simpa [FileCall.saved] using hend.call .touch
    · exact hend
  generalize (if env.resolved = none then s'.call .touch else s') = s'' at htouch
  rw [Session.save]
  cases hagain : env.resolvedAgain with
  | none => simpa using htouch.complain Dinv.failedToSave env.ticks
  | some file =>
    have hbytes : (List.range s''.gapStart).map s''.text = a.doc.text := by
      rw [Rep.before_map htouch.holds]
      simp [Doc.toEnd, Doc.moveTo]
    have hcall := htouch.call (.fsave file.1 file.2 s''.text s''.gapStart)
    rw [FileCall.saved, hbytes] at hcall
    dsimp only
    split_ifs
    · exact hcall
    · exact hcall.complain _ _

theorem saveQuit (env : SaveEnv) : Mirrors (s.saveQuit env) (a.save env) := by
  rw [Dinv.saveQuit]
  split_ifs
  · exact h.save env
  · exact (h.save env).quit

end Mirrors

/-! The commands leave the command line alone. -/

namespace Dinv

theorem cmdBuf_cursorRight (s : Dinv) : s.cursorRight.cmdBuf = s.cmdBuf := by
  rw [cursorRight]
  split_ifs <;> rfl

theorem cmdBuf_rightUntil (stop fuel : Nat) (s : Dinv) : (rightUntil stop fuel s).cmdBuf = s.cmdBuf := by
  induction fuel generalizing s with
  | zero => rfl
  | succ fuel ih =>
    rw [rightUntil]
    split_ifs
    · rfl
    · rw [ih, cmdBuf_cursorRight]

theorem cmdBuf_save (env : SaveEnv) (s : Dinv) : (s.save env).cmdBuf = s.cmdBuf := by
  rw [← cmdBuf_rightUntil textCap textCap s, save]
  generalize rightUntil textCap textCap s = s'
  have htouch : (if env.resolved = none then s'.call .touch else s').cmdBuf = s'.cmdBuf := by
    split_ifs <;> rfl
  rw [← htouch]
  cases env.resolvedAgain with
  | none => rfl
  | some file =>
    dsimp only
    split_ifs <;> rfl

theorem cmdBuf_saveQuit (env : SaveEnv) (s : Dinv) : (s.saveQuit env).cmdBuf = s.cmdBuf := by
  rw [← cmdBuf_save env s, saveQuit]
  split_ifs <;> rfl

end Dinv

theorem cmds_mirror (env : SaveEnv) : ∀ cmd ∈ Dinv.cmds, ∀ s a, Mirrors s a →
    Mirrors (cmd.2 env s) (a.run env cmd.1) ∧ (cmd.2 env s).cmdBuf = s.cmdBuf := by
  intro cmd hcmd s a h
  have hquit : Mirrors s.quit a ∧ s.quit.cmdBuf = s.cmdBuf := ⟨h.quit, rfl⟩
  have hsave := And.intro (h.save env) (Dinv.cmdBuf_save env s)
  have hsaveQuit := And.intro (h.saveQuit env) (Dinv.cmdBuf_saveQuit env s)
  simp only [Dinv.cmds, List.mem_cons, List.not_mem_nil, or_false] at hcmd
  rcases hcmd with rfl | rfl | rfl | rfl | rfl | rfl
  · exact hquit
  · exact hsave
  · exact hsaveQuit
  · exact hquit
  · exact hsave
  · exact hsaveQuit

theorem streq_iff {buf : Buf} {name lit : List UInt8} (hbuf : ∀ i ≤ name.length, buf i = cstr name i)
    (hname : ∀ c ∈ name, c ≠ 0) (hlit : ∀ c ∈ lit, c ≠ 0) : streq buf lit = true ↔ lit = name := by
  have hcstr : streq buf lit = true ↔ ∀ i ≤ lit.length, buf i = cstr lit i := by
    simp only [streq, List.all_eq_true, List.mem_range, Nat.lt_succ_iff, decide_eq_true_eq]
  rw [hcstr]
  constructor
  · intro heq
    have hends : ∀ {l m : List UInt8}, (∀ c ∈ m, c ≠ 0) → (∀ i ≤ l.length, buf i = cstr l i) →
        (∀ i ≤ m.length, buf i = cstr m i) → m.length ≤ l.length := by
      intro l m hm hl hbufm
      by_contra hlt
      have hi : l.length < m.length := Nat.lt_of_not_le hlt
      have hzero : cstr m l.length = 0 := by
        rw [← hbufm _ hi.le, hl _ le_rfl, cstr, List.getD_eq_default _ _ le_rfl]
      rw [cstr, List.getD_eq_getElem _ _ hi] at hzero
      exact hm _ (List.getElem_mem hi) hzero
    have hlength : lit.length = name.length := le_antisymm (hends hlit hbuf heq) (hends hname heq hbuf)
    refine List.ext_getElem hlength fun i hi hi' => ?_
    have hchar := (heq i hi.le).symm.trans (hbuf i hi'.le)
    rwa [cstr, cstr, List.getD_eq_getElem _ _ hi, List.getD_eq_getElem _ _ hi'] at hchar
  · rintro rfl
    exact hbuf

theorem runCommands_mirrors (env : SaveEnv) {name : List UInt8} {cmds : List (List UInt8 × (SaveEnv → Dinv → Dinv))}
    (hcmds : ∀ cmd ∈ cmds, ∀ s a, Mirrors s a →
      Mirrors (cmd.2 env s) (a.run env cmd.1) ∧ (cmd.2 env s).cmdBuf = s.cmdBuf)
    (hnodup : (cmds.map Prod.fst).Nodup) (found : Bool) (h : Mirrors s a)
    (hstreq : ∀ cmd ∈ cmds, streq s.cmdBuf cmd.1 = true ↔ cmd.1 = name) :
    Mirrors (Dinv.runCommands env cmds (found, s)).2 (if name ∈ cmds.map Prod.fst then a.run env name else a) := by
  induction cmds generalizing s a found with
  | nil => exact h
  | cons cmd cmds ih =>
    obtain ⟨lit, fn⟩ := cmd
    rw [List.map_cons, List.nodup_cons] at hnodup
    have htail : ∀ cmd ∈ cmds, ∀ s a, Mirrors s a →
        Mirrors (cmd.2 env s) (a.run env cmd.1) ∧ (cmd.2 env s).cmdBuf = s.cmdBuf :=
      fun cmd hcmd => hcmds cmd (List.mem_cons_of_mem _ hcmd)
    simp only [Dinv.runCommands, List.map_cons, List.mem_cons]
    by_cases hname : lit = name
    · -- the other names differ, so this command is the only one that runs
      obtain ⟨hrun, hbuf⟩ := hcmds _ List.mem_cons_self s a h
      rw [if_pos ((hstreq _ List.mem_cons_self).mpr hname), if_pos (.inl hname.symm)]
      have hrest := ih htail hnodup.2 true hrun fun cmd hcmd => by
        rw [hbuf]
        exact hstreq cmd (List.mem_cons_of_mem _ hcmd)
      rw [if_neg (hname ▸ hnodup.1)] at hrest
      rw [← hname]
      exact hrest
    · rw [if_neg (fun heq => hname ((hstreq _ List.mem_cons_self).mp heq))]
      have hrest := ih htail hnodup.2 found h fun cmd hcmd => hstreq cmd (List.mem_cons_of_mem _ hcmd)
      have hiff : (name = lit ∨ name ∈ cmds.map Prod.fst) ↔ name ∈ cmds.map Prod.fst := by
        constructor
        · exact fun hor => hor.resolve_left (Ne.symm hname)
        · exact .inr
      rw [if_congr hiff rfl rfl]
      exact hrest

theorem Mirrors.name_chars (h : Mirrors s a) :
    ∀ i ≤ (a.line.takeWhile (· ≠ 0)).length,
      Function.update s.cmdBuf s.cmdLen 0 i = cstr (a.line.takeWhile (· ≠ 0)) i := by
  have hlen := h.cmdLen
  have hbuf := h.cmdBuf
  have hsplit := a.line.takeWhile_append_dropWhile (p := (· ≠ 0))
  generalize a.line.takeWhile (· ≠ 0) = name at hsplit
  intro i hi
  obtain hlt | rfl := Nat.lt_or_eq_of_le hi
  · have hline : a.line[i]? = some name[i] := by
      rw [← hsplit, List.getElem?_append_left hlt, List.getElem?_eq_getElem hlt]
    have hi' := (List.getElem?_eq_some_iff.mp hline).1
    rw [Function.update_of_ne (by omega), hbuf i _ hline, cstr, List.getD_eq_getElem _ _ hlt]
  · rw [cstr, List.getD_eq_default _ _ le_rfl]
    cases hrest : a.line.dropWhile (· ≠ 0) with
    | nil =>
      rw [hrest, List.append_nil] at hsplit
      rw [hlen, hsplit, Function.update_self]
    | cons x rest =>
      have hx : x = 0 := by
        have hhead := List.head?_dropWhile_not (· ≠ (0 : UInt8)) a.line
        rw [hrest] at hhead
        simpa using hhead
      rw [hrest, hx] at hsplit
      have hline : a.line[name.length]? = some 0 := by
        rw [← hsplit, List.getElem?_append_right le_rfl, Nat.sub_self]
        rfl
      have hi' := (List.getElem?_eq_some_iff.mp hline).1
      rw [Function.update_of_ne (by omega), hbuf _ _ hline]

theorem Mirrors.runCommands (h : Mirrors s a) (env : SaveEnv) :
    Mirrors (Dinv.runCommands env Dinv.cmds (false, { s with cmdBuf := Function.update s.cmdBuf s.cmdLen 0 })).2
      (a.run env (a.line.takeWhile (· ≠ 0))) := by
  have hterminated : Mirrors { s with cmdBuf := Function.update s.cmdBuf s.cmdLen 0 } a := by
    refine ⟨h.holds, h.cmdLen, h.short, fun i x hx => ?_, h.saves⟩
    have hlt := (List.getElem?_eq_some_iff.mp hx).1
    have hlen := h.cmdLen
    change Function.update s.cmdBuf s.cmdLen 0 i = x
    rw [Function.update_of_ne (by omega)]
    exact h.cmdBuf i x hx
  have hname : ∀ c ∈ a.line.takeWhile (· ≠ 0), c ≠ 0 := by
    intro c hc
    simpa using List.mem_takeWhile_imp hc
  have hliterals : ∀ cmd ∈ Dinv.cmds, ∀ c ∈ cmd.1, c ≠ 0 := by
    simp [Dinv.cmds]
  have hrun := runCommands_mirrors env (cmds_mirror env) (by decide) false hterminated
    fun cmd hcmd => streq_iff h.name_chars hname (hliterals cmd hcmd)
  have hsaves : Session.saveNames ⊆ Dinv.cmds.map Prod.fst := by decide
  split_ifs at hrun with hfound
  · exact hrun
  · rw [Session.run, if_neg (fun hmem => hfound (hsaves hmem))]
    exact hrun

theorem Mirrors.handleCommand (h : Mirrors s a) (env : SaveEnv) (c : UInt8) :
    Mirrors (s.handleCommand env c) (a.commandKey env c) := by
  have hmode : Mirrors { s with mode := .command } a := h.edit h.holds rfl rfl rfl
  rw [Dinv.handleCommand, Session.commandKey]
  by_cases hhigh : 0x80 ≤ c
  · rw [if_pos hhigh, if_pos hhigh]
    exact hmode
  rw [if_neg hhigh, if_neg hhigh]
  by_cases hesc : c = keyEsc
  · rw [if_pos hesc, if_pos hesc]
    exact h.clearLine h.holds rfl rfl
  rw [if_neg hesc, if_neg hesc]
  by_cases hback : c = keyBackspace
  · rw [if_pos hback, if_pos hback]
    exact h.eraseCommand
  rw [if_neg hback, if_neg hback]
  by_cases hnewline : c = newline
  · rw [if_pos hnewline, if_pos hnewline]
    have hrun := hmode.runCommands env
    dsimp only at hrun ⊢
    generalize Dinv.runCommands env Dinv.cmds _ = result at hrun
    split_ifs
    · exact hrun.clearLine hrun.holds rfl rfl
    · exact hrun.clearLine hrun.holds rfl rfl
  rw [if_neg hnewline, if_neg hnewline]
  have hlen := h.cmdLen
  by_cases hroom : a.line.length < cmdBufSize - 1
  · rw [if_pos hroom, if_pos (hlen ▸ hroom)]
    exact h.typeCommand c hroom
  · rw [if_neg hroom, if_neg (hlen ▸ hroom)]
    exact hmode

theorem Mirrors.handle (h : Mirrors s a) (env : SaveEnv) (handler : Mode) (c : UInt8) :
    Mirrors (s.handle env handler c) (a.handle env handler c) := by
  cases handler with
  | normal => exact h.handleNormal c
  | insert => exact h.handleInsert c
  | command => exact h.handleCommand env c

/-! ### Opening a file -/

theorem Dinv.start_mirrors (s : Dinv) : Mirrors s.start (Session.opened [] s.saves) where
  holds := by
    rw [Session.opened, Holds.cut_iff]
    exact ⟨rfl, rfl, Nat.zero_le _, fun _ _ hx => by simp at hx, fun _ _ hx => by simp at hx⟩
  cmdLen := rfl
  short := show 0 < 64 by decide
  cmdBuf := fun _ _ hx => by simp [Session.opened] at hx
  saves := rfl

section Load

variable {saves : List (UInt32 × UInt32 × List UInt8)}

theorem loadBytes_mirrors {bytes read : List UInt8} (h : Mirrors s (Session.opened read saves))
    (hroom : read.length + bytes.length ≤ textCap) :
    Mirrors (Dinv.loadBytes bytes s) (Session.opened (read ++ bytes) saves) := by
  induction bytes generalizing s read with
  | nil =>
    rw [List.append_nil]
    exact h
  | cons b bytes ih =>
    rw [List.length_cons] at hroom
    have hgap : s.gapStart ≠ s.gapEnd := by
      rw [Ne, h.holds.gap_eq_iff, Session.opened, Doc.text_cut, List.append_nil]
      omega
    have hnext := h.holds.insert hgap b
    rw [Session.opened, Doc.insert_cut] at hnext
    rw [Dinv.loadBytes, List.append_cons]
    refine ih (h.edit hnext rfl rfl rfl) ?_
    rw [List.length_append, List.length_singleton]
    omega

theorem loadChunks_mirrors {file : List UInt8} (hfile : file.length ≤ textCap) {fuel n : Nat}
    (h : Mirrors s (Session.opened (file.take (blockSize * n)) saves)) (hfuel : file.length ≤ blockSize * (n + fuel)) :
    ∃ s', Dinv.loadChunks (Dinv.chunkOf file) (fuel + 1) n s = some s' ∧ Mirrors s' (Session.opened file saves) := by
  induction fuel generalizing s n with
  | zero =>
    rw [Nat.add_zero] at hfuel
    refine ⟨s, ?_, ?_⟩
    · rw [Dinv.loadChunks, Dinv.chunkOf, List.drop_eq_nil_of_le hfuel]
      rfl
    · rw [List.take_of_length_le hfuel] at h
      exact h
  | succ fuel ih =>
    rw [Dinv.loadChunks, Dinv.chunkOf]
    cases hchunk : (file.drop (blockSize * n)).take blockSize with
    | nil =>
      have hdone : file.length ≤ blockSize * n := by
        have hlength := congrArg List.length hchunk
        rw [List.length_take, List.length_drop, List.length_nil, blockSize] at hlength
        rw [blockSize]
        omega
      rw [List.take_of_length_le hdone] at h
      exact ⟨s, rfl, h⟩
    | cons b bytes =>
      have hnext : file.take (blockSize * (n + 1)) = file.take (blockSize * n) ++ b :: bytes := by
        rw [Nat.mul_succ, List.take_add, hchunk]
      have hroom : (file.take (blockSize * n)).length + (b :: bytes).length ≤ textCap := by
        rw [← List.length_append, ← hnext]
        exact (List.length_take_le' _ _).trans hfile
      refine ih (n := n + 1) ?_ (by rwa [Nat.add_right_comm, Nat.add_assoc])
      rw [hnext]
      exact loadBytes_mirrors h hroom

theorem openFile_mirrors (s : Dinv) {file : List UInt8} (hfile : file.length < textCap) :
    ∃ s', s.openFile file = some s' ∧ Mirrors s' (Session.opened file s.saves) := by
  rw [Dinv.openFile, if_neg (Nat.not_le_of_lt hfile)]
  apply loadChunks_mirrors hfile.le
  · exact s.start_mirrors
  · exact hfile.le

end Load

/-! ### Sequences of keys -/

/-- A key, the handler it goes to, and what the system calls return if it makes the editor save. -/
structure KeyEvent where
  env : SaveEnv
  handler : Mode
  key : UInt8

def Dinv.keys (s : Dinv) (events : List KeyEvent) : Dinv :=
  events.foldl (fun s e => s.handle e.env e.handler e.key) s

def Session.keys (a : Session) (events : List KeyEvent) : Session :=
  events.foldl (fun a e => a.handle e.env e.handler e.key) a

theorem Mirrors.keys (h : Mirrors s a) (events : List KeyEvent) : Mirrors (s.keys events) (a.keys events) := by
  induction events generalizing s a with
  | nil => exact h
  | cons e events ih => exact ih (h.handle e.env e.handler e.key)

/-- Whatever the editor was used for before, it opens every file that is short enough, and after any keys its buffer
holds the text and the cursor that the keys make of the file, and it has saved what the session says. -/
theorem dinv_edits_text (s : Dinv) (file : List UInt8) (hfile : file.length < textCap) (events : List KeyEvent) :
    ∃ s₀, s.openFile file = some s₀ ∧
      (s₀.keys events).gapStart ≤ (s₀.keys events).gapEnd ∧ (s₀.keys events).gapEnd ≤ textCap ∧
      (List.range (s₀.keys events).gapStart).map (s₀.keys events).text ++
          (List.range (textCap - (s₀.keys events).gapEnd)).map
            (fun k => (s₀.keys events).text ((s₀.keys events).gapEnd + k)) =
        ((Session.opened file s.saves).keys events).doc.text ∧
      (s₀.keys events).gapStart = ((Session.opened file s.saves).keys events).doc.cursor ∧
      (s₀.keys events).saves = ((Session.opened file s.saves).keys events).saves := by
  obtain ⟨s₀, hopen, hmirrors⟩ := openFile_mirrors s hfile
  have h := hmirrors.keys events
  have hstop := h.holds.stop_eq
  exact ⟨s₀, hopen, Rep.le h.holds, by omega, h.holds.text_eq, h.holds.start_eq, h.saves⟩

def blankDinv : Dinv where
  mode := .normal
  running := false
  scrollback := true
  text := zero
  gapStart := 0
  gapEnd := 0
  cmdBuf := zero
  cmdLen := 0
  replacementStatus := .none
  complaint := zero
  complaining := false
  complaintExpiry := 0
  calls := []

def insertAndSave : List KeyEvent :=
  let env : SaveEnv := ⟨some (0, 12), some (0, 12), true, 0⟩
  [⟨env, .normal, 104⟩, ⟨env, .normal, 105⟩, ⟨env, .insert, 120⟩, ⟨env, .insert, 27⟩, ⟨env, .normal, 58⟩,
   ⟨env, .command, 119⟩, ⟨env, .command, 10⟩]

theorem dinv_edits_text_insertAndSave :
    ∃ s₀, blankDinv.openFile [104, 105] = some s₀ ∧ (s₀.keys insertAndSave).gapStart = 3 ∧
      (s₀.keys insertAndSave).saves = [(0, 12, [104, 120, 105])] := by
  obtain ⟨s₀, hopen, -, -, -, hcursor, hsaves⟩ :=
    dinv_edits_text blankDinv [104, 105] (by decide) insertAndSave
  refine ⟨s₀, hopen, ?_, ?_⟩
  · rw [hcursor]
    decide
  · rw [hsaves]
    decide

end DeprecatOS
