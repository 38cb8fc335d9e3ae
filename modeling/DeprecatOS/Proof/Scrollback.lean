import DeprecatOS.Proof.Framebuffer
import DeprecatOS.Lib.Ring

/-!
# Scrolling back

The lines that were scrolled out are kept in a ring of 256 lines. Whatever the driver is told to do, the ring holds the
last of them in their order, and while old lines are viewed the screen shows the kept lines and, below them, the lines
of `shadow`.
-/

namespace DeprecatOS

open Sweep

namespace Fb

variable {font : Nat → UInt8} {size : Nat × Nat} {s s' : Fb} {r c : Nat}

abbrev Line := List FBChar

def historyLine (s : Fb) (slot : Nat) : Line := (List.range s.cols).map fun c => s.history (slot * s.cols + c)

def kept (s : Fb) : List Line := Ring.contents historyLines s.historyLine (s.head + historyLines - s.count) s.count

def shadowLine (s : Fb) (r : Nat) : Line := (List.range s.cols).map fun c => s.shadow (s.index r c)

def shadowLines (s : Fb) : List Line := (List.range s.rows).map s.shadowLine

def rowOut (s : Fb) : List Line := if s.row + 1 < s.rows then [] else [s.shadowLine 0]

def charOut (font : Nat → UInt8) (s : Fb) (c color : UInt8) : List Line :=
  let s := s.leaveView font
  if c ≠ charBackspace ∧ c ≠ charNewline then
    let s := s.drawChar font c color
    if s.col + 1 < s.cols then [] else s.rowOut
  else if c ≠ charNewline then []
  else s.rowOut

def scrolledOut (font : Nat → UInt8) (s : Fb) : Call → List Line
  | .drawCharUpd c color => s.charOut font c color
  | .drawCharNoUpd c color => s.charOut font c color
  | _ => []

def record (font : Nat → UInt8) (w : Fb × List Line) (call : Call) : Fb × List Line :=
  (w.1.exec font call, w.2 ++ w.1.scrolledOut font call)

/-! ### What leaves the ring alone -/

structure Keeps (s s' : Fb) : Prop where
  history : s'.history = s.history
  head : s'.head = s.head
  count : s'.count = s.count
  cols : s'.cols = s.cols
  rows : s'.rows = s.rows

theorem Keeps.refl (s : Fb) : Keeps s s := ⟨rfl, rfl, rfl, rfl, rfl⟩

theorem Keeps.trans {s'' : Fb} (hfirst : Keeps s s') (hsecond : Keeps s' s'') : Keeps s s'' :=
  ⟨hsecond.history.trans hfirst.history, hsecond.head.trans hfirst.head, hsecond.count.trans hfirst.count,
    hsecond.cols.trans hfirst.cols, hsecond.rows.trans hfirst.rows⟩

theorem Keeps.foldl {step : Fb → Nat × Nat → Fb} (hstep : ∀ s x, Keeps s (step s x)) (l : List (Nat × Nat)) (s : Fb) :
    Keeps s (l.foldl step s) := by
  induction l generalizing s with
  | nil => exact .refl s
  | cons x l ih => exact (hstep s x).trans (ih _)

theorem Keeps.kept (hkeeps : Keeps s s') : s'.kept = s.kept := by
  have hlines : s'.historyLine = s.historyLine := by
    funext slot
    rw [historyLine, historyLine, hkeeps.cols, hkeeps.history]
  rw [Fb.kept, Fb.kept, hlines, hkeeps.head, hkeeps.count]

section Keeps

variable (font) (s)

theorem keeps_blitGlyph (r c : Nat) (ch color : UInt8) : Keeps s (s.blitGlyph font r c ch color) := by
  rw [blitGlyph]
  split_ifs
  · exact .refl s
  · exact ⟨rfl, rfl, rfl, rfl, rfl⟩

theorem keeps_drawCursor : Keeps s (s.drawCursor font) := by
  rw [drawCursor]
  split_ifs
  · exact ⟨rfl, rfl, rfl, rfl, rfl⟩
  · exact ⟨rfl, rfl, rfl, rfl, rfl⟩

theorem keeps_drawCharForced (ch color : UInt8) : Keeps s (s.drawCharForced font ch color) := by
  rw [drawCharForced]
  split_ifs
  · exact .refl s
  · exact { keeps_blitGlyph font s s.row s.col ch color with }

theorem keeps_drawChar (ch color : UInt8) : Keeps s (s.drawChar font ch color) := by
  rw [drawChar]
  split_ifs
  · exact .refl s
  · exact keeps_drawCharForced font s ch color

theorem keeps_delCursor : Keeps s (s.delCursor font) :=
  { keeps_drawCharForced font { s with col := s.cursorCol, row := s.cursorRow }
      (s.shadow (s.index s.cursorRow s.cursorCol)).c (s.shadow (s.index s.cursorRow s.cursorCol)).color with }

theorem keeps_snapToLive : Keeps s (s.snapToLive font) :=
  (Keeps.foldl (fun s x => keeps_blitGlyph font s x.1 x.2 _ _) _ s).trans (keeps_drawCursor font _)

theorem keeps_viewRepaint : Keeps s (s.viewRepaint font) :=
  Keeps.foldl (fun s x => keeps_blitGlyph font s x.1 x.2 _ _) _ s

theorem keeps_leaveView : Keeps s (s.leaveView font) := by
  rw [leaveView]
  split_ifs
  · exact { keeps_snapToLive font { s with viewOffset := 0 } with }
  · exact .refl s

theorem keeps_fbClearScreen : Keeps s (s.fbClearScreen font) := by
  have hstep : ∀ (s : Fb) (x : Nat × Nat),
      Keeps s ({ s with row := x.1, col := x.2 }.drawChar font FBChar.blank.c FBChar.blank.color) := fun s x =>
    { keeps_drawChar font { s with row := x.1, col := x.2 } FBChar.blank.c FBChar.blank.color with }
  have hloop := Keeps.foldl hstep (cells 0 (s.leaveView font).rows (s.leaveView font).cols) (s.leaveView font)
  rw [fbClearScreen]
  refine (keeps_leaveView font s).trans (hloop.trans ?_)
  dsimp only
  generalize List.foldl _ _ _ = cleared
  exact { (keeps_delCursor font { cleared with row := 0, col := 0 }).trans (keeps_drawCursor font _) with }

theorem keeps_fbScrollback (delta : Int) : Keeps s (s.fbScrollback font delta) := by
  obtain heq | ⟨off, -, ⟨-, heq⟩ | ⟨-, heq⟩⟩ := fbScrollback_cases font s delta
  · rw [heq]
    exact .refl s
  · rw [heq]
    exact { keeps_snapToLive font { s with viewOffset := off } with }
  · rw [heq]
    exact { keeps_viewRepaint font { s with viewOffset := off } with }

theorem keeps_fbSetCursorNoUpd (inRow inCol : UInt32) : Keeps s (s.fbSetCursorNoUpd font inRow inCol).2 := by
  refine (keeps_leaveView font s).trans ?_
  rw [fbSetCursorNoUpd]
  split_ifs
  · exact .refl _
  · exact ⟨rfl, rfl, rfl, rfl, rfl⟩

theorem keeps_fbSetCursor (inRow inCol : UInt32) : Keeps s (s.fbSetCursor font inRow inCol).2 := by
  refine (keeps_leaveView font s).trans ?_
  rw [fbSetCursor]
  generalize s.leaveView font = live
  dsimp only
  split_ifs
  · exact .refl _
  · exact { (keeps_delCursor font { live with row := inRow.toNat, col := inCol.toNat }).trans (keeps_drawCursor font _) with }

theorem shadow_delCursor : (s.delCursor font).shadow = s.shadow := by
  obtain ⟨cell, hcell⟩ : ∃ cell, cell = s.shadow (s.index s.cursorRow s.cursorCol) := ⟨_, rfl⟩
  have hdel : (s.delCursor font).shadow =
      ({ s with col := s.cursorCol, row := s.cursorRow }.drawCharForced font cell.c cell.color).shadow := by
    rw [hcell]
    rfl
  rw [hdel, drawCharForced]
  split_ifs
  · rfl
  · rw [blitGlyph]
    split_ifs
    change Function.update s.shadow (s.index s.cursorRow s.cursorCol) cell = s.shadow
    rw [hcell, Function.update_eq_self]

end Keeps

/-! ### The lines that were scrolled out -/

theorem historyLine_saveLine {slot : Nat} : s.saveLine.historyLine slot =
    Function.update s.historyLine s.head (s.shadowLine 0) slot := by
  change ((List.range s.cols).map fun c => if s.head * s.cols ≤ slot * s.cols + c ∧
    slot * s.cols + c < s.head * s.cols + s.cols then s.shadow (slot * s.cols + c - s.head * s.cols)
    else s.history (slot * s.cols + c)) = _
  by_cases hslot : slot = s.head
  · subst hslot
    rw [Function.update_self, shadowLine]
    apply List.map_congr_left
    intro c hc
    have hc := List.mem_range.mp hc
    rw [if_pos (by omega), index, Nat.zero_mul, Nat.zero_add, Nat.add_sub_cancel_left]
  · rw [Function.update_of_ne hslot, historyLine]
    apply List.map_congr_left
    intro c hc
    have hc := List.mem_range.mp hc
    refine if_neg fun hrange => hslot ?_
    have hlow : s.head < slot + 1 := Nat.lt_of_mul_lt_mul_right (a := s.cols) (by rw [Nat.succ_mul]; omega)
    have hhigh : slot < s.head + 1 := Nat.lt_of_mul_lt_mul_right (a := s.cols) (by rw [Nat.succ_mul]; omega)
    omega

theorem kept_saveLine (hhead : s.head < historyLines) (hcount : s.count ≤ historyLines) :
    s.saveLine.kept = (s.kept ++ [s.shadowLine 0]).drop (if s.count < historyLines then 0 else 1) := by
  have hlines : s.saveLine.historyLine = Function.update s.historyLine s.head (s.shadowLine 0) :=
    funext fun _ => historyLine_saveLine
  rw [kept, hlines, kept]
  rw [historyLines] at hhead hcount ⊢
  change Ring.contents 256 _ ((s.head + 1) % 256 + 256 - if s.count < 256 then s.count + 1 else s.count)
    (if s.count < 256 then s.count + 1 else s.count) = _
  split_ifs with hroom
  · have hstart : ((s.head + 1) % 256 + 256 - (s.count + 1)) % 256 = (s.head + 256 - s.count) % 256 := by omega
    have hslot : (s.head + 256 - s.count + s.count) % 256 = s.head := by omega
    have hpush : Ring.contents 256 (Function.update s.historyLine ((s.head + 256 - s.count + s.count) % 256)
        (s.shadowLine 0)) (s.head + 256 - s.count) (s.count + 1) = _ := Ring.contents_push hroom
    rw [hslot] at hpush
    rw [← Ring.contents_mod, hstart, Ring.contents_mod, List.drop_zero, hpush]
  · have hfull : s.count = 256 := by omega
    have hstart : ((s.head + 1) % 256 + 256 - 256) % 256 = (s.head + 1) % 256 := by omega
    have hover : Ring.contents 256 (Function.update s.historyLine (s.head % 256) (s.shadowLine 0)) (s.head + 1) 256 = _ :=
      Ring.contents_overwrite (by decide)
    have hne : Ring.contents 256 s.historyLine s.head 256 ≠ [] := by
      rw [← List.length_pos_iff, Ring.length_contents]
      decide
    rw [Nat.mod_eq_of_lt hhead] at hover
    rw [hfull, ← Ring.contents_mod, hstart, Ring.contents_mod, hover, Nat.add_sub_cancel, List.drop_one,
      List.tail_append_of_ne_nil hne]

structure Keeping (s : Fb) (out : List Line) : Prop where
  count : s.count = min historyLines out.length
  head : s.head = out.length % historyLines
  kept : s.kept = out.drop (out.length - historyLines)
  color : ∀ line ∈ out, ∀ cell ∈ line, cell.color < paletteSize

section Keeping

variable {out : List Line} (hkeeping : Keeping s out)

include hkeeping

theorem Keeping.keeps (hkeeps : Keeps s s') : Keeping s' out :=
  ⟨hkeeps.count.trans hkeeping.count, hkeeps.head.trans hkeeping.head, hkeeps.kept.trans hkeeping.kept, hkeeping.color⟩

theorem Keeping.saveLine (hcolor : ∀ cell ∈ s.shadowLine 0, cell.color < paletteSize) :
    Keeping s.saveLine (out ++ [s.shadowLine 0]) := by
  have hcount := hkeeping.count
  have hhead := hkeeping.head
  have hkept := kept_saveLine (s := s) (by rw [hhead]; exact Nat.mod_lt _ (by decide)) (by rw [hcount]; exact min_le_left _ _)
  rw [historyLines] at hcount hhead
  refine ⟨?_, ?_, ?_, fun line hline => ?_⟩
  · rw [List.length_append, List.length_singleton, historyLines]
    change (if s.count < 256 then s.count + 1 else s.count) = _
    split_ifs <;> omega
  · rw [List.length_append, List.length_singleton, historyLines]
    change (s.head + 1) % 256 = _
    rw [hhead, Nat.mod_add_mod]
  · rw [hkept, hkeeping.kept, List.length_append, List.length_singleton, historyLines]
    by_cases hroom : s.count < 256
    · have hshort : out.length < 256 := by omega
      rw [if_pos hroom, Nat.sub_eq_zero_of_le hshort.le, Nat.sub_eq_zero_of_le hshort]
      rfl
    · have hlong : 256 ≤ out.length := by omega
      rw [if_neg hroom, ← List.drop_append_of_le_length (Nat.sub_le _ _), List.drop_drop,
        show out.length - 256 + 1 = out.length + 1 - 256 by omega]
  · rcases List.mem_append.mp hline with hold | hnew
    · exact hkeeping.color line hold
    · rw [List.mem_singleton.mp hnew]
      exact hcolor

omit hkeeping in
theorem Ok.color_shadowLine (hok : Ok size s) : ∀ cell ∈ s.shadowLine 0, cell.color < paletteSize := by
  intro cell hcell
  obtain ⟨c, hc, rfl⟩ := List.mem_map.mp hcell
  exact hok.color 0 c ⟨hok.rows_pos, List.mem_range.mp hc⟩

theorem Keeping.scroll (hlive : Live font size s) : Keeping (s.scroll font) (out ++ [s.shadowLine 0]) := by
  have hdel := keeps_delCursor font s
  have hline : (s.delCursor font).shadowLine 0 = s.shadowLine 0 := by
    simp only [shadowLine, index, shadow_delCursor, hdel.cols]
  have hsaved := (hkeeping.keeps hdel).saveLine hlive.delCursor.1.ok.color_shadowLine
  rw [hline] at hsaved
  rw [Fb.scroll]
  refine hsaved.keeps (Keeps.trans ?_ (keeps_drawCursor font _))
  exact ⟨rfl, rfl, rfl, rfl, rfl⟩

theorem Keeping.updRow (hlive : Live font size s) : Keeping (s.updRow font) (out ++ s.rowOut) := by
  rw [Fb.updRow, rowOut]
  split_ifs with hrow
  · rw [List.append_nil]
    exact hkeeping.keeps ⟨rfl, rfl, rfl, rfl, rfl⟩
  · have hmoved : Keeping { s with row := s.row + 1 } out := hkeeping.keeps ⟨rfl, rfl, rfl, rfl, rfl⟩
    exact hmoved.scroll (hlive.moveTo (s.row + 1) s.col)

theorem Keeping.updCol (hlive : Live font size s) :
    Keeping (s.updCol font) (out ++ if s.col + 1 < s.cols then [] else s.rowOut) := by
  rw [Fb.updCol]
  split_ifs with hcol
  · rw [List.append_nil]
    exact hkeeping.keeps ⟨rfl, rfl, rfl, rfl, rfl⟩
  · have hmoved : Keeping { s with col := 0 } out := hkeeping.keeps ⟨rfl, rfl, rfl, rfl, rfl⟩
    exact hmoved.updRow (hlive.moveTo s.row 0)

theorem Keeping.fbDrawCharNoUpd (hinv : Inv font size s) (ch color : UInt8) :
    Keeping (s.fbDrawCharNoUpd font ch color) (out ++ s.charOut font ch color) := by
  obtain ⟨hlive, hplaced⟩ := hinv.leaveView
  have hleft := hkeeping.keeps (keeps_leaveView font s)
  rw [Fb.fbDrawCharNoUpd, charOut]
  generalize s.leaveView font = s' at hlive hplaced hleft
  dsimp only
  by_cases hchar : ch ≠ charBackspace ∧ ch ≠ charNewline
  · rw [if_pos hchar, if_pos hchar]
    exact (hleft.keeps (keeps_drawChar font s' ch color)).updCol (hlive.drawChar hplaced ch color).1
  rw [if_neg hchar, if_neg hchar]
  by_cases hback : ch ≠ charNewline
  · rw [if_pos hback, if_pos hback, List.append_nil]
    split_ifs
    · exact hleft.keeps { keeps_drawChar font { s' with col := s'.col - 1 } charSpace 0 with }
    · exact hleft
  · rw [if_neg hback, if_neg hback]
    exact (hleft.updRow hlive).keeps ⟨rfl, rfl, rfl, rfl, rfl⟩

theorem Keeping.exec (hinv : Inv font size s) (call : Call) :
    Keeping (s.exec font call) (out ++ s.scrolledOut font call) := by
  have hquiet : ∀ {s'}, Keeps s s' → Keeping s' (out ++ []) := by
    intro s' hkeeps
    rw [List.append_nil]
    exact hkeeping.keeps hkeeps
  cases call with
  | drawCharUpd ch color =>
    have hdrawn := hkeeping.fbDrawCharNoUpd hinv ch color
    exact hdrawn.keeps ((keeps_delCursor font _).trans (keeps_drawCursor font _))
  | drawCharNoUpd ch color => exact hkeeping.fbDrawCharNoUpd hinv ch color
  | setCursor inRow inCol => exact hquiet (keeps_fbSetCursor font s inRow inCol)
  | setCursorNoUpd inRow inCol => exact hquiet (keeps_fbSetCursorNoUpd font s inRow inCol)
  | clearScreen => exact hquiet (keeps_fbClearScreen font s)
  | scrollback delta => exact hquiet (keeps_fbScrollback font s delta)
  | setScrollback b => exact hquiet ⟨rfl, rfl, rfl, rfl, rfl⟩

end Keeping

/-! ### The view -/

def ShowsLine (font : Nat → UInt8) (s : Fb) (lines : List Line) (r k : Nat) : Prop :=
  ∀ c < s.cols, ∃ row cell, lines[k]? = some row ∧ row[c]? = some cell ∧
    ∀ i < glyphHeight, ∀ b < glyphWidth, s.cellPixel r c i b = glyphPixel font cell i b

def Views (font : Nat → UInt8) (s : Fb) (r c : Nat) : Prop :=
  ∀ i < glyphHeight, ∀ b < glyphWidth, s.cellPixel r c i b = glyphPixel font (s.viewCell r c) i b

theorem viewCell_line (hring : RingOk s) (hcell : s.OnScreen r c) :
    ∃ row, (s.kept ++ s.shadowLines)[(s.count + r - s.viewOffset).toNat]? = some row ∧ row[c]? = some (s.viewCell r c) := by
  obtain ⟨hlow, hhigh⟩ := hring.view
  obtain ⟨view, hview⟩ := Int.eq_ofNat_of_zero_le hlow
  have hlength : s.kept.length = s.count := Ring.length_contents
  have hlogical : ((s.count : Int) + r - s.viewOffset).toNat = s.count + r - view := by omega
  have hcount := hring.count_le
  have hhead := hring.head_lt
  rw [historyLines] at hcount hhead
  rw [hlogical, viewCell]
  by_cases hold : s.count + r - view < s.count
  · refine ⟨s.historyLine ((s.head + 256 - s.count + (s.count + r - view)) % 256), ?_, ?_⟩
    · rw [List.getElem?_append_left (by rwa [hlength]), kept, Ring.contents, List.getElem?_map,
        List.getElem?_range hold]
      rfl
    · have hslot : (((s.head : Int) - s.count + (s.count + r - s.viewOffset) + (historyLines : Nat)) % (historyLines : Nat)).toNat =
          (s.head + 256 - s.count + (s.count + r - view)) % 256 := by
        rw [historyLines]
        omega
      rw [if_pos (by omega), hslot, historyLine, List.getElem?_map, List.getElem?_range hcell.2]
      rfl
  · have hrow : s.count + r - view - s.count < s.rows := by
      have := hcell.1
      omega
    refine ⟨s.shadowLine (s.count + r - view - s.count), ?_, ?_⟩
    · rw [List.getElem?_append_right (by rw [hlength]; omega), hlength, shadowLines, List.getElem?_map,
        List.getElem?_range hrow]
      rfl
    · have hshadow : ((s.count : Int) + r - s.viewOffset - s.count).toNat = s.count + r - view - s.count := by omega
      rw [if_neg (by omega), hshadow, shadowLine, List.getElem?_map, List.getElem?_range hcell.2]
      rfl

theorem viewCell_color (hok : Ok size s) (hring : RingOk s) {out : List Line} (hkeeping : Keeping s out)
    (hcell : s.OnScreen r c) : (s.viewCell r c).color < paletteSize := by
  obtain ⟨line, hline, hmem⟩ := viewCell_line hring hcell
  have hmem := List.mem_of_getElem? hmem
  rcases List.mem_append.mp (List.mem_of_getElem? hline) with hold | hnew
  · rw [hkeeping.kept] at hold
    exact hkeeping.color line (List.mem_of_mem_drop hold) _ hmem
  · obtain ⟨r', hr', rfl⟩ := List.mem_map.mp hnew
    obtain ⟨c', hc', heq⟩ := List.mem_map.mp hmem
    rw [← heq]
    exact hok.color r' c' ⟨List.mem_range.mp hr', List.mem_range.mp hc'⟩

theorem blitGlyph_views (hcolor : (s.viewCell r c).color < paletteSize) :
    Views font (s.blitGlyph font r c (s.viewCell r c).c (s.viewCell r c).color) r c := by
  intro i hi b hb
  rw [blitGlyph, if_neg (UInt8.not_le.mpr hcolor), cellPixel_paintCell _ hi hb, if_pos ⟨rfl, rfl⟩]
  rfl

theorem Views.blitGlyph {r' c' : Nat} {ch color : UInt8} (h : Views font s r' c') (hne : ¬ (r' = r ∧ c' = c)) :
    Views font (s.blitGlyph font r c ch color) r' c' := by
  rw [Fb.blitGlyph]
  split_ifs
  · exact h
  · intro i hi b hb
    rw [cellPixel_paintCell _ hi hb, if_neg hne]
    exact h i hi b hb

theorem viewRepaint_views (hcolor : ∀ r c, s.OnScreen r c → (s.viewCell r c).color < paletteSize)
    (hcell : s.OnScreen r c) : Views font (s.viewRepaint font) r c := by
  rw [viewRepaint]
  obtain ⟨-, hviews⟩ := foldl_reaches
    (fun s' x => s'.blitGlyph font x.1 x.2 (s'.viewCell x.1 x.2).c (s'.viewCell x.1 x.2).color)
    (fun s' => ∃ pixels, s' = { s with pixels := pixels }) (fun x s' => Views font s' x.1 x.2)
    (l := cells 0 s.rows s.cols) (s := s) ⟨s.pixels, rfl⟩
    (by
      rintro s' ⟨pixels, rfl⟩ x hx
      exact ⟨blitGlyph_eq _ _ _ _ _, blitGlyph_views (hcolor x.1 x.2 (s.onScreen_of_mem hx))⟩)
    (by
      rintro s' ⟨pixels, rfl⟩ x hx y - hy
      by_cases hsame : y.1 = x.1 ∧ y.2 = x.2
      · rw [hsame.1, hsame.2]
        exact blitGlyph_views (hcolor x.1 x.2 (s.onScreen_of_mem hx))
      · exact hy.blitGlyph hsame)
  exact hviews (r, c) (s.mem_cells_of_onScreen hcell)

/-! ### Runs -/

structure Recorded (font : Nat → UInt8) (size : Nat × Nat) (w : Fb × List Line) : Prop where
  inv : Inv font size w.1
  keeping : Keeping w.1 w.2
  views : 0 < w.1.viewOffset → ∀ r c, w.1.OnScreen r c → Views font w.1 r c

theorem Recorded.fbScrollback {w : Fb × List Line} (h : Recorded font size w) (delta : Int)
    (hview : 0 < (w.1.fbScrollback font delta).viewOffset) (hcell : (w.1.fbScrollback font delta).OnScreen r c) :
    Views font (w.1.fbScrollback font delta) r c := by
  obtain heq | ⟨off, hrange, ⟨hlive, heq⟩ | ⟨-, heq⟩⟩ := fbScrollback_cases font w.1 delta
  · rw [heq] at hview hcell ⊢
    exact h.views hview r c hcell
  · have hok : Ok size { w.1 with viewOffset := off } := { h.inv.ok with }
    have hring : RingOk { w.1 with viewOffset := off } := ⟨h.inv.ring.head_lt, h.inv.ring.count_le, hrange⟩
    rw [heq, (snapToLive_spec hok hring hlive h.inv.placed).1.view] at hview
    exact absurd hview (Int.lt_irrefl 0)
  · have hok : Ok size { w.1 with viewOffset := off } := { h.inv.ok with }
    have hring : RingOk { w.1 with viewOffset := off } := ⟨h.inv.ring.head_lt, h.inv.ring.count_le, hrange⟩
    have hkeeping : Keeping { w.1 with viewOffset := off } w.2 := h.keeping.keeps ⟨rfl, rfl, rfl, rfl, rfl⟩
    have hkeeps := keeps_viewRepaint font { w.1 with viewOffset := off }
    rw [heq] at hcell ⊢
    have hcell : OnScreen { w.1 with viewOffset := off } r c := ⟨hkeeps.rows ▸ hcell.1, hkeeps.cols ▸ hcell.2⟩
    exact viewRepaint_views (fun r c hcell => viewCell_color hok hring hkeeping hcell) hcell

theorem Recorded.record {w : Fb × List Line} (h : Recorded font size w) (call : Call) :
    Recorded font size (record font w call) := by
  refine ⟨h.inv.exec call, h.keeping.exec h.inv call, fun hview r c hcell => ?_⟩
  by_cases houtput : call.Output
  · -- the live screen is shown
    have hzero := (h.inv.output houtput).1.view
    rw [Fb.record, hzero] at hview
    exact absurd hview (Int.lt_irrefl 0)
  cases call with
  | scrollback delta => exact h.fbScrollback delta hview hcell
  | setScrollback b => exact h.views hview r c hcell
  | _ => exact absurd trivial houtput

theorem foldl_record_fst (calls : List Call) (w : Fb × List Line) :
    (calls.foldl (record font) w).1 = calls.foldl (exec font) w.1 := by
  induction calls generalizing w with
  | nil => rfl
  | cons call calls ih => exact ih (record font w call)

theorem recorded_fbInit (s : Fb) (screen : Screen) :
    Recorded font (screen.height / glyphHeight, screen.width / glyphWidth) (s.fbInit screen, []) := by
  have hcount : (s.fbInit screen).count = 0 := rfl
  refine ⟨fbInit_inv s screen, ⟨?_, ?_, ?_, ?_⟩, fun hview => absurd hview (Int.lt_irrefl 0)⟩
  · rw [hcount, List.length_nil, Nat.min_zero]
  · rw [List.length_nil, Nat.zero_mod]
    rfl
  · rw [kept, hcount, Ring.contents_zero, List.drop_nil]
  · exact fun _ hline => absurd hline List.not_mem_nil

/-- After any calls on any screen, the ring has the last of the lines that were scrolled out, up to 256. While old lines
are viewed, the rows of the screen show these lines and those of `shadow`, from the line on that is `view_offset` lines
above the first one of `shadow`. -/
theorem scrollback_shows_transcript (font : Nat → UInt8) (s : Fb) (screen : Screen) (calls : List Call) :
    let w := calls.foldl (record font) (s.fbInit screen, [])
    let kept := w.2.drop (w.2.length - historyLines)
    w.1 = calls.foldl (exec font) (s.fbInit screen) ∧
    w.1.count = min historyLines w.2.length ∧ w.1.count = kept.length ∧
    (0 ≤ w.1.viewOffset ∧ w.1.viewOffset ≤ w.1.count) ∧
    (0 < w.1.viewOffset → ∀ r < w.1.rows,
      ShowsLine font w.1 (kept ++ w.1.shadowLines) r (w.1.count + r - w.1.viewOffset).toNat) := by
  intro w kept
  have h : Recorded font (screen.height / glyphHeight, screen.width / glyphWidth) w :=
    List.foldlRecOn (motive := Recorded font (screen.height / glyphHeight, screen.width / glyphWidth)) calls _
      (recorded_fbInit s screen) fun w hw call _ => hw.record call
  have hcount := h.keeping.count
  refine ⟨?_, hcount, ?_, h.inv.ring.view, fun hview r hr c hc => ?_⟩
  · exact foldl_record_fst calls _
  · rw [hcount, List.length_drop, historyLines]
    omega
  · obtain ⟨line, hline, hcell⟩ := viewCell_line h.inv.ring ⟨hr, hc⟩
    rw [h.keeping.kept] at hline
    exact ⟨line, _, hline, hcell, h.views hview r c ⟨hr, hc⟩⟩

end Fb

/-! ### A screen of two rows -/

def noGlyphs : Nat → UInt8 := fun _ => 0

def smallFb : Fb where
  col := 0
  row := 0
  cursorCol := 0
  cursorRow := 0
  cols := 66
  rows := 2
  pixels := fun _ _ => 0
  shadow := fun _ => .blank
  history := fun _ => .blank
  head := 0
  count := 0
  viewOffset := 0
  scrollbackOn := true

def twoRows : Screen where
  width := 16
  height := 32
  pitch := 64
  width_le := by decide
  width_pos := by decide
  height_pos := by decide

/-- `a`, `b` and `c`, each on a line of its own, and then the view moved. -/
def threeLines (deltas : List Int) : Fb :=
  let text : List Fb.Call := [97, 98, 99].flatMap fun c => [.drawCharUpd c 0, .drawCharUpd charNewline 0]
  (text ++ deltas.map Fb.Call.scrollback).foldl (Fb.exec noGlyphs) (smallFb.fbInit twoRows)

example : (threeLines [2]).count = 2 ∧ (threeLines [2]).viewOffset = 2 ∧ ((threeLines [2]).viewCell 0 0).c = 97 ∧
    ((threeLines [2]).viewCell 1 0).c = 98 := by
  decide +kernel

example : (threeLines [2, -1]).viewOffset = 1 ∧ ((threeLines [2, -1]).viewCell 0 0).c = 98 ∧
    ((threeLines [2, -1]).viewCell 1 0).c = 99 := by
  decide +kernel

end DeprecatOS
