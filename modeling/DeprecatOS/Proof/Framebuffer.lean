import DeprecatOS.Framebuffer

/-!
# The screen shows the shadow

Whatever is drawn, scrolled and cleared, the cells of the screen show what `shadow` records for them, the cell under the
cursor block apart. Between two calls the cells may be out of step only while old lines are viewed. Inside a call
`del_cursor` restores the one cell that may differ, and `draw_cursor` makes another one differ.
-/

namespace DeprecatOS

open Sweep

namespace Fb

variable {font : Nat → UInt8} {size : Nat × Nat} {s : Fb} {r c : Nat}

/-! ### Cells -/

def OnScreen (s : Fb) (r c : Nat) : Prop := r < s.rows ∧ c < s.cols

def cellPixel (s : Fb) (r c i b : Nat) : UInt32 := s.pixels (r * glyphHeight + i) (c * glyphWidth + b)

def glyphPixel (font : Nat → UInt8) (cell : FBChar) (i b : Nat) : UInt32 :=
  if glyphBit font cell.c i b then palette cell.color else palette colorBlack

def Shows (font : Nat → UInt8) (s : Fb) (r c : Nat) : Prop :=
  ∀ i < glyphHeight, ∀ b < glyphWidth, s.cellPixel r c i b = glyphPixel font (s.shadow (s.index r c)) i b

theorem index_inj {r' c' : Nat} (hc : c < s.cols) (hc' : c' < s.cols) :
    s.index r c = s.index r' c' ↔ r = r' ∧ c = c' := by
  constructor
  · intro heq
    have hpos : 0 < s.cols := Nat.zero_lt_of_lt hc
    have hrow : ∀ {r c : Nat}, c < s.cols → s.index r c / s.cols = r := fun {r c} hc => by
      rw [index, Nat.mul_comm, Nat.mul_add_div hpos, Nat.div_eq_of_lt hc, Nat.add_zero]
    have hr : r = r' := (hrow hc).symm.trans ((congrArg (· / s.cols) heq).trans (hrow hc'))
    refine ⟨hr, ?_⟩
    rw [index, index, hr] at heq
    exact Nat.add_left_cancel heq
  · rintro ⟨rfl, rfl⟩
    rfl

theorem cellPixel_paintCell {r' c' i b : Nat} (paint : Nat → Nat → UInt32 → UInt32) (hi : i < glyphHeight)
    (hb : b < glyphWidth) :
    (s.paintCell r c paint).cellPixel r' c' i b =
      if r' = r ∧ c' = c then paint i b (s.cellPixel r' c' i b) else s.cellPixel r' c' i b := by
  rw [glyphHeight] at hi
  rw [glyphWidth] at hb
  have hline : (r' * 16 + i) / 16 = r' ∧ (r' * 16 + i) % 16 = i := by omega
  have hplace : (c' * 8 + b) / 8 = c' ∧ (c' * 8 + b) % 8 = b := by omega
  simp only [cellPixel, paintCell, glyphHeight, glyphWidth, hline, hplace]

theorem paintCell_paintCell (s : Fb) (r c : Nat) (first second : Nat → Nat → UInt32 → UInt32) :
    (s.paintCell r c first).paintCell r c second = s.paintCell r c fun i b old => second i b (first i b old) := by
  have hpixels : ((s.paintCell r c first).paintCell r c second).pixels =
      (s.paintCell r c fun i b old => second i b (first i b old)).pixels := by
    funext line x
    simp only [paintCell]
    split_ifs <;> rfl
  exact congrArg (fun pixels => { s with pixels := pixels }) hpixels

theorem Shows.paintCell {r' c' : Nat} (h : Shows font s r' c') (paint : Nat → Nat → UInt32 → UInt32)
    (hne : ¬ (r' = r ∧ c' = c)) : Shows font (s.paintCell r c paint) r' c' := by
  intro i hi b hb
  rw [cellPixel_paintCell paint hi hb, if_neg hne]
  exact h i hi b hb

/-! ### What stays in order inside a call -/

/-- The dimensions, the cursor block, the colours in `shadow` and the ring of lines are in order. -/
structure Ok (size : Nat × Nat) (s : Fb) : Prop where
  size_eq : (s.rows, s.cols) = size
  rows_pos : 0 < s.rows
  cols_pos : 0 < s.cols
  cursor : s.OnScreen s.cursorRow s.cursorCol
  color : ∀ r c, s.OnScreen r c → (s.shadow (s.index r c)).color < paletteSize

def AllShow (font : Nat → UInt8) (s : Fb) : Prop := ∀ r c, s.OnScreen r c → Shows font s r c

def MostShow (font : Nat → UInt8) (s : Fb) : Prop :=
  ∀ r c, s.OnScreen r c → ¬ (r = s.cursorRow ∧ c = s.cursorCol) → Shows font s r c

structure RingOk (s : Fb) : Prop where
  head_lt : s.head < historyLines
  count_le : s.count ≤ historyLines
  view : 0 ≤ s.viewOffset ∧ s.viewOffset ≤ s.count

structure Live (font : Nat → UInt8) (size : Nat × Nat) (s : Fb) : Prop where
  ok : Ok size s
  ring : RingOk s
  view : s.viewOffset = 0
  shows : MostShow font s

structure Clean (font : Nat → UInt8) (size : Nat × Nat) (s : Fb) : Prop where
  ok : Ok size s
  ring : RingOk s
  view : s.viewOffset = 0
  shows : AllShow font s

def Placed (s : Fb) : Prop := s.OnScreen s.row s.col

/-! ### Drawing -/

theorem blitGlyph_shows (hcell : s.OnScreen r c) (hok : Ok size s) :
    Shows font (s.blitGlyph font r c (s.shadow (s.index r c)).c (s.shadow (s.index r c)).color) r c := by
  intro i hi b hb
  rw [blitGlyph, if_neg (UInt8.not_le.mpr (hok.color r c hcell)), cellPixel_paintCell _ hi hb, if_pos ⟨rfl, rfl⟩]
  rfl

theorem blitGlyph_eq (s : Fb) (r c : Nat) (ch color : UInt8) :
    ∃ pixels, s.blitGlyph font r c ch color = { s with pixels := pixels } := by
  rw [blitGlyph]
  split_ifs
  · exact ⟨s.pixels, rfl⟩
  · exact ⟨_, rfl⟩

theorem Shows.blitGlyph {r' c' : Nat} {ch color : UInt8} (h : Shows font s r' c') (hne : ¬ (r' = r ∧ c' = c)) :
    Shows font (s.blitGlyph font r c ch color) r' c' := by
  rw [Fb.blitGlyph]
  split_ifs
  · exact h
  · exact h.paintCell _ hne

theorem drawCharForced_spec (font : Nat → UInt8) (hok : Ok size s) (hplaced : s.Placed) (ch color : UInt8) :
    ∃ pixels shadow, s.drawCharForced font ch color = { s with pixels := pixels, shadow := shadow } ∧
      Ok size (s.drawCharForced font ch color) ∧
      (∀ r c, s.OnScreen r c → ¬ (r = s.row ∧ c = s.col) → Shows font s r c →
        Shows font (s.drawCharForced font ch color) r c) ∧
      (color < paletteSize → Shows font (s.drawCharForced font ch color) s.row s.col) := by
  rw [drawCharForced]
  by_cases hcolor : paletteSize ≤ color
  · rw [if_pos hcolor]
    exact ⟨s.pixels, s.shadow, rfl, hok, fun _ _ _ _ h => h, fun hlt => absurd hcolor (UInt8.not_le.mpr hlt)⟩
  rw [if_neg hcolor, blitGlyph, if_neg hcolor]
  have hindex : ∀ {r c}, s.OnScreen r c → ¬ (r = s.row ∧ c = s.col) → s.index r c ≠ s.index s.row s.col :=
    fun hcell hne heq => hne ((index_inj hcell.2 hplaced.2).mp heq)
  refine ⟨_, _, rfl, { hok with color := fun r c hcell => ?_ }, fun r c hcell hne h => ?_, fun _ => ?_⟩
  · change (Function.update s.shadow (s.index s.row s.col) ⟨ch, color⟩ (s.index r c)).color < paletteSize
    by_cases hsame : r = s.row ∧ c = s.col
    · rw [hsame.1, hsame.2, Function.update_self]
      exact UInt8.not_le.mp hcolor
    · rw [Function.update_of_ne (hindex hcell hsame)]
      exact hok.color r c hcell
  · intro i hi b hb
    have hold := h.paintCell (fun i b _ => if glyphBit font ch i b then palette color else palette colorBlack) hne i hi
      b hb
    change _ = glyphPixel font (Function.update s.shadow (s.index s.row s.col) ⟨ch, color⟩ (s.index r c)) i b
    rw [Function.update_of_ne (hindex hcell hne)]
    exact hold
  · intro i hi b hb
    change _ = glyphPixel font (Function.update s.shadow (s.index s.row s.col) ⟨ch, color⟩ (s.index s.row s.col)) i b
    rw [Function.update_self]
    have hnew := @cellPixel_paintCell s s.row s.col s.row s.col i b
      (fun i b _ => if glyphBit font ch i b then palette color else palette colorBlack) hi hb
    rw [if_pos ⟨rfl, rfl⟩] at hnew
    exact hnew

theorem Live.drawChar (h : Live font size s) (hplaced : s.Placed) (ch color : UInt8) :
    Live font size (s.drawChar font ch color) ∧
      ∃ pixels shadow, s.drawChar font ch color = { s with pixels := pixels, shadow := shadow } := by
  rw [Fb.drawChar]
  split_ifs with hsame
  · exact ⟨h, s.pixels, s.shadow, rfl⟩
  obtain ⟨pixels, shadow, heq, hok, hothers, hdrawn⟩ := drawCharForced_spec font h.ok hplaced ch color
  refine ⟨?_, pixels, shadow, heq⟩
  by_cases hcolor : paletteSize ≤ color
  · rw [drawCharForced, if_pos hcolor]
    exact h
  · rw [heq] at hok hothers hdrawn ⊢
    refine ⟨hok, { h.ring with }, h.view, fun r c hcell hne => ?_⟩
    by_cases hhere : r = s.row ∧ c = s.col
    · rw [hhere.1, hhere.2]
      exact hdrawn (UInt8.not_le.mp hcolor)
    · exact hothers r c hcell hhere (h.shows r c hcell hne)

theorem Live.delCursor (h : Live font size s) :
    Clean font size (s.delCursor font) ∧
      ∃ pixels shadow, s.delCursor font = { s with pixels := pixels, shadow := shadow } := by
  have hok : Ok size { s with col := s.cursorCol, row := s.cursorRow } :=
    { h.ok with }
  obtain ⟨pixels, shadow, heq, hok', hothers, hdrawn⟩ := drawCharForced_spec font hok h.ok.cursor
    (s.shadow (s.index s.cursorRow s.cursorCol)).c (s.shadow (s.index s.cursorRow s.cursorCol)).color
  have hdel : s.delCursor font = { s with pixels := pixels, shadow := shadow } := by
    rw [Fb.delCursor]
    exact congrArg (fun s' : Fb => { s' with col := s.col, row := s.row }) heq
  refine ⟨?_, pixels, shadow, hdel⟩
  rw [heq] at hok' hothers hdrawn
  rw [hdel]
  refine ⟨{ h.ok with color := hok'.color }, { h.ring with }, h.view,
    fun r c hcell => ?_⟩
  by_cases hcursor : r = s.cursorRow ∧ c = s.cursorCol
  · rw [hcursor.1, hcursor.2]
    exact hdrawn (h.ok.color _ _ h.ok.cursor)
  · exact hothers r c hcell hcursor (h.shows r c hcell hcursor)

theorem Clean.drawCursor (h : Clean font size s) (hplaced : s.Placed) :
    Live font size (s.drawCursor font) ∧ (s.drawCursor font).Placed := by
  have heq : ∃ paint, s.drawCursor font =
      { s.paintCell s.row s.col paint with cursorCol := s.col, cursorRow := s.row } := by
    rw [Fb.drawCursor]
    dsimp only
    split_ifs
    · exact ⟨_, congrArg (fun s' : Fb => { s' with cursorCol := s.col, cursorRow := s.row })
        (paintCell_paintCell s s.row s.col _ _)⟩
    · exact ⟨_, rfl⟩
  obtain ⟨paint, heq⟩ := heq
  rw [heq]
  refine ⟨⟨{ h.ok with cursor := hplaced }, { h.ring with }, h.view,
    fun r c hcell hne => ?_⟩, hplaced⟩
  exact (h.shows r c hcell).paintCell paint hne

/-! ### Scrolling -/

theorem Clean.saveLine (h : Clean font size s) : Clean font size s.saveLine where
  ok := { h.ok with }
  ring := by
    have hcount := h.ring.count_le
    have hview := h.view
    refine ⟨Nat.mod_lt _ (by decide), ?_, ?_⟩
    · change (if s.count < historyLines then s.count + 1 else s.count) ≤ historyLines
      split_ifs <;> omega
    · change 0 ≤ s.viewOffset ∧ s.viewOffset ≤ ((if s.count < historyLines then s.count + 1 else s.count : Nat) : Int)
      omega
  view := h.view
  shows := h.shows

theorem shadow_shiftShadow_last (hc : c < s.cols) : s.shiftShadow.shadow (s.index (s.rows - 1) c) = .blank :=
  fillLoop_dst (fun c => s.index (s.rows - 1) c) (List.mem_range.mpr hc)

theorem shadow_shiftShadow (hr : r + 1 < s.rows) (hc : c < s.cols) :
    s.shiftShadow.shadow (s.index r c) = s.shadow (s.index (r + 1) c) := by
  have hfill : ∀ c' ∈ List.range s.cols, s.index (s.rows - 1) c' ≠ s.index r c := by
    intro c' hc' heq
    have := (index_inj (List.mem_range.mp hc') hc).mp heq
    omega
  have horder : (cells 1 (s.rows - 1) s.cols).Pairwise fun x y =>
      s.index (x.1 - 1) x.2 ≠ s.index y.1 y.2 ∧ s.index (y.1 - 1) y.2 ≠ s.index (x.1 - 1) x.2 := by
    refine (pairwise_cells 1 (s.rows - 1) s.cols).imp_of_mem fun {x y} hx hy hlt => ?_
    have hx := mem_cells.mp hx
    have hy := mem_cells.mp hy
    rw [Ne, Ne, index_inj hx.2 hy.2, index_inj hy.2 hx.2]
    omega
  have hmem : (r + 1, c) ∈ cells 1 (s.rows - 1) s.cols := mem_cells.mpr (by omega)
  exact (fillLoop_of_forall_ne _ hfill).trans (copyLoop_dst _ _ horder hmem)

theorem glyphPixel_blank (i b : Nat) : glyphPixel font .blank i b = 0 := by
  rw [glyphPixel]
  split_ifs <;> rfl

theorem Clean.shift (h : Clean font size s) :
    Clean font size { s.shiftShadow with row := s.rows - 1, col := 0 }.shiftPixels := by
  have hrows := h.ok.rows_pos
  refine ⟨⟨h.ok.size_eq, hrows, h.ok.cols_pos, h.ok.cursor, fun r c hcell => ?_⟩,
    { h.ring with }, h.view, fun r c hcell => ?_⟩
  · obtain ⟨hr, hc⟩ : r < s.rows ∧ c < s.cols := hcell
    change (s.shiftShadow.shadow (s.index r c)).color < paletteSize
    by_cases hlast : r + 1 < s.rows
    · rw [shadow_shiftShadow hlast hc]
      exact h.ok.color (r + 1) c ⟨hlast, hc⟩
    · obtain rfl : r = s.rows - 1 := by omega
      rw [shadow_shiftShadow_last hc]
      decide
  · obtain ⟨hr, hc⟩ : r < s.rows ∧ c < s.cols := hcell
    intro i hi b hb
    change (if r * glyphHeight + i < (s.rows - 1) * glyphHeight then
        s.pixels (r * glyphHeight + i + glyphHeight) (c * glyphWidth + b)
      else if r * glyphHeight + i < (s.rows - 1) * glyphHeight + glyphHeight then 0
      else s.pixels (r * glyphHeight + i) (c * glyphWidth + b)) =
        glyphPixel font (s.shiftShadow.shadow (s.index r c)) i b
    rw [glyphHeight] at hi ⊢
    by_cases hlast : r + 1 < s.rows
    · rw [if_pos (by omega), shadow_shiftShadow hlast hc, show r * 16 + i + 16 = (r + 1) * 16 + i by omega]
      exact h.shows (r + 1) c ⟨hlast, hc⟩ i hi b hb
    · obtain rfl : r = s.rows - 1 := by omega
      rw [if_neg (by omega), if_pos (by omega), shadow_shiftShadow_last hc, glyphPixel_blank]

theorem Live.scroll (h : Live font size s) : Live font size (s.scroll font) ∧ (s.scroll font).Placed := by
  rw [Fb.scroll]
  have hclean := h.delCursor.1
  generalize s.delCursor font = s' at hclean
  have hshift := hclean.saveLine.shift
  have hrows := hclean.ok.rows_pos
  have hcols := hclean.ok.cols_pos
  exact hshift.drawCursor ⟨Nat.sub_lt hrows Nat.one_pos, hcols⟩

/-! ### Viewing old lines -/

theorem onScreen_of_mem (s : Fb) {x : Nat × Nat} (hx : x ∈ cells 0 s.rows s.cols) : s.OnScreen x.1 x.2 := by
  have := mem_cells.mp hx
  exact ⟨by omega, this.2⟩

theorem mem_cells_of_onScreen (s : Fb) (hcell : s.OnScreen r c) : (r, c) ∈ cells 0 s.rows s.cols :=
  mem_cells.mpr ⟨⟨Nat.zero_le r, by rw [Nat.zero_add]; exact hcell.1⟩, hcell.2⟩

theorem Ok.repaint (hok : Ok size s) (pixels : Nat → Nat → UInt32) : Ok size { s with pixels := pixels } :=
  { hok with }

theorem snapToLive_spec (hok : Ok size s) (hring : RingOk s) (hview : s.viewOffset = 0) (hplaced : s.Placed) :
    Live font size (s.snapToLive font) ∧ (s.snapToLive font).Placed := by
  rw [snapToLive]
  -- each step paints its own cell, and later steps leave it alone
  obtain ⟨⟨pixels, heq⟩, hshows⟩ := foldl_reaches
    (fun s' x => s'.blitGlyph font x.1 x.2 (s'.shadow (s'.index x.1 x.2)).c (s'.shadow (s'.index x.1 x.2)).color)
    (fun s' => ∃ pixels, s' = { s with pixels := pixels }) (fun x s' => Shows font s' x.1 x.2)
    (l := cells 0 s.rows s.cols) (s := s) ⟨s.pixels, rfl⟩
    (by
      rintro s' ⟨pixels, rfl⟩ x hx
      exact ⟨blitGlyph_eq _ _ _ _ _, blitGlyph_shows (s.onScreen_of_mem hx) (hok.repaint pixels)⟩)
    (by
      rintro s' ⟨pixels, rfl⟩ x hx y - hy
      by_cases hsame : y.1 = x.1 ∧ y.2 = x.2
      · rw [hsame.1, hsame.2]
        exact blitGlyph_shows (s.onScreen_of_mem hx) (hok.repaint pixels)
      · exact hy.blitGlyph hsame)
  dsimp only at heq hshows ⊢
  rw [heq] at hshows ⊢
  refine Clean.drawCursor ⟨hok.repaint pixels, { hring with }, hview, ?_⟩ hplaced
  intro r c hcell
  exact hshows (r, c) (s.mem_cells_of_onScreen hcell)

theorem viewRepaint_eq (font : Nat → UInt8) (s : Fb) : ∃ pixels, s.viewRepaint font = { s with pixels := pixels } := by
  rw [viewRepaint]
  refine List.foldlRecOn (motive := fun s' : Fb => ∃ pixels, s' = { s with pixels := pixels }) _ _ ⟨s.pixels, rfl⟩ ?_
  rintro s' ⟨pixels, rfl⟩ x -
  exact blitGlyph_eq _ _ _ _ _

/-! ### Calls -/

structure Inv (font : Nat → UInt8) (size : Nat × Nat) (s : Fb) : Prop where
  ok : Ok size s
  ring : RingOk s
  placed : s.Placed
  shows : s.viewOffset = 0 → MostShow font s

theorem Live.inv (h : Live font size s) (hplaced : s.Placed) : Inv font size s :=
  ⟨h.ok, h.ring, hplaced, fun _ => h.shows⟩

theorem Inv.leaveView (h : Inv font size s) : Live font size (s.leaveView font) ∧ (s.leaveView font).Placed := by
  rw [Fb.leaveView]
  split_ifs with hview
  · exact snapToLive_spec (s := { s with viewOffset := 0 }) { h.ok with }
      ⟨h.ring.head_lt, h.ring.count_le, Int.le_refl 0, Int.natCast_nonneg _⟩ rfl h.placed
  · have hzero : s.viewOffset = 0 := not_not.mp hview
    exact ⟨⟨h.ok, h.ring, hzero, h.shows hzero⟩, h.placed⟩

theorem Live.moveTo (h : Live font size s) (row col : Nat) : Live font size { s with row := row, col := col } :=
  ⟨{ h.ok with }, { h.ring with }, h.view, h.shows⟩

theorem Live.updRow (h : Live font size s) (hcol : s.col < s.cols) :
    Live font size (s.updRow font) ∧ (s.updRow font).Placed := by
  have hmoved := h.moveTo (s.row + 1) s.col
  rw [Fb.updRow]
  split_ifs with hrow
  · exact ⟨hmoved, hrow, hcol⟩
  · exact hmoved.scroll

theorem Live.updCol (h : Live font size s) (hrow : s.row < s.rows) :
    Live font size (s.updCol font) ∧ (s.updCol font).Placed := by
  rw [Fb.updCol]
  split_ifs with hcol
  · exact ⟨h.moveTo s.row (s.col + 1), hrow, hcol⟩
  · exact (h.moveTo s.row 0).updRow h.ok.cols_pos

theorem Live.moveCursor (h : Live font size s) (hplaced : s.Placed) :
    Live font size ((s.delCursor font).drawCursor font) ∧ ((s.delCursor font).drawCursor font).Placed := by
  obtain ⟨hclean, pixels, shadow, heq⟩ := h.delCursor
  apply hclean.drawCursor
  rw [heq]
  exact hplaced

theorem Inv.fbDrawCharNoUpd (h : Inv font size s) (ch color : UInt8) :
    Live font size (s.fbDrawCharNoUpd font ch color) ∧ (s.fbDrawCharNoUpd font ch color).Placed := by
  obtain ⟨hlive, hplaced⟩ := h.leaveView
  rw [Fb.fbDrawCharNoUpd]
  generalize s.leaveView font = s' at hlive hplaced
  dsimp only
  split_ifs with hchar hback hcol
  · obtain ⟨hdrawn, pixels, shadow, heq⟩ := hlive.drawChar hplaced ch color
    apply hdrawn.updCol
    rw [heq]
    exact hplaced.1
  · have hleft : s'.col - 1 < s'.cols := Nat.lt_of_le_of_lt (Nat.sub_le _ _) hplaced.2
    obtain ⟨hdrawn, pixels, shadow, heq⟩ := (hlive.moveTo s'.row (s'.col - 1)).drawChar ⟨hplaced.1, hleft⟩ charSpace 0
    refine ⟨hdrawn, ?_⟩
    rw [heq]
    exact ⟨hplaced.1, hleft⟩
  · exact ⟨hlive, hplaced⟩
  · obtain ⟨hnext, hnextPlaced⟩ := hlive.updRow hplaced.2
    exact ⟨hnext.moveTo (s'.updRow font).row 0, hnextPlaced.1, hnext.ok.cols_pos⟩

theorem Inv.fbDrawCharUpd (h : Inv font size s) (ch color : UInt8) :
    Live font size (s.fbDrawCharUpd font ch color) ∧ (s.fbDrawCharUpd font ch color).Placed := by
  obtain ⟨hlive, hplaced⟩ := h.fbDrawCharNoUpd ch color
  exact hlive.moveCursor hplaced

theorem Inv.fbSetCursorNoUpd (h : Inv font size s) (inRow inCol : UInt32) :
    Live font size (s.fbSetCursorNoUpd font inRow inCol).2 ∧ (s.fbSetCursorNoUpd font inRow inCol).2.Placed := by
  obtain ⟨hlive, hplaced⟩ := h.leaveView
  rw [Fb.fbSetCursorNoUpd]
  split_ifs with hout
  · exact ⟨hlive, hplaced⟩
  · rw [not_or, Nat.not_le, Nat.not_le] at hout
    exact ⟨hlive.moveTo inRow.toNat inCol.toNat, hout⟩

theorem Inv.fbSetCursor (h : Inv font size s) (inRow inCol : UInt32) :
    Live font size (s.fbSetCursor font inRow inCol).2 ∧ (s.fbSetCursor font inRow inCol).2.Placed := by
  obtain ⟨hlive, hplaced⟩ := h.leaveView
  rw [Fb.fbSetCursor]
  dsimp only
  split_ifs with hout
  · exact ⟨hlive, hplaced⟩
  · rw [not_or, Nat.not_le, Nat.not_le] at hout
    exact (hlive.moveTo inRow.toNat inCol.toNat).moveCursor hout

theorem Inv.fbClearScreen (h : Inv font size s) :
    Live font size (s.fbClearScreen font) ∧ (s.fbClearScreen font).Placed := by
  obtain ⟨hlive, hplaced⟩ := h.leaveView
  rw [Fb.fbClearScreen]
  generalize s.leaveView font = s' at hlive hplaced
  have hloop : Live font size ((cells 0 s'.rows s'.cols).foldl (fun s x =>
      { s with row := x.1, col := x.2 }.drawChar font FBChar.blank.c FBChar.blank.color) s') := by
    refine (List.foldlRecOn (motive := fun s : Fb => Live font size s ∧ s.rows = s'.rows ∧ s.cols = s'.cols) _ _
      ⟨hlive, rfl, rfl⟩ ?_).1
    rintro s ⟨hs, hrows, hcols⟩ x hx
    have hcell := s'.onScreen_of_mem hx
    have hplaced : s.OnScreen x.1 x.2 := ⟨hrows ▸ hcell.1, hcols ▸ hcell.2⟩
    obtain ⟨hdrawn, pixels, shadow, heq⟩ :=
      (hs.moveTo x.1 x.2).drawChar hplaced FBChar.blank.c FBChar.blank.color
    refine ⟨hdrawn, ?_⟩
    rw [heq]
    exact ⟨hrows, hcols⟩
  exact (hloop.moveTo 0 0).moveCursor ⟨hloop.ok.rows_pos, hloop.ok.cols_pos⟩

theorem fbScrollback_cases (font : Nat → UInt8) (s : Fb) (delta : Int) :
    s.fbScrollback font delta = s ∨ ∃ off : Int, (0 ≤ off ∧ off ≤ s.count) ∧
      (off = 0 ∧ s.fbScrollback font delta = { s with viewOffset := off }.snapToLive font ∨
        off ≠ 0 ∧ s.fbScrollback font delta = { s with viewOffset := off }.viewRepaint font) := by
  rw [fbScrollback]
  by_cases hon : s.scrollbackOn = false
  · rw [if_pos hon]
    exact .inl rfl
  rw [if_neg hon]
  dsimp only
  generalize addInt s.viewOffset delta = sum
  obtain ⟨off, hoff⟩ : ∃ off : Int, off = if (if s.count < sum then (s.count : Int) else sum) < 0 then 0
      else if s.count < sum then (s.count : Int) else sum := ⟨_, rfl⟩
  have hrange : 0 ≤ off ∧ off ≤ s.count := by
    rw [hoff]
    split_ifs <;> omega
  rw [← hoff]
  split_ifs with hsame hlive
  · exact .inl rfl
  · exact .inr ⟨off, hrange, .inl ⟨hlive, rfl⟩⟩
  · exact .inr ⟨off, hrange, .inr ⟨hlive, rfl⟩⟩

theorem Inv.fbScrollback (h : Inv font size s) (delta : Int) : Inv font size (s.fbScrollback font delta) := by
  obtain heq | ⟨off, hrange, hmoved⟩ := fbScrollback_cases font s delta
  · rw [heq]
    exact h
  have hok : Ok size { s with viewOffset := off } := { h.ok with }
  have hring : RingOk { s with viewOffset := off } := ⟨h.ring.head_lt, h.ring.count_le, hrange⟩
  obtain ⟨hlive, heq⟩ | ⟨hview, heq⟩ := hmoved
  · obtain ⟨hsnap, hplaced⟩ := snapToLive_spec hok hring hlive h.placed
    rw [heq]
    exact hsnap.inv hplaced
  · obtain ⟨pixels, hrepaint⟩ := viewRepaint_eq font { s with viewOffset := off }
    rw [heq, hrepaint]
    exact ⟨hok.repaint pixels, { hring with }, h.placed, fun hzero => absurd hzero hview⟩

theorem fbInit_inv (s : Fb) (screen : Screen) :
    Inv font (screen.height / glyphHeight, screen.width / glyphWidth) (s.fbInit screen) := by
  have hwidth := screen.width_le
  have hrows : 0 < screen.height / glyphHeight := Nat.div_pos screen.height_pos (by decide)
  have hcols : 0 < screen.width / glyphWidth := Nat.div_pos screen.width_pos (by decide)
  have hshadow : ∀ r c, (s.fbInit screen).OnScreen r c →
      (s.fbInit screen).shadow ((s.fbInit screen).index r c) = .blank := fun r c hcell =>
    fillLoop_dst _ ((s.fbInit screen).mem_cells_of_onScreen hcell)
  refine ⟨⟨rfl, hrows, hcols, ⟨hrows, hcols⟩, fun r c hcell => ?_⟩,
    ⟨Nat.zero_lt_succ 255, Nat.zero_le _, Int.le_refl 0, Int.le_refl 0⟩, ⟨hrows, hcols⟩, fun _ r c hcell _ => ?_⟩
  · rw [hshadow r c hcell]
    decide
  · intro i hi b hb
    obtain ⟨hr, hc⟩ : r < screen.height / glyphHeight ∧ c < screen.width / glyphWidth := hcell
    rw [hshadow r c ⟨hr, hc⟩, glyphPixel_blank]
    rw [glyphHeight] at hi hr
    rw [glyphWidth] at hb hc
    exact if_pos ⟨by rw [glyphHeight]; omega, by rw [glyphWidth]; omega⟩

/-! ### Runs -/

inductive Call where
  | drawCharUpd (c color : UInt8)
  | drawCharNoUpd (c color : UInt8)
  | setCursor (inRow inCol : UInt32)
  | setCursorNoUpd (inRow inCol : UInt32)
  | clearScreen
  | scrollback (delta : Int)
  | setScrollback (b : Bool)

def exec (font : Nat → UInt8) (s : Fb) : Call → Fb
  | .drawCharUpd c color => s.fbDrawCharUpd font c color
  | .drawCharNoUpd c color => s.fbDrawCharNoUpd font c color
  | .setCursor inRow inCol => (s.fbSetCursor font inRow inCol).2
  | .setCursorNoUpd inRow inCol => (s.fbSetCursorNoUpd font inRow inCol).2
  | .clearScreen => s.fbClearScreen font
  | .scrollback delta => s.fbScrollback font delta
  | .setScrollback b => s.fbSetScrollback b

def Call.Output : Call → Prop
  | .scrollback _ => False
  | .setScrollback _ => False
  | _ => True

theorem Inv.output (h : Inv font size s) {call : Call} (houtput : call.Output) :
    Live font size (s.exec font call) ∧ (s.exec font call).Placed := by
  cases call with
  | drawCharUpd ch color => exact h.fbDrawCharUpd ch color
  | drawCharNoUpd ch color => exact h.fbDrawCharNoUpd ch color
  | setCursor inRow inCol => exact h.fbSetCursor inRow inCol
  | setCursorNoUpd inRow inCol => exact h.fbSetCursorNoUpd inRow inCol
  | clearScreen => exact h.fbClearScreen
  | scrollback delta => exact houtput.elim
  | setScrollback b => exact houtput.elim

theorem Inv.exec (h : Inv font size s) (call : Call) : Inv font size (s.exec font call) := by
  by_cases houtput : call.Output
  · obtain ⟨hlive, hplaced⟩ := h.output houtput
    exact hlive.inv hplaced
  cases call with
  | scrollback delta => exact h.fbScrollback delta
  | setScrollback b => exact ⟨{ h.ok with }, { h.ring with }, h.placed, h.shows⟩
  | _ => exact absurd trivial houtput

/-- After any calls on any screen, the positions lie on it, and when no old lines are viewed every cell but the one
under the cursor block shows the character and the colour that `shadow` records for it. -/
theorem screen_shows_shadow (font : Nat → UInt8) (s : Fb) (screen : Screen) (calls : List Call) :
    let rows := screen.height / glyphHeight
    let cols := screen.width / glyphWidth
    let s' := calls.foldl (exec font) (s.fbInit screen)
    s'.rows = rows ∧ s'.cols = cols ∧ (s'.row < rows ∧ s'.col < cols) ∧ (s'.cursorRow < rows ∧ s'.cursorCol < cols) ∧
      (s'.viewOffset = 0 → ∀ r < rows, ∀ c < cols, ¬ (r = s'.cursorRow ∧ c = s'.cursorCol) → Shows font s' r c) := by
  intro rows cols s'
  have h : Inv font (rows, cols) s' :=
    List.foldlRecOn (motive := Inv font (rows, cols)) calls _ (fbInit_inv s screen) fun s hs call _ => hs.exec call
  obtain ⟨hrows, hcols⟩ : s'.rows = rows ∧ s'.cols = cols := Prod.mk.inj h.ok.size_eq
  rw [← hrows, ← hcols]
  exact ⟨rfl, rfl, h.placed, h.ok.cursor, fun hview r hr c hc => h.shows hview r c ⟨hr, hc⟩⟩

end Fb

end DeprecatOS
