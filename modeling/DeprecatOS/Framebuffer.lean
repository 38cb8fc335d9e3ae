import DeprecatOS.Lib.Sweep
import Mathlib.Algebra.Group.Nat.Defs

/-!
# The text screen

`fbController.c`. The screen is a grid of cells of 8 by 16 pixels. `shadow` records the character and colour of each
cell, `history` the lines that were scrolled out. A pixel is addressed by its line, whose start lies `pitch` bytes
behind that of the line before, and by its place in the line. The font is an argument. Sums of `int` wrap around.
-/

namespace DeprecatOS

open Sweep

def glyphWidth : Nat := 8
def glyphHeight : Nat := 16
def historyLines : Nat := 256
def paletteSize : UInt8 := 16

def colorBlack : UInt8 := 0
def colorWhite : UInt8 := 15
def charSpace : UInt8 := 32
def charBackspace : UInt8 := 8
def charNewline : UInt8 := 10

def paletteTable : List UInt32 :=
  [0x000000, 0x0000AA, 0x00AA00, 0x00AAAA, 0xAA0000, 0xAA00AA, 0xAA5500, 0xAAAAAA,
   0x555555, 0x5555FF, 0x55FF55, 0x55FFFF, 0xFF5555, 0xFF55FF, 0xFFFF55, 0xFFFFFF]

def palette (color : UInt8) : UInt32 := paletteTable.getD color.toNat 0

structure FBChar where
  c : UInt8
  color : UInt8
deriving DecidableEq

def FBChar.blank : FBChar := ⟨charSpace, 0⟩

/-- The static variables, and the memory of the screen. -/
structure Fb where
  col : Nat
  row : Nat
  cursorCol : Nat
  cursorRow : Nat
  cols : Nat
  rows : Nat
  pixels : Nat → Nat → UInt32
  shadow : Nat → FBChar
  history : Nat → FBChar
  head : Nat
  count : Nat
  viewOffset : Int
  scrollbackOn : Bool

/-- The dimensions in the boot information. A line is no longer than the distance to the next one, and there is room for
at least one cell. -/
structure Screen where
  width : Nat
  height : Nat
  pitch : Nat
  width_le : 4 * width ≤ pitch
  width_pos : glyphWidth ≤ width
  height_pos : glyphHeight ≤ height

namespace Fb

variable (font : Nat → UInt8) (s : Fb)

def index (r c : Nat) : Nat := r * s.cols + c

/-- `fb_init`, over whatever the statics and the memory held: `memset` clears the whole screen. -/
def fbInit (screen : Screen) : Fb :=
  let s := { s with
    cols := screen.width / glyphWidth
    rows := screen.height / glyphHeight
    col := 0
    row := 0
    cursorCol := 0
    cursorRow := 0
    head := 0
    count := 0
    viewOffset := 0
    scrollbackOn := true }
  { s with
    shadow := fillLoop (fun x => s.index x.1 x.2) .blank (cells 0 s.rows s.cols) s.shadow
    pixels := fun line x => if line < screen.height ∧ 4 * x < screen.pitch then 0 else s.pixels line x }

/-! ### Drawing -/

/-- A loop over the pixels of a cell, which gives each of them a new value. -/
def paintCell (r c : Nat) (paint : Nat → Nat → UInt32 → UInt32) : Fb :=
  { s with
    pixels := fun line x =>
      if line / glyphHeight = r ∧ x / glyphWidth = c then
        paint (line % glyphHeight) (x % glyphWidth) (s.pixels line x)
      else s.pixels line x }

def glyphBit (ch : UInt8) (i b : Nat) : Bool := ((font (ch.toNat * glyphHeight + i)).toNat >>> (7 - b)) % 2 = 1

def drawCursor : Fb :=
  let cell := s.shadow (s.index s.row s.col)
  let s := s.paintCell s.row s.col fun _ _ _ => palette colorWhite
  let s :=
    if cell.c ≠ charSpace then
      s.paintCell s.row s.col fun i b old => if glyphBit font cell.c i b then palette colorBlack else old
    else s
  { s with cursorCol := s.col, cursorRow := s.row }

def blitGlyph (r c : Nat) (ch color : UInt8) : Fb :=
  if paletteSize ≤ color then s
  else s.paintCell r c fun i b _ => if glyphBit font ch i b then palette color else palette colorBlack

def drawCharForced (c color : UInt8) : Fb :=
  if paletteSize ≤ color then s
  else
    let s := s.blitGlyph font s.row s.col c color
    { s with shadow := Function.update s.shadow (s.index s.row s.col) ⟨c, color⟩ }

def drawChar (c color : UInt8) : Fb :=
  let curr := s.shadow (s.index s.row s.col)
  if curr.c = c ∧ curr.color = color then s else s.drawCharForced font c color

def delCursor : Fb :=
  let backupRow := s.row
  let backupCol := s.col
  let s := { s with col := s.cursorCol, row := s.cursorRow }
  let curr := s.shadow (s.index s.row s.col)
  let s := s.drawCharForced font curr.c curr.color
  { s with col := backupCol, row := backupRow }

/-! ### Scrolling -/

def saveLine : Fb :=
  { s with
    history := fun k =>
      if s.head * s.cols ≤ k ∧ k < s.head * s.cols + s.cols then s.shadow (k - s.head * s.cols) else s.history k
    head := (s.head + 1) % historyLines
    count := if s.count < historyLines then s.count + 1 else s.count }

def shiftShadow : Fb :=
  let moved :=
    copyLoop (fun x => s.index (x.1 - 1) x.2) (fun x => s.index x.1 x.2) (cells 1 (s.rows - 1) s.cols) s.shadow
  { s with
    shadow := fillLoop (fun c => s.index (s.rows - 1) c) .blank (List.range s.cols) moved }

def shiftPixels : Fb :=
  { s with
    pixels := fun line x =>
      if line < (s.rows - 1) * glyphHeight then s.pixels (line + glyphHeight) x
      else if line < (s.rows - 1) * glyphHeight + glyphHeight then 0
      else s.pixels line x }

def scroll : Fb :=
  let s := s.delCursor font
  let s := s.saveLine.shiftShadow
  let s := { s with row := s.rows - 1, col := 0 }
  s.shiftPixels.drawCursor font

/-- The cells that `view_repaint` shows in row `r`. -/
def viewCell (r c : Nat) : FBChar :=
  let logical : Int := s.count + r - s.viewOffset
  if logical < s.count then
    s.history (((s.head - s.count + logical + historyLines) % historyLines).toNat * s.cols + c)
  else s.shadow ((logical - s.count).toNat * s.cols + c)

def viewRepaint : Fb :=
  (cells 0 s.rows s.cols).foldl
    (fun s x => s.blitGlyph font x.1 x.2 (s.viewCell x.1 x.2).c (s.viewCell x.1 x.2).color) s

def snapToLive : Fb :=
  let s := (cells 0 s.rows s.cols).foldl (fun s x =>
    let cell := s.shadow (s.index x.1 x.2)
    s.blitGlyph font x.1 x.2 cell.c cell.color) s
  s.drawCursor font

def addInt (a b : Int) : Int := (a + b).bmod (2 ^ 32)

def fbScrollback (delta : Int) : Fb :=
  if s.scrollbackOn = false then s
  else
    let off := addInt s.viewOffset delta
    let off : Int := if s.count < off then s.count else off
    let off : Int := if off < 0 then 0 else off
    if off = s.viewOffset then s
    else
      let s := { s with viewOffset := off }
      if s.viewOffset = 0 then s.snapToLive font else s.viewRepaint font

/-! ### Characters -/

def updRow : Fb :=
  let s := { s with row := s.row + 1 }
  if s.row < s.rows then s else s.scroll font

def updCol : Fb :=
  let s := { s with col := s.col + 1 }
  if s.col < s.cols then s
  else
    let s := { s with col := 0 }
    s.updRow font

def leaveView : Fb :=
  if s.viewOffset ≠ 0 then
    let s := { s with viewOffset := 0 }
    s.snapToLive font
  else s

def fbDrawCharNoUpd (c color : UInt8) : Fb :=
  let s := s.leaveView font
  if c ≠ charBackspace ∧ c ≠ charNewline then
    let s := s.drawChar font c color
    s.updCol font
  else if c ≠ charNewline then
    if 0 < s.col then
      let s := { s with col := s.col - 1 }
      s.drawChar font charSpace 0
    else s
  else
    let s := s.updRow font
    { s with col := 0 }

def fbDrawCharUpd (c color : UInt8) : Fb :=
  let s := s.fbDrawCharNoUpd font c color
  let s := s.delCursor font
  s.drawCursor font

def fbSetCursorNoUpd (inRow inCol : UInt32) : Bool × Fb :=
  let s := s.leaveView font
  if s.rows ≤ inRow.toNat ∨ s.cols ≤ inCol.toNat then (false, s)
  else (true, { s with row := inRow.toNat, col := inCol.toNat })

def fbSetCursor (inRow inCol : UInt32) : Bool × Fb :=
  let s := s.leaveView font
  if s.rows ≤ inRow.toNat ∨ s.cols ≤ inCol.toNat then (false, s)
  else
    let s := { s with row := inRow.toNat, col := inCol.toNat }
    let s := s.delCursor font
    (true, s.drawCursor font)

def fbClearScreen : Fb :=
  let s := s.leaveView font
  let s := (cells 0 s.rows s.cols).foldl (fun s x =>
    let s := { s with row := x.1, col := x.2 }
    s.drawChar font FBChar.blank.c FBChar.blank.color) s
  let s := { s with row := 0, col := 0 }
  let s := s.delCursor font
  s.drawCursor font

def fbSetScrollback (b : Bool) : Fb := { s with scrollbackOn := b }

end Fb

end DeprecatOS
