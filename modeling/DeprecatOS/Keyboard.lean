import DeprecatOS.Framebuffer
import DeprecatOS.RingBuffer

/-!
# The keyboard

`keyboard.c`: the decoder of scan codes of set 1. A code below `0x80` says that a key went down, with the high bit set
that it went up; a key that is held repeats its code. `0xE0` announces a code of the second table, `0xE1` the sequence
of the pause key, of which five more bytes follow.
-/

namespace DeprecatOS

inductive KeyCode where
  | keyNone | keyEsc | key1 | key2 | key3 | key4 | key5 | key6 | key7 | key8 | key9 | key0 | keyMinus | keyEquals
  | keyBackspace | keyTab | keyQ | keyW | keyE | keyR | keyT | keyY | keyU | keyI | keyO | keyP | keyLbracket
  | keyRbracket | keyEnter | keyLctrl | keyA | keyS | keyD | keyF | keyG | keyH | keyJ | keyK | keyL | keySemicolon
  | keyApostrophe | keyGrave | keyLshift | keyBackslash | keyZ | keyX | keyC | keyV | keyB | keyN | keyM | keyComma
  | keyPeriod | keySlash | keyRshift | keyNumpadStar | keyLalt | keySpace | keyCapslock | keyF1 | keyF2 | keyF3
  | keyF4 | keyF5 | keyF6 | keyF7 | keyF8 | keyF9 | keyF10 | keyNumlock | keyScrolllock | keyF11 | keyF12 | keyRctrl
  | keyRalt | keyUp | keyDown | keyLeft | keyRight | keyHome | keyEnd | keyPgup | keyPgdn | keyInsert | keyDelete
  | keyNumpadEnter | keyNumpadSlash | keyLgui | keyRgui | keyMenu | keyPrintscreen | keyPause
  deriving DecidableEq, Repr

def scancodeToKeycode (scancode : UInt8) : KeyCode :=
  match scancode with
  | 0x01 => .keyEsc | 0x02 => .key1 | 0x03 => .key2 | 0x04 => .key3 | 0x05 => .key4 | 0x06 => .key5 | 0x07 => .key6
  | 0x08 => .key7 | 0x09 => .key8 | 0x0A => .key9 | 0x0B => .key0 | 0x0C => .keyMinus | 0x0D => .keyEquals
  | 0x0E => .keyBackspace | 0x0F => .keyTab | 0x10 => .keyQ | 0x11 => .keyW | 0x12 => .keyE | 0x13 => .keyR
  | 0x14 => .keyT | 0x15 => .keyY | 0x16 => .keyU | 0x17 => .keyI | 0x18 => .keyO | 0x19 => .keyP
  | 0x1A => .keyLbracket | 0x1B => .keyRbracket | 0x1C => .keyEnter | 0x1D => .keyLctrl | 0x1E => .keyA
  | 0x1F => .keyS | 0x20 => .keyD | 0x21 => .keyF | 0x22 => .keyG | 0x23 => .keyH | 0x24 => .keyJ | 0x25 => .keyK
  | 0x26 => .keyL | 0x27 => .keySemicolon | 0x28 => .keyApostrophe | 0x29 => .keyGrave | 0x2A => .keyLshift
  | 0x2B => .keyBackslash | 0x2C => .keyZ | 0x2D => .keyX | 0x2E => .keyC | 0x2F => .keyV | 0x30 => .keyB
  | 0x31 => .keyN | 0x32 => .keyM | 0x33 => .keyComma | 0x34 => .keyPeriod | 0x35 => .keySlash | 0x36 => .keyRshift
  | 0x37 => .keyNumpadStar | 0x38 => .keyLalt | 0x39 => .keySpace | 0x3A => .keyCapslock | 0x3B => .keyF1
  | 0x3C => .keyF2 | 0x3D => .keyF3 | 0x3E => .keyF4 | 0x3F => .keyF5 | 0x40 => .keyF6 | 0x41 => .keyF7
  | 0x42 => .keyF8 | 0x43 => .keyF9 | 0x44 => .keyF10 | 0x45 => .keyNumlock | 0x46 => .keyScrolllock
  | 0x57 => .keyF11 | 0x58 => .keyF12 | _ => .keyNone

def extendedScancodeToKeycode (scancode : UInt8) : KeyCode :=
  match scancode with
  | 0x1C => .keyNumpadEnter | 0x1D => .keyRctrl | 0x35 => .keyNumpadSlash | 0x37 => .keyPrintscreen
  | 0x38 => .keyRalt | 0x47 => .keyHome | 0x48 => .keyUp | 0x49 => .keyPgup | 0x4B => .keyLeft | 0x4D => .keyRight
  | 0x4F => .keyEnd | 0x50 => .keyDown | 0x51 => .keyPgdn | 0x52 => .keyInsert | 0x53 => .keyDelete
  | 0x5B => .keyLgui | 0x5C => .keyRgui | 0x5D => .keyMenu | _ => .keyNone

def keyExtendedPrefix : UInt8 := 0xE0
def keyPausePrefix : UInt8 := 0xE1
def keyReleaseBit : UInt8 := 0x80

def ctrlKeyUp : UInt8 := 0x80
def ctrlKeyDown : UInt8 := 0x81
def ctrlKeyLeft : UInt8 := 0x82
def ctrlKeyRight : UInt8 := 0x83

/-- The static variables of the driver, with those of the screen that it scrolls. -/
structure Keyboard where
  keysDown : KeyCode → Bool
  capslock : Bool
  scrollock : Bool
  numlock : Bool
  rb : RingBuffer
  e0Pending : Bool
  e1Skip : UInt8
  fb : Fb

namespace Keyboard

variable (font : Nat → UInt8) (s : Keyboard)

def keyboardInit (rb : RingBuffer) (fb : Fb) : Keyboard :=
  ⟨fun _ => false, false, false, false, rb.rbInit, false, 0, fb⟩

def shift : Bool := s.keysDown .keyRshift || s.keysDown .keyLshift

def keycodeToChar (key : KeyCode) : UInt8 :=
  let shift := s.shift
  let uppercase := xor shift s.capslock
  match key with
  | .keyA => if uppercase then 65 else 97 | .keyB => if uppercase then 66 else 98
  | .keyC => if uppercase then 67 else 99 | .keyD => if uppercase then 68 else 100
  | .keyE => if uppercase then 69 else 101 | .keyF => if uppercase then 70 else 102
  | .keyG => if uppercase then 71 else 103 | .keyH => if uppercase then 72 else 104
  | .keyI => if uppercase then 73 else 105 | .keyJ => if uppercase then 74 else 106
  | .keyK => if uppercase then 75 else 107 | .keyL => if uppercase then 76 else 108
  | .keyM => if uppercase then 77 else 109 | .keyN => if uppercase then 78 else 110
  | .keyO => if uppercase then 79 else 111 | .keyP => if uppercase then 80 else 112
  | .keyQ => if uppercase then 81 else 113 | .keyR => if uppercase then 82 else 114
  | .keyS => if uppercase then 83 else 115 | .keyT => if uppercase then 84 else 116
  | .keyU => if uppercase then 85 else 117 | .keyV => if uppercase then 86 else 118
  | .keyW => if uppercase then 87 else 119 | .keyX => if uppercase then 88 else 120
  | .keyY => if uppercase then 89 else 121 | .keyZ => if uppercase then 90 else 122
  | .key1 => if shift then 33 else 49 | .key2 => if shift then 64 else 50 | .key3 => if shift then 35 else 51
  | .key4 => if shift then 36 else 52 | .key5 => if shift then 37 else 53 | .key6 => if shift then 94 else 54
  | .key7 => if shift then 38 else 55 | .key8 => if shift then 42 else 56 | .key9 => if shift then 40 else 57
  | .key0 => if shift then 41 else 48 | .keyMinus => if shift then 95 else 45
  | .keyEquals => if shift then 43 else 61 | .keyLbracket => if shift then 123 else 91
  | .keyRbracket => if shift then 125 else 93 | .keySemicolon => if shift then 58 else 59
  | .keyApostrophe => if shift then 34 else 39
  | .keyGrave => if shift then 126 else 96 | .keyBackslash => if shift then 124 else 92
  | .keyComma => if shift then 60 else 44 | .keyPeriod => if shift then 62 else 46
  | .keySlash => if shift then 63 else 47
  | .keyNumpadSlash => 47 | .keyNumpadEnter => 10 | .keySpace => 32 | .keyTab => 9
  | .keyEnter => 10 | .keyBackspace => 8 | .keyEsc => 27 | .keyLeft => ctrlKeyLeft | .keyRight => ctrlKeyRight
  | .keyUp => ctrlKeyUp | .keyDown => ctrlKeyDown | _ => 0

def toggleLocks (key : KeyCode) (released : Bool) : Keyboard :=
  let s := if key = .keyCapslock ∧ ¬ released then { s with capslock := !s.capslock } else s
  let s := if key = .keyScrolllock ∧ ¬ released then { s with scrollock := !s.scrollock } else s
  if key = .keyNumlock ∧ ¬ released then { s with numlock := !s.numlock } else s

/-- What happens on the screen and in the ring buffer, once `keys_down` is set. -/
def keyEffect (key : KeyCode) (released : Bool) : Keyboard :=
  if ¬ released ∧ (key = .keyUp ∨ key = .keyDown) ∧ (s.keysDown .keyLshift || s.keysDown .keyRshift) then
    { s with fb := s.fb.fbScrollback font (if key = .keyUp then 1 else -1) }
  else
    let s :=
      if ¬ released ∧ (key = .keyPgup ∨ key = .keyPgdn) then
        let r : Int := s.fb.rows
        { s with fb := s.fb.fbScrollback font (if key = .keyPgup then r - 1 else -(r - 1)) }
      else s
    let c := s.keycodeToChar key
    if ¬ released ∧ c ≠ 0 then { s with rb := (s.rb.rbPush c).2 } else s

def keyboardHandler (scancode : UInt8) : Keyboard :=
  if s.e1Skip ≠ 0 then { s with e1Skip := s.e1Skip - 1 }
  else if scancode = keyExtendedPrefix then { s with e0Pending := true }
  else if scancode = keyPausePrefix then { s with e1Skip := 5 }
  else
    let released : Bool := scancode &&& keyReleaseBit ≠ 0
    let rawKey := scancode &&& (0x7F : UInt8)
    let key := if s.e0Pending then extendedScancodeToKeycode rawKey else scancodeToKeycode rawKey
    let s := { s with e0Pending := false }
    if key = .keyNone then s
    else
      let s := s.toggleLocks key released
      let s := { s with keysDown := Function.update s.keysDown key (!released) }
      s.keyEffect font key released

end Keyboard

end DeprecatOS
