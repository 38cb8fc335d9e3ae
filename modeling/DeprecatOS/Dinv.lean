import DeprecatOS.DirectoryController

/-!
# The editor

`dinv.c` without its drawing: the statics, the moves of the cursor, the commands, and what each key does in each mode.
The text lies in a gap buffer. What the system calls of `save` return is an argument of the handlers; the calls it makes
are recorded in `calls`. `SENTINEL` is no byte, so the handlers' first test never holds.
-/

namespace DeprecatOS

open Bytes

def textCap : Nat := 262144

def cmdBufSize : Nat := 64

def keyEsc : UInt8 := 0x1b
def keyBackspace : UInt8 := 8
def newline : UInt8 := 10

inductive Mode where
  | normal
  | insert
  | command
deriving DecidableEq

/-- `replacement_status`. -/
inductive Damage where
  | none
  | tail
  | cmd
  | below
  | full
deriving DecidableEq

inductive FileCall where
  | touch
  | fsave (fs ino : UInt32) (buf : Buf) (len : Nat)

/-- What the system calls of one `save` return: `resolve_dir` both times, whether `fsave` succeeds, and `get_ticks`. -/
structure SaveEnv where
  resolved : Option (UInt32 × UInt32)
  resolvedAgain : Option (UInt32 × UInt32)
  fsaved : Bool
  ticks : UInt64

structure Dinv where
  mode : Mode
  running : Bool
  scrollback : Bool
  text : Buf
  gapStart : Nat
  gapEnd : Nat
  cmdBuf : Buf
  cmdLen : Nat
  replacementStatus : Damage
  complaint : Buf
  complaining : Bool
  complaintExpiry : UInt64
  calls : List FileCall

namespace Dinv

variable (s : Dinv)

/-! ### The cursor -/

def cursorRight : Dinv :=
  if s.gapEnd = textCap then s
  else
    { s with
      text := Function.update s.text s.gapStart (s.text s.gapEnd)
      gapStart := s.gapStart + 1
      gapEnd := s.gapEnd + 1 }

def cursorLeft : Dinv :=
  if s.gapStart = 0 then s
  else
    { s with
      text := Function.update s.text (s.gapEnd - 1) (s.text (s.gapStart - 1))
      gapStart := s.gapStart - 1
      gapEnd := s.gapEnd - 1 }

def rightUntil (stop : Nat) : Nat → Dinv → Dinv
  | 0, s => s
  | fuel + 1, s => if s.gapEnd = stop then s else rightUntil stop fuel s.cursorRight

def leftUntil (stop : Nat) : Nat → Dinv → Dinv
  | 0, s => s
  | fuel + 1, s => if s.gapStart = stop then s else leftUntil stop fuel s.cursorLeft

def cursorRowcol : Nat × Nat :=
  (List.range s.gapStart).foldl (fun (r, c) i => if s.text i = newline then (r + 1, 0) else (r, c + 1)) (0, 0)

def findLineEnd (text : Buf) : Nat → Nat → Nat
  | 0, p => p
  | fuel + 1, p => if p < textCap ∧ text p ≠ newline then findLineEnd text fuel (p + 1) else p

def findLineStart (text : Buf) : Nat → Nat
  | 0 => 0
  | p + 1 => if text p ≠ newline then findLineStart text p else p + 1

def rightInLine : Nat → Dinv → Dinv
  | 0, s => s
  | k + 1, s =>
    if s.gapEnd = textCap ∨ s.text s.gapEnd = newline then s else rightInLine k s.cursorRight

def leftToColumn (col : Nat) : Nat → Dinv → Dinv
  | 0, s => s
  | colTemp + 1, s => if col < colTemp + 1 then leftToColumn col colTemp s.cursorLeft else s

def cursorDown : Dinv :=
  let col := s.cursorRowcol.2
  let p := findLineEnd s.text textCap s.gapEnd
  if p = textCap then s else rightInLine col (rightUntil (p + 1) textCap s)

def cursorUp : Dinv :=
  let col := s.cursorRowcol.2
  let p := findLineStart s.text s.gapStart
  if p = 0 then s
  else
    let s := leftUntil (p - 1) textCap s
    leftToColumn col s.cursorRowcol.2 s

/-! ### Commands -/

def complain (message : List UInt8) (ticks : UInt64) : Dinv :=
  { s with
    complaint := fun i => if i ≤ message.length then cstr message i else s.complaint i
    complaining := true
    complaintExpiry := ticks + 5000 }

def call (c : FileCall) : Dinv := { s with calls := s.calls ++ [c] }

def failedToSave : List UInt8 := [70, 97, 105, 108, 101, 100, 32, 116, 111, 32, 115, 97, 118, 101]

def commandNotFound : List UInt8 :=
  [67, 111, 109, 109, 97, 110, 100, 32, 110, 111, 116, 32, 102, 111, 117, 110, 100]

def quit : Dinv := { s with running := false, scrollback := true }

def save (env : SaveEnv) : Dinv :=
  let s := rightUntil textCap textCap s
  let s := if env.resolved = none then s.call .touch else s
  match env.resolvedAgain with
  | none => s.complain failedToSave env.ticks
  | some (inoFs, ino) =>
    let s := s.call (.fsave inoFs ino s.text s.gapStart)
    if env.fsaved then s else s.complain failedToSave env.ticks

def saveQuit (env : SaveEnv) : Dinv :=
  let s := s.save env
  if s.complaining then s else s.quit

def cmds : List (List UInt8 × (SaveEnv → Dinv → Dinv)) :=
  [([113], fun _ s => s.quit),
   ([119], fun env s => s.save env),
   ([119, 113], fun env s => s.saveQuit env),
   ([113, 97], fun _ s => s.quit),
   ([119, 97], fun env s => s.save env),
   ([119, 113, 97], fun env s => s.saveQuit env)]

/-- The loop over `cmds`: whether a name matched, and the state after the commands that did. -/
def runCommands (env : SaveEnv) : List (List UInt8 × (SaveEnv → Dinv → Dinv)) → Bool × Dinv → Bool × Dinv
  | [], found => found
  | (name, fn) :: cmds, (found, s) =>
    if streq s.cmdBuf name then runCommands env cmds (true, fn env s) else runCommands env cmds (found, s)

/-! ### Keys -/

def handleCommand (env : SaveEnv) (c : UInt8) : Dinv :=
  let s := { s with mode := .command }
  if 0x80 ≤ c then s
  else if c = keyEsc then { s with mode := .normal, replacementStatus := .cmd, cmdLen := 0 }
  else if c = keyBackspace then
    if 0 < s.cmdLen then { s with cmdLen := s.cmdLen - 1, replacementStatus := .cmd } else s
  else if c = newline then
    let s := { s with cmdBuf := Function.update s.cmdBuf s.cmdLen 0 }
    let (found, s) := runCommands env cmds (false, s)
    let s := if found then s else s.complain commandNotFound env.ticks
    { s with mode := .normal, replacementStatus := .cmd, cmdLen := 0 }
  else if s.cmdLen < cmdBufSize - 1 then
    { s with
      cmdBuf := Function.update s.cmdBuf s.cmdLen c
      cmdLen := s.cmdLen + 1
      replacementStatus := .cmd }
  else s

def handleInsert (c : UInt8) : Dinv :=
  let s := { s with mode := .insert }
  if 0x80 ≤ c then s
  else if c = keyEsc then { s with mode := .normal }
  else if c = keyBackspace then
    if 0 < s.gapStart then
      { s with
        replacementStatus := if s.text (s.gapStart - 1) = newline then .below else .tail
        gapStart := s.gapStart - 1 }
    else s
  else if s.gapStart = s.gapEnd then s
  else
    { s with
      replacementStatus := if c = newline then .below else .tail
      text := Function.update s.text s.gapStart c
      gapStart := s.gapStart + 1 }

def handleNormal (c : UInt8) : Dinv :=
  let s := { s with mode := .normal }
  if c = 58 then { s with cmdLen := 0, mode := .command, replacementStatus := .cmd, complaining := false }
  else if c = 105 then { s with mode := .insert }
  else if c = 97 then { s.cursorRight with mode := .insert }
  else if c = 104 then s.cursorLeft
  else if c = 106 then s.cursorDown
  else if c = 107 then s.cursorUp
  else if c = 108 then s.cursorRight
  else s

def handle (env : SaveEnv) (handler : Mode) (c : UInt8) : Dinv :=
  match handler with
  | .normal => s.handleNormal c
  | .insert => s.handleInsert c
  | .command => s.handleCommand env c

/-! ### Opening a file -/

def start : Dinv :=
  { s with
    running := true
    mode := .normal
    gapStart := 0
    gapEnd := textCap
    cmdLen := 0
    complaining := false
    replacementStatus := .full }

def loadBytes : List UInt8 → Dinv → Dinv
  | [], s => s
  | b :: bytes, s =>
    loadBytes bytes { s with text := Function.update s.text s.gapStart b, gapStart := s.gapStart + 1 }

/-- The loop over the chunks of the file; `none` is a chunk that cannot be read. -/
def loadChunks (readChunk : Nat → Option (List UInt8)) : Nat → Nat → Dinv → Option Dinv
  | 0, _, _ => none
  | fuel + 1, n, s =>
    match readChunk n with
    | none => none
    | some [] => some s
    | some chunk => loadChunks readChunk fuel (n + 1) (loadBytes chunk s)

def chunkOf (file : List UInt8) (n : Nat) : Option (List UInt8) := some ((file.drop (blockSize * n)).take blockSize)

/-- `app_dinv` up to its loop over the keys. A file of `TEXT_CAP` bytes or more is refused. -/
def openFile (file : List UInt8) : Option Dinv :=
  if textCap ≤ file.length then none
  else loadChunks (chunkOf file) (textCap / blockSize + 1) 0 s.start

end Dinv

end DeprecatOS
