import DeprecatOS.Depsh

/-!
# Removing a tree of directories

`rm_tree` of `rm.c`. It looks for the first entry of a directory that is neither `.` nor `..`, removes it, with all that
is below it when it is a directory, and starts over with the first chunk. When there is no such entry any more, the
directory itself is removed. All levels of the recursion read chunks into the one `fs_buf`; the name of the child is in a
local array. The time may be another one at every system call.
-/

namespace DeprecatOS

open Bytes Bits Fault

/-- The shell with what `rm` uses besides: `fs_buf`, `*warned`, the messages it has written, and the number of system
calls so far that looked at the clock. -/
structure Rm where
  shell : Depsh
  fsBuf : Buf
  warned : Bool
  out : List String
  calls : Nat

abbrev RmM := Prog Stop Rm

namespace Rm

abbrev machine (s : Rm) : Machine := s.shell.machine

def withMachine (s : Rm) (m : Machine) : Rm := { s with shell := { s.shell with machine := m } }

def inKernel {α : Type} (prog : MachineM α) : RmM α := zoom Rm.machine (fun m s => s.withMachine m) prog

/-! ### System calls -/

def readChunkCall (fs inodeN chunkNum : UInt32) : RmM UInt32 := do
  match (← get).machine.fsFromIndex fs with
  | none => pure syscallError
  | some fs =>
    match ← inKernel (chunkInode fs inodeN) with
    | none => pure syscallError
    | some (fs, ino) =>
      if blocksFor ino.sizeLo ≤ chunkNum then pure 0
      else
        match ← inKernel (onFs fs (readChunk ino chunkNum)) with
        | none => pure syscallError
        | some buf =>
          modify fun s => { s with fsBuf := fun k => if k < 4096 then buf k else s.fsBuf k }
          pure (chunkLen ino chunkNum)

def isMountpointCall (fs inodeN : UInt32) : RmM UInt32 := do
  match (← get).machine.fsFromIndex fs with
  | none => pure syscallError
  | some fs =>
    let (found, _) ← inKernel (returnMntRoot fs inodeN)
    pure (if found then 1 else 0)

def time (clock : Nat → UInt32) : RmM UInt32 := do
  let s ← get
  set { s with calls := s.calls + 1 }
  pure (clock s.calls)

def removeCall (unlink : UInt32 → Slot → UInt32 → Buf → MachineM Bool) (clock : Nat → UInt32) (fs inodeN : UInt32)
    (name : Buf) : RmM UInt32 := do
  match (← get).machine.fsFromIndex fs with
  | none => pure syscallError
  | some fs =>
    let now ← time clock
    let done ← inKernel (unlink now fs inodeN name)
    pure (statusOf done)

def rmInode (clock : Nat → UInt32) (fs inodeN : UInt32) (name : Buf) : RmM UInt32 :=
  removeCall unlinkInode clock fs inodeN name

def rmDir (clock : Nat → UInt32) (fs inodeN : UInt32) (name : Buf) : RmM UInt32 :=
  removeCall unlinkDir clock fs inodeN name

def warn (message : String) : RmM Unit :=
  modify fun s => { s with out := s.out ++ [message], warned := true }

/-! ### The first child -/

/-- How the search for a child ends: a malformed record or a read error, no child, or the name, the number and the
type of one. -/
inductive Found where
  | failed
  | nothing
  | child (name : Buf) (childN : UInt32) (isDir : Bool)

/-- `child_name`, copied from the record at `pos`. The rest of the array is whatever was on the stack. -/
def childName (stack blkBytes : Buf) (pos nameLen : Nat) : Buf := fun k =>
  if k < nameLen then blkBytes (pos + 8 + k) else if k = nameLen then 0 else stack k

/-- The loop over the records of a chunk of `r` bytes, from `pos` on. Each round moves `pos` forward. -/
def scanChunk (stack blkBytes : Buf) (r : Nat) : Nat → Nat → Found
  | 0, _ => .nothing
  | fuel + 1, pos =>
    if pos < r then
      let inode := entryInode blkBytes pos
      let advanceAmt := entrySize blkBytes pos
      let nameLen := entryNameLen blkBytes pos
      if advanceAmt < 8 ∨ advanceAmt < 8 + nameLen ∨ r < pos + advanceAmt then .failed
      else
        let isDot := nameLen = 1 ∧ blkBytes (pos + 8) = 46
        let isDot2 := nameLen = 2 ∧ blkBytes (pos + 8) = 46 ∧ blkBytes (pos + 9) = 46
        if inode ≠ 0 ∧ ¬ isDot ∧ ¬ isDot2 then
          .child (childName stack blkBytes pos nameLen) inode (blkBytes (pos + 7) = 2)
        else scanChunk stack blkBytes r fuel (pos + advanceAmt)
    else .nothing

def chunkLimit : Nat := 1048577

/-- The loop over the chunks of a directory, from `chunk` on. -/
def findChild (stack : Buf) (fs dirN : UInt32) : Nat → UInt32 → RmM Found
  | 0, _ => pure .nothing
  | fuel + 1, chunk => do
      let r ← readChunkCall fs dirN chunk
      if r = 0 then pure .nothing
      else if r = syscallError then do
        warn "rm: unknown read error\n"
        pure .failed
      else
        match scanChunk stack (← get).fsBuf r.toNat blockSize 0 with
        | .nothing => findChild stack fs dirN fuel (chunk + 1)
        | found => pure found

/-! ### The tree -/

/-- `rm_tree`: what it returns, or nothing when it has not returned after `fuel` rounds on top of one another. A round
of its loop leaves nothing behind that the next one reads, so the rounds that follow are a call with the same
arguments. -/
def rmTree (clock : Nat → UInt32) (stack : Buf) (fs : UInt32) : Nat → UInt32 → Buf → UInt32 → RmM (Option Bool)
  | 0, _, _, _ => pure none
  | fuel + 1, parentN, name, dirN => do
      match ← findChild stack fs dirN chunkLimit 0 with
      | .failed => pure (some false)
      | .nothing => do
          let status ← rmDir clock fs parentN name
          pure (some (status ≠ syscallError))
      | .child childName childN childIsDir =>
        if childIsDir then
          if (← isMountpointCall fs childN) ≠ 0 then do
            warn "rm: busy dir\n"
            pure (some false)
          else
            match ← rmTree clock stack fs fuel dirN childName childN with
            | none => pure none
            | some false => pure (some false)
            | some true => rmTree clock stack fs fuel parentN name dirN
        else if (← rmInode clock fs dirN childName) = syscallError then pure (some false)
        else rmTree clock stack fs fuel parentN name dirN

end Rm

end DeprecatOS
