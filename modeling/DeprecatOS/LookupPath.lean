import DeprecatOS.DirectoryController

/-!
# Path resolution

`lookup_path`. The path is walked component by component from the root. When a component is a symbolic
link, its target is spliced into the text of the path in its place and the walk starts over, at most
eight times.
-/

namespace DeprecatOS

open Bytes Bits Fault

def symlinkMaxDepth : Nat := 8

def pathLen : Nat := 4096

def slash : UInt8 := 47

/-- The loop that looks for the end of a component: `c` is the last character read and `j` the index of
the next one. -/
def componentLoop (p : Buf) (len : Nat) : Nat → UInt8 → Nat → Nat
  | 0, _, j => j
  | fuel + 1, c, j =>
    if c = slash then j
    else if len ≤ j then len + 1
    else componentLoop p len fuel (p j) (j + 1)

def componentEnd (p : Buf) (len ind : Nat) : Nat :=
  let j := componentLoop p len (len + 2) (p ind) ind - 1
  if j < ind then ind else j

/-- `name`: the component from `ind` up to `j` and a terminating zero. The rest of the array is whatever
was on the stack. -/
def componentName (stack p : Buf) (ind j : Nat) : Buf := fun k =>
  if k < j - ind then p (ind + k) else if k = j - ind then 0 else stack k

def lookupInBlocks (ino : Inode) (name : Buf) : Nat → UInt32 → FsM (Option UInt32)
  | 0, _ => pure none
  | cnt + 1, relativeBlk => do
      match ← readFileBlock ino relativeBlk with
      | none => pure none
      | some (_, blkBuf) =>
        match lookup blkBuf name blockSize with
        | .error stop => fault stop
        | .ok (some inodeN) => pure (some inodeN)
        | .ok none => lookupInBlocks ino name cnt (relativeBlk + 1)

def linkText (ino : Inode) : FsM Buf :=
  if ino.diskSectors = 0 then pure fun k => ino.store zero 0 (40 + k)
  else readBlock (ino.dirBlockPtr 0)

/-- The new text of the path: what stands before the component when the target is relative, the target,
and what stands behind the component. There is none when the text is too long. The bytes behind
the text, past its terminating zero, are never read. -/
def splicePath (p : Buf) (ind j len : Nat) (target : Buf) (tlen : Nat) : Option Buf :=
  let kept := if target 0 ≠ slash then ind else 0
  if pathLen - 1 < kept + tlen ∨ pathLen - 1 < kept + tlen + (len - j) then none
  else some fun k =>
    if k < kept then p k
    else if k < kept + tlen then target (k - kept)
    else if k < kept + tlen + (len - j) then p (j + (k - (kept + tlen)))
    else 0

inductive PathWalk where
  | failed
  | arrived (fs : Slot) (inodeN : UInt32)
  | spliced (p : Buf)

/-- The target of the link `ino` takes the place of the component from `ind` to `j`. A target kept in the
inode that is longer than what follows its block pointers there is read past the end of the
inode. -/
def spliceLink (fs : Slot) (ino : Inode) (p : Buf) (ind j len : Nat) : MachineM PathWalk := do
  let target ← onFs fs (linkText ino)
  let tlen := ino.sizeLo.toNat
  let kept := if target 0 ≠ slash then ind else 0
  if ino.diskSectors = 0 ∧ 88 < min tlen (pathLen - 1 - kept) then fault .undefined
  else
    match splicePath p ind j len target tlen with
    | none => pure .failed
    | some p => pure (.spliced p)

/-- The walk over the path from `ind` on. Each round moves `ind` forward. -/
def walkPath (followLeafLink : Bool) (stack p : Buf) (len : Nat) :
    Nat → Nat → Slot → UInt32 → MachineM PathWalk
  | 0, _, _, _ => pure .failed
  | fuel + 1, ind, currFs, currInodeNum => do
      if ind < len then
        let j := componentEnd p len ind
        if j - ind = 0 then walkPath followLeafLink stack p len fuel (j + 1) currFs currInodeNum
        else if nameLen ≤ j - ind then pure .failed
        else
          let (_, currFs, currInodeNum) ← returnMntRoot currFs currInodeNum
          match ← onFs currFs (getInode currInodeNum) with
          | none => pure .failed
          | some ino =>
            if ino.type ≠ inodeDirType then pure .failed
            else
              match ← onFs currFs
                  (lookupInBlocks ino (componentName stack p ind j) (blocksFor ino.sizeLo).toNat 0) with
              | none => pure .failed
              | some currInodeNum =>
                match ← onFs currFs (getInode currInodeNum) with
                | none => pure .failed
                | some ino =>
                  let (_, currFs, currInodeNum) ← returnMntMountpoint currFs currInodeNum
                  if j = len ∧ followLeafLink = false then pure (.arrived currFs currInodeNum)
                  else if ino.type = inodeSymlinkType then spliceLink currFs ino p ind j len
                  else walkPath followLeafLink stack p len fuel (j + 1) currFs currInodeNum
      else pure (.arrived currFs currInodeNum)

/-- At most `passes` walks, each over the text that the one before has left. -/
def walkPasses (followLeafLink : Bool) (stack : Buf) : Nat → Buf → MachineM (Option (Slot × UInt32))
  | 0, _ => pure none
  | passes + 1, p => do
      let len := scanName p pathLen 0
      if len = pathLen then pure none
      else
        match ← walkPath followLeafLink stack p len (len + 1) 1 (← get).rootFs rootInodeN with
        | .failed => pure none
        | .arrived fs inodeN => pure (some (fs, inodeN))
        | .spliced p => walkPasses followLeafLink stack passes p

/-- `lookup_path`: the filesystem and the inode number it leaves when it returns true. Its first argument
is not used in the source. -/
def lookupPath (stack path : Buf) (followLeafLink : Bool) : MachineM (Option (Slot × UInt32)) :=
  if path 0 ≠ slash then pure none
  else walkPasses followLeafLink stack (symlinkMaxDepth + 1) path

end DeprecatOS
