import DeprecatOS.LookupPath

/-!
# Mounting

`mount_fs` and `umount_fs`. A partition after the root's in `fs_entries` is found by its label and
mounted on the directory of that name in `/mnt`; its entry then holds the inode number of the
directory. An entry that holds 0 is not mounted.
-/

namespace DeprecatOS

open Bytes Bits Fault

def fsInfoLabelLen : Nat := 17

def mountPathSeed : List UInt8 := [47, 109, 110, 116, 47]

def labelEq (label b : Buf) : Bool :=
  (List.range (scanName label fsInfoLabelLen 0 + 1)).all fun i => label i = b i

def FsInfo.volName (fs : FsInfo) (j : Nat) : UInt8 := fs.sprblkBuf (120 + j)

def FsInfo.fsState (fs : FsInfo) : UInt16 := load16 fs.sprblkBuf 58

def FsInfo.setFsState (fs : FsInfo) (state : UInt16) : FsInfo :=
  { fs with sprblkBuf := store16 fs.sprblkBuf 58 state }

def markFsState (setValid : Bool) : FsM Unit := do
  let fs ← get
  set (fs.setFsState (if setValid then fs.fsState ||| 1 else fs.fsState &&& ~~~1))
  writeSuperblk

def setMountpoint (inodeN : UInt32) : FsM Unit := modify fun fs => { fs with mountpoint := inodeN }

def Machine.setLabel (m : Machine) (i : Slot) (label : Buf) : Machine :=
  { m with label := Function.update m.label i label }

/-- The loop that copies the volume name into the label of entry `i`, from `j` on. It returns false at a
slash, which also empties the label, and otherwise whether the name has a character. -/
def copyLabel (i : Slot) : Nat → Nat → Bool → MachineM (Option Bool)
  | 0, _, foundChar => pure (some foundChar)
  | fuel + 1, j, foundChar => do
      let m ← get
      let c := (m.fsEntries i).volName j
      if c = slash then
        set (m.setLabel i (Function.update (m.label i) 0 0))
        pure none
      else
        set (m.setLabel i (Function.update (m.label i) j c))
        copyLabel i fuel (j + 1) (foundChar || c ≠ 0)

/-- The entries that `mount_fs` and `umount_fs` look at: those after the root's that hold a partition. -/
def Machine.candidates (m : Machine) : List Slot :=
  (List.finRange 8).filter fun i => m.rootFs < i ∧ (m.fsEntries i).sectorCount ≠ 0

def mountPath (label : Buf) : Buf := fun k =>
  if k < 5 then cstr mountPathSeed k else if k < 5 + fsInfoLabelLen then label (k - 5) else 0

/-- The part of `mount_fs` that follows the checks on the label. -/
def mountOn (stack : Buf) (i : Slot) : MachineM Bool := do
  let m ← get
  match ← lookupPath stack (mountPath (m.label i)) false with
  | none => pure false
  | some (mountFs, mountInodeN) =>
    if mountFs ≠ m.rootFs then pure false
    else
      match ← onFs m.rootFs (getInode mountInodeN) with
      | none => pure false
      | some mountInode =>
        if mountInode.type ≠ inodeDirType then pure false
        else
          onFs i (do setMountpoint mountInodeN; markFsState false)
          pure true

/-- `mount_fs` for the entry `i` that has the label. -/
def mountEntry (stack : Buf) (i : Slot) (label : Buf) : MachineM Bool := do
  let m ← get
  if (m.fsEntries i).mountpoint ≠ 0 then pure false
  else if streq label dot || streq label dotDot then pure false
  else
    match ← copyLabel i 16 0 false with
    | none => pure false
    | some false => pure false
    | some true =>
      modify fun m => m.setLabel i (Function.update (m.label i) (fsInfoLabelLen - 1) 0)
      let m ← get
      if m.candidates.any fun j => j ≠ i && labelEq (m.label i) (m.label j) then pure false
      else mountOn stack i

def mountFs (stack label : Buf) : MachineM Bool := do
  let m ← get
  match m.candidates.find? fun i => labelEq (m.label i) label with
  | none => pure false
  | some i => mountEntry stack i label

def umountFs (label : Buf) : MachineM Bool := do
  let m ← get
  match m.candidates.find? fun i => labelEq (m.label i) label with
  | none => pure false
  | some i =>
    if (m.fsEntries i).mountpoint = 0 then pure false
    else
      onFs i (do markFsState true; setMountpoint 0)
      pure true

end DeprecatOS
