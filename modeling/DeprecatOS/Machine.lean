import DeprecatOS.BlockController

/-!
# The mounted filesystems

All filesystems of the machine, one of which is the root. A filesystem is mounted on a directory of the
root: `return_mnt_root` goes from that directory to the root directory of the mounted filesystem, and
`return_mnt_mountpoint` goes back.
-/

namespace DeprecatOS

open Bytes Bits Fault

/-- An index of `fs_entries`, and the pointer to that entry. -/
abbrev Slot := Fin 8

scoped instance neZeroSlots : NeZero 8 := ⟨by decide⟩

/-- `fs_entries` and `root_fs`. The label of an entry is apart from the rest of `struct fs_info`, which
the code of one filesystem never reads it with. -/
structure Machine where
  fsEntries : Slot → FsInfo
  rootFs : Slot
  label : Slot → Buf

abbrev MachineM := Prog Stop Machine

def Machine.withFs (m : Machine) (fs : Slot) (info : FsInfo) : Machine :=
  { m with fsEntries := Function.update m.fsEntries fs info }

/-- The program runs on one filesystem. -/
def onFs {α : Type} (fs : Slot) (prog : FsM α) : MachineM α :=
  zoom (fun m => m.fsEntries fs) (fun info m => m.withFs fs info) prog

/-- What `return_mnt_root` returns, and what it leaves in `*out_fs` and `*out_inode_n`. -/
def Machine.mntRoot (m : Machine) (fs : Slot) (inodeN : UInt32) : Bool × Slot × UInt32 :=
  if fs ≠ m.rootFs then (false, fs, inodeN)
  else
    match (List.finRange 8).find? fun part => (m.fsEntries part).mountpoint = inodeN with
    | some part => (true, part, rootInodeN)
    | none => (false, fs, inodeN)

def returnMntRoot (fs : Slot) (inodeN : UInt32) : MachineM (Bool × Slot × UInt32) := do
  pure ((← get).mntRoot fs inodeN)

/-- What `return_mnt_mountpoint` returns, and what it leaves in `*out_fs` and `*out_inode_n`. -/
def Machine.mntMountpoint (m : Machine) (fs : Slot) (inodeN : UInt32) : Bool × Slot × UInt32 :=
  if fs = m.rootFs ∨ inodeN ≠ rootInodeN then (false, fs, inodeN)
  else (true, m.rootFs, (m.fsEntries fs).mountpoint)

def returnMntMountpoint (fs : Slot) (inodeN : UInt32) : MachineM (Bool × Slot × UInt32) := do
  pure ((← get).mntMountpoint fs inodeN)

end DeprecatOS
