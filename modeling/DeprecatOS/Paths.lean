import DeprecatOS.Directory
import DeprecatOS.LookupPath
import DeprecatOS.Lib.NameSpace

/-!
# What paths mean

A well-formed filesystem is a name space: its directories assign inode numbers to names of up to 255 characters, and its
symbolic links stand for their targets. The mounted filesystems together are one name space too, in which a place is an
inode of one of them: a mountpoint leads down to the root of the filesystem mounted there, and such a root leads up to
the mountpoint.
-/

namespace DeprecatOS

open Bytes Bits Fault NameSpace

abbrev Text := List UInt8

def textOf (p : Buf) : Text := (List.range (scanName p pathLen 0)).map p

/-! ### One filesystem -/

def FsInfo.IsDir (fs : FsInfo) (n : UInt32) : Prop :=
  fs.marked .inode n = true ∧ (fs.record n).type = inodeDirType

def FsInfo.target (fs : FsInfo) (inode : Inode) : Text :=
  (List.range inode.sizeLo.toNat).map fun k =>
    if inode.diskSectors = 0 then inode.store zero 0 (40 + k) else fs.byte inode k

/-- A link has a target of characters other than zero, in the inode or in its first block. -/
structure LinkOk (fs : FsInfo) (inode : Inode) : Prop where
  pos : 0 < inode.sizeLo.toNat
  short : inode.diskSectors = 0 → inode.sizeLo.toNat ≤ maxSymlinkLen
  block : inode.diskSectors ≠ 0 → inode.sizeLo.toNat < blockSize ∧ mapped fs.entries inode 0 ≠ 0
  text : ∀ c ∈ fs.target inode, c ≠ 0

/-- A consistent filesystem with a root directory, whose directories are well formed and name allocated inodes by names
of 7-bit characters, and whose links have targets. -/
structure GoodFs (static : UInt32 → Prop) (fs : FsInfo) : Prop where
  consistent : Consistent static fs
  root : fs.IsDir rootInodeN
  dir : ∀ n, fs.IsDir n → DirOk fs (fs.record n)
  names : ∀ n, fs.IsDir n → ∀ e ∈ fs.dirEntries (fs.record n), NameOk e.name
  entry : ∀ n, fs.IsDir n → ∀ e ∈ fs.dirEntries (fs.record n), fs.marked .inode e.inode = true
  link : ∀ n, fs.marked .inode n = true → (fs.record n).type = inodeSymlinkType → LinkOk fs (fs.record n)

/-- What a lookup reads of a filesystem: the blocks of directories and links, directories that are well formed and name
allocated inodes, by names without a zero, and links that have targets. -/
structure ReadableFs (static : UInt32 → Prop) (fs : FsInfo) : Prop where
  mounted : Mounted static fs
  layout : Layout static fs
  tree : ∀ n, fs.Owner n → TreeOk static fs (fs.record n)
  root : fs.IsDir rootInodeN
  dir : ∀ n, fs.IsDir n → DirOk fs (fs.record n)
  named : ∀ n, fs.IsDir n → ∀ e ∈ fs.dirEntries (fs.record n), ∀ c ∈ e.name, 0 < c
  entry : ∀ n, fs.IsDir n → ∀ e ∈ fs.dirEntries (fs.record n), fs.marked .inode e.inode = true
  link : ∀ n, fs.marked .inode n = true → (fs.record n).type = inodeSymlinkType → LinkOk fs (fs.record n)

def FsInfo.child (fs : FsInfo) (d : UInt32) (name : Name) : Option UInt32 :=
  (findEntry (fs.dirEntries (fs.record d)) name).map DirEntry.inode

def FsInfo.space (fs : FsInfo) : Space UInt32 UInt8 where
  root := rootInodeN
  child d name :=
    if nameLen ≤ name.length ∨ (fs.record d).type ≠ inodeDirType then none else fs.child d name
  link n := if (fs.record n).type = inodeSymlinkType then some (fs.target (fs.record n)) else none

/-! ### All filesystems -/

def Machine.Live (m : Machine) (i : Slot) : Prop := i = m.rootFs ∨ (m.fsEntries i).mountpoint ≠ 0

/-- The filesystems that are mounted can be read, and are mounted on directories of the root. -/
structure Machine.Readable (static : Slot → UInt32 → Prop) (m : Machine) : Prop where
  fs : ∀ i, m.Live i → ReadableFs (static i) (m.fsEntries i)
  root : (m.fsEntries m.rootFs).mountpoint = 0
  mountpoint : ∀ i, (m.fsEntries i).mountpoint ≠ 0 →
    (m.fsEntries m.rootFs).IsDir (m.fsEntries i).mountpoint

abbrev Place := Slot × UInt32

def Machine.space (m : Machine) : Space Place UInt8 where
  root := (m.rootFs, rootInodeN)
  child place name :=
    let dir := (m.mntRoot place.1 place.2).2
    ((m.fsEntries dir.1).space.child dir.2 name).map fun n => (m.mntMountpoint dir.1 n).2
  link place := (m.fsEntries place.1).space.link place.2

/-- The name space as a search sees it, which finds no name that has a character of eight bits. -/
def Machine.visible (m : Machine) : Space Place UInt8 where
  root := m.space.root
  child place name := if name.all (· < 128) then m.space.child place name else none
  link := m.space.link

def Machine.Valid (m : Machine) (place : Place) : Prop :=
  m.Live place.1 ∧ (m.fsEntries place.1).marked .inode place.2 = true

end DeprecatOS
