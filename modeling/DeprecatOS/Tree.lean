import DeprecatOS.MapFileBlock
import DeprecatOS.View
import DeprecatOS.Lib.PointerTree
import Mathlib.Data.UInt

/-!
# The blocks of a file

An inode has fifteen block pointers: twelve to data blocks and one to a tree of pointer blocks of each
of the heights 1, 2 and 3. Together they are a sparse map from file block indices to disk blocks. A
tree is well formed when its blocks are distinct, in use and not static metadata, and no pointer
block in it is all zero.
-/

namespace DeprecatOS

open Bytes Bits Fault PointerTree

/-! ### Blocks in use and static metadata -/

def FsInfo.Used (fs : FsInfo) (b : UInt32) : Prop := fs.marked .block b = true

instance (fs : FsInfo) (b : UInt32) : Decidable (fs.Used b) := by
  unfold FsInfo.Used
  infer_instance

/-- A sound filesystem inside its partition, whose static metadata (superblock, descriptors, bitmaps
and whatever else no file owns) is in use. -/
structure Mounted (static : UInt32 → Prop) (fs : FsInfo) : Prop where
  sound : fs.Sound
  sectors : 8 * fs.geo.blockCnt.toNat ≤ fs.geo.sectorCount
  book : ∀ b, fs.geo.isBook b = true → static b
  used : ∀ b, static b → fs.Used b

/-- From `fs` to `fs'` no inode was allocated or released, the bookkeeping changed for blocks only, and every
block in use that is not `touched` is still in use with the same contents. -/
structure Frame (static touched : UInt32 → Prop) (fs fs' : FsInfo) : Prop where
  mounted : Mounted static fs'
  geo : fs'.geo = fs.geo
  inodes : fs'.marked .inode = fs.marked .inode
  dirCnt : fs'.dirCnt = fs.dirCnt
  book : SameBook fs fs'
  used : ∀ b, fs.Used b → ¬ touched b → fs'.Used b
  data : ∀ b, fs.Used b → ¬ touched b → fs'.data b = fs.data b

/-! ### The tree of an inode -/

def FsInfo.entries (fs : FsInfo) : Store UInt32 := fun p k => ptr (fs.data p) k

def Inode.root (inode : Inode) (r : Nat) : UInt32 :=
  if hr : r < 12 then inode.dirBlockPtr ⟨r, hr⟩
  else if r = 12 then inode.singlyIndirBlockPtr
  else if r = 13 then inode.doublyIndirBlockPtr
  else if r = 14 then inode.triplyIndirBlockPtr
  else 0

/-- How many layers of pointer blocks are below a block pointer. -/
def rootHeight (r : Nat) : Nat := r - 11

/-- The number of file block indices: 12 + 1024 + 1024^2 + 1024^3. -/
def fileBlkLimit : Nat := 1074791436

/-- The block pointer that a file block index goes through, and the index below it. -/
def locate (idx : Nat) : Nat × Nat :=
  if idx < 12 then (idx, 0)
  else if idx < 1036 then (12, idx - 12)
  else if idx < 1049612 then (13, idx - 1036)
  else (14, idx - 1049612)

def refs (c : Store UInt32) (inode : Inode) : List UInt32 :=
  forest ptrsPerBlk c rootHeight inode.root 15

def mapped (c : Store UInt32) (inode : Inode) (idx : Nat) : UInt32 :=
  find ptrsPerBlk c (rootHeight (locate idx).1) (inode.root (locate idx).1) (locate idx).2

/-- The pointer blocks among the blocks of an inode. -/
def IsNode (c : Store UInt32) (inode : Inode) (b : UInt32) : Prop :=
  ∃ r < 15, b ∈ nodes ptrsPerBlk c (rootHeight r) (inode.root r)

structure TreeOk (static : UInt32 → Prop) (fs : FsInfo) (inode : Inode) : Prop where
  nodup : (refs fs.entries inode).Nodup
  used : ∀ b ∈ refs fs.entries inode, fs.Used b
  notStatic : ∀ b ∈ refs fs.entries inode, ¬ static b
  full : ∀ r < 15, Full ptrsPerBlk fs.entries (rootHeight r) (inode.root r)

end DeprecatOS
