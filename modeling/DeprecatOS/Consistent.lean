import DeprecatOS.BlockController
import DeprecatOS.Tree

/-!
# Consistent filesystems

What block ownership means. The inode tables are static metadata. An allocated inode owns the blocks of
its tree, unless it is a symbolic link that keeps its target in the place of the block pointers. In a
consistent filesystem every block in use is static metadata or has one owner, which references it
once.
-/

namespace DeprecatOS

open Bytes Bits Fault PointerTree

/-- Where the inode records are: whole records in blocks that are static metadata, written by nobody
else, and not shared between groups. -/
structure Layout (static : UInt32 → Prop) (fs : FsInfo) : Prop where
  inodeSize_ge : 128 ≤ fs.inodeSize.toNat
  inodeSize_dvd : fs.inodeSize.toNat ∣ blockSize
  static : ∀ n, fs.geo.Real .inode n → static (fs.inodeSlot n).1
  notBook : ∀ n, fs.geo.Real .inode n → fs.geo.isBook (fs.inodeSlot n).1 = false
  apart : ∀ m n, fs.geo.Real .inode m → fs.geo.Real .inode n →
    (fs.inodeSlot m).1 = (fs.inodeSlot n).1 → (m - 1) / fs.inodesPerGrp = (n - 1) / fs.inodesPerGrp

def FsInfo.record (fs : FsInfo) (n : UInt32) : Inode :=
  Inode.load (fs.data (fs.inodeSlot n).1) (fs.inodeSlot n).2

def Inode.Inline (inode : Inode) : Prop := inode.type = inodeSymlinkType ∧ inode.diskSectors = 0

instance (inode : Inode) : Decidable inode.Inline := by
  unfold Inode.Inline
  infer_instance

/-- An allocated inode that has block pointers. -/
def FsInfo.Owner (fs : FsInfo) (n : UInt32) : Prop := fs.marked .inode n = true ∧ ¬ (fs.record n).Inline

def FsInfo.owns (fs : FsInfo) (n : UInt32) : List UInt32 := refs fs.entries (fs.record n)

/-- The file blocks of a size: `ceil(size / 4096)`. -/
def sizeBlocks (size : UInt32) : Nat := (size.toNat + 4095) / 4096

/-- The largest size whose number of blocks does not overflow: `2 ^ 32 - 4096`. -/
def maxSize : Nat := 4294963200

/-- The tree of an inode is well formed, maps nothing past the end of the file, and `disk_sectors`
counts its blocks. -/
structure InodeOk (static : UInt32 → Prop) (fs : FsInfo) (inode : Inode) : Prop where
  tree : TreeOk static fs inode
  short : ∀ j < fileBlkLimit, sizeBlocks inode.sizeLo ≤ j → mapped fs.entries inode j = 0
  sectors : inode.diskSectors.toNat = 8 * (refs fs.entries inode).length

/-- Every block in use is static metadata or is referenced exactly once, by exactly one inode. -/
structure Consistent (static : UInt32 → Prop) (fs : FsInfo) : Prop where
  mounted : Mounted static fs
  layout : Layout static fs
  inode : ∀ n, fs.Owner n → InodeOk static fs (fs.record n)
  apart : ∀ m n, fs.Owner m → fs.Owner n → m ≠ n → (fs.owns m).Disjoint (fs.owns n)
  covered : ∀ b, fs.Used b → static b ∨ ∃ n, fs.Owner n ∧ b ∈ fs.owns n

/-- Byte `k` of a file; a hole reads as zero. -/
def FsInfo.byte (fs : FsInfo) (inode : Inode) (k : Nat) : UInt8 :=
  if mapped fs.entries inode (k / blockSize) = 0 then 0
  else fs.data (mapped fs.entries inode (k / blockSize)) (k % blockSize)

/-- The record of inode `n`, the bytes of its file and its holes are the same in both states. -/
structure SameFile (fs fs' : FsInfo) (n : UInt32) : Prop where
  record : fs'.record n = fs.record n
  holes : fs.Owner n → ∀ j < fileBlkLimit,
    mapped fs'.entries (fs'.record n) j = 0 ↔ mapped fs.entries (fs.record n) j = 0
  bytes : fs.Owner n → ∀ k < (fs.record n).sizeLo.toNat,
    fs'.byte (fs'.record n) k = fs.byte (fs.record n) k

end DeprecatOS
