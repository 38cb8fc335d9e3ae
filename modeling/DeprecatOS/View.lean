import DeprecatOS.BitmapController
import Mathlib.Algebra.BigOperators.Group.Finset.Basic

/-!
# What a filesystem state means

The geometry is the part of `fs_info`, superblock and descriptor table that no operation changes. A
geometry is valid when its groups cover the blocks and inodes it counts and its bitmaps are distinct
blocks of their own. The counters agree when every free counter, in memory and on disk, is the number
of clear bits it stands for.

Everything above the bitmap controller depends on the state only through its view: the geometry, the
marked blocks and inodes, the directory counters and the contents of the blocks that are not
bookkeeping. Bookkeeping blocks read as zero in the view, so taking or releasing a bit changes the
marks of the view and nothing else.
-/

namespace DeprecatOS

open Bytes Bits Fault

structure Geo where
  sectorCount : Nat
  inodeSize : UInt32
  inodesPerGrp : UInt32
  blksPerGrp : UInt32
  ngroups : UInt32
  mountpoint : UInt32
  inodeCnt : UInt32
  blockCnt : UInt32
  superBlockNum : UInt32
  bitmapAddr : Kind → Nat → UInt32
  inodeTableStartAddr : Nat → UInt32

def FsInfo.geo (fs : FsInfo) : Geo where
  sectorCount := fs.sectorCount
  inodeSize := fs.inodeSize
  inodesPerGrp := fs.inodesPerGrp
  blksPerGrp := fs.blksPerGrp
  ngroups := fs.ngroups
  mountpoint := fs.mountpoint
  inodeCnt := fs.inodeCnt
  blockCnt := fs.blockCnt
  superBlockNum := fs.superBlockNum
  bitmapAddr := fs.bitmapAddr
  inodeTableStartAddr := fs.inodeTableStartAddr

namespace Geo

def perGrp (geo : Geo) : Kind → Nat
  | .block => geo.blksPerGrp.toNat
  | .inode => geo.inodesPerGrp.toNat

def countBits (geo : Geo) : Kind → Nat
  | .block => 8 * blockSize
  | .inode => geo.inodesPerGrp.toNat

def Real (geo : Geo) : Kind → UInt32 → Prop
  | .block, n => n < geo.blockCnt
  | .inode, n => 0 < n ∧ n ≤ geo.inodeCnt

instance (geo : Geo) (kind : Kind) (n : UInt32) : Decidable (geo.Real kind n) := by
  cases kind <;> unfold Real <;> infer_instance

def position : Kind → UInt32 → Nat
  | .block, n => n.toNat
  | .inode, n => n.toNat - 1

/-- The blocks that only the bitmap controller writes: superblock, descriptors and bitmaps. -/
def isBook (geo : Geo) (b : UInt32) : Bool :=
  b = 0 || b = bgdtBlkN ||
    (List.range geo.ngroups.toNat).any fun g =>
      geo.bitmapAddr .block g = b || geo.bitmapAddr .inode g = b

/-- The sectors of block `b` lie in the partition, and their number does not overflow. -/
def Holds (geo : Geo) (b : UInt32) : Prop := b.toNat < 536870912 ∧ 8 * b.toNat + 8 ≤ geo.sectorCount

/-- The geometry a filesystem must have for its bitmaps and counters to make sense. -/
structure Valid (geo : Geo) : Prop where
  perGrp_pos : ∀ kind, 0 < geo.perGrp kind
  perGrp_le : ∀ kind, geo.perGrp kind ≤ 32768
  inodesPerGrp_dvd : 8 ∣ geo.inodesPerGrp.toNat
  superBlockNum_eq : geo.superBlockNum = 0
  ngroups_eq : geo.ngroups.toNat
    = (geo.blockCnt.toNat + geo.blksPerGrp.toNat - 1) / geo.blksPerGrp.toNat
  ngroups_le : geo.ngroups.toNat ≤ 128
  inodeCnt_eq : geo.inodeCnt.toNat = geo.ngroups.toNat * geo.inodesPerGrp.toNat
  bitmapAddr_ge : ∀ kind, ∀ g < geo.ngroups.toNat, 2 ≤ (geo.bitmapAddr kind g).toNat
  bitmapAddr_lt : ∀ kind, ∀ g < geo.ngroups.toNat, geo.bitmapAddr kind g < geo.blockCnt
  bitmapAddr_holds : ∀ kind, ∀ g < geo.ngroups.toNat, geo.Holds (geo.bitmapAddr kind g)
  bitmapAddr_inj : ∀ kind kind', ∀ g < geo.ngroups.toNat, ∀ g' < geo.ngroups.toNat,
    geo.bitmapAddr kind g = geo.bitmapAddr kind' g' → kind = kind' ∧ g = g'

end Geo

namespace FsInfo

def bitmap (fs : FsInfo) (kind : Kind) (g : Nat) : Buf := fs.disk (fs.bitmapAddr kind g)

def marked (fs : FsInfo) (kind : Kind) (n : UInt32) : Bool :=
  decide (fs.geo.Real kind n) &&
    bit (fs.bitmap kind (Geo.position kind n / fs.geo.perGrp kind))
      (Geo.position kind n % fs.geo.perGrp kind)

/-- The free counters of every group and of the superblock, in memory and on disk, agree with the
bitmaps. Block 0, inode 1 and the bits past the last block of a group are never free. -/
structure Agree (fs : FsInfo) : Prop where
  cnt : ∀ kind, ∀ g < fs.ngroups.toNat,
    (fs.unallocCnt kind g).toNat = clearBits (fs.bitmap kind g) (fs.geo.countBits kind)
  total : ∀ kind, (fs.unallocTotal kind).toNat
    = ∑ g ∈ Finset.range fs.ngroups.toNat, (fs.unallocCnt kind g).toNat
  superblk : ∀ k < 1024, fs.disk 0 (1024 + k) = fs.sprblkBuf k
  bgdt : ∀ k < blockSize, fs.disk bgdtBlkN k = fs.bgdtBuf k
  first : ∀ kind, 0 < fs.ngroups.toNat → bit (fs.bitmap kind 0) 0 = true
  padding : ∀ g < fs.ngroups.toNat, ∀ i < 8 * blockSize,
    fs.blksPerGrp.toNat ≤ i ∨ fs.blockCnt.toNat ≤ g * fs.blksPerGrp.toNat + i →
      bit (fs.bitmap .block g) i = true

structure Sound (fs : FsInfo) : Prop where
  geo : fs.geo.Valid
  agree : fs.Agree

end FsInfo

/-- From `fs` to `fs'` the bookkeeping changed in the block bitmaps and in the counters of free blocks at most. -/
structure SameBook (fs fs' : FsInfo) : Prop where
  sprblk : ∀ k, ¬ (12 ≤ k ∧ k < 16) → fs'.sprblkBuf k = fs.sprblkBuf k
  bgdt : ∀ k, ¬ (k / 32 < fs.ngroups.toNat ∧ 12 ≤ k % 32 ∧ k % 32 < 14) → fs'.bgdtBuf k = fs.bgdtBuf k
  first : ∀ k, ¬ (1024 ≤ k ∧ k < 2048) → fs'.disk 0 k = fs.disk 0 k
  inodes : ∀ g < fs.ngroups.toNat, fs'.bitmap .inode g = fs.bitmap .inode g

structure View where
  geo : Geo
  data : UInt32 → Buf
  marked : Kind → UInt32 → Bool
  dirCnt : Nat → UInt16

def FsInfo.data (fs : FsInfo) (b : UInt32) : Buf := if fs.geo.isBook b then zero else fs.disk b

def FsInfo.view (fs : FsInfo) : View where
  geo := fs.geo
  data := fs.data
  marked := fs.marked
  dirCnt := fs.dirCnt

def View.mark (v : View) (kind : Kind) (n : UInt32) (value : Bool) : View :=
  { v with marked := Function.update v.marked kind (Function.update (v.marked kind) n value) }

def View.write (v : View) (b : UInt32) (buf : Buf) : View :=
  { v with data := Function.update v.data b buf }

end DeprecatOS
