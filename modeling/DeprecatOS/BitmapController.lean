import DeprecatOS.FsInfo

/-!
# The bitmap controller

`bitmapController.c`. The allocators of blocks and of inodes differ in the bitmap they use, in how many
bits of it they scan, in the number of the first bit and in the value they return on failure, so both
are one definition at two kinds; so is the part the two release functions share.

The geometry comes from the superblock and is not checked. With more groups than `bgdt_buf` has
descriptors, or more bits in a group than a bitmap block has, the code leaves its buffers.
-/

namespace DeprecatOS

open Bytes Bits Fault

/-- The first group from `g` on, among the next `fuel`, whose counter says it has a clear bit. -/
def firstGroup (cnt : Nat → UInt16) : Nat → Nat → Option Nat
  | 0, _ => none
  | fuel + 1, g => if 0 < cnt g then some g else firstGroup cnt fuel (g + 1)

/-- How many bits the allocator scans: the whole bitmap block for blocks, whole bytes of
`inodes_per_grp` for inodes. -/
def FsInfo.scanBits (fs : FsInfo) : Kind → Nat
  | .block => 8 * blockSize
  | .inode => 8 * (fs.inodesPerGrp.toNat / 8)

def FsInfo.firstN (fs : FsInfo) : Kind → UInt32
  | .block => fs.superBlockNum
  | .inode => firstInodeN

def Kind.errorN : Kind → UInt32
  | .block => blockError
  | .inode => inodeError

def Kind.corrupted : Kind → String
  | .block => "KERNEL PANIC: CORRUPTED UNALLOC_BLOCK_CNT!!!"
  | .inode => "KERNEL PANIC: CORRUPTED UNALLOC_INODE_CNT!!!"

/-- The counters of group `g` and of the superblock, in memory, after one bit was taken or released. -/
def FsInfo.bumpCounts (fs : FsInfo) (kind : Kind) (g : Nat) (cnt : UInt16) (total : UInt32) : FsInfo :=
  { fs with
    bgdtBuf := store16 fs.bgdtBuf (32 * g + kind.cntOff) cnt
    sprblkBuf := store32 fs.sprblkBuf kind.totalOff total }

def writeBack (kind : Kind) (g : Nat) (bitmap : Buf) : FsM Unit := do
  writeBgdt
  writeSuperblk
  let fs ← get
  writeBlock (fs.bitmapAddr kind g) bitmap

def allocBit (kind : Kind) : FsM UInt32 := do
  let fs ← get
  match firstGroup (fs.unallocCnt kind) fs.ngroups.toNat 0 with
  | none => if bgdtLen < fs.ngroups.toNat then fault .undefined else pure kind.errorN
  | some g =>
    if bgdtLen ≤ g then fault .undefined
    else do
      let bitmap ← readBlock (fs.bitmapAddr kind g)
      match firstClear bitmap (fs.scanBits kind) 0 with
      | none => if 8 * blockSize < fs.scanBits kind then fault .undefined else panic kind.corrupted
      | some idx =>
        if 8 * blockSize ≤ idx then fault .undefined
        else do
          set (fs.bumpCounts kind g (fs.unallocCnt kind g - 1) (fs.unallocTotal kind - 1))
          writeBack kind g (setBit bitmap idx)
          pure (UInt32.ofNat g * fs.perGrp kind + UInt32.ofNat idx + fs.firstN kind)

def allocBlock : FsM UInt32 := allocBit .block

def allocInode : FsM UInt32 := allocBit .inode

/-- Bit `idx` of group `g` becomes clear; a bit that is clear already is left alone. -/
def releaseBit (kind : Kind) (g idx : Nat) : FsM Unit := do
  let fs ← get
  if bgdtLen ≤ g then fault .undefined
  else
    let bitmap ← readBlock (fs.bitmapAddr kind g)
    if 8 * blockSize ≤ idx then fault .undefined
    else if bit bitmap idx then
      set (fs.bumpCounts kind g (fs.unallocCnt kind g + 1) (fs.unallocTotal kind + 1))
      writeBack kind g (clearBit bitmap idx)
    else pure ()

def freeInode (inodeN : UInt32) : FsM Bool := do
  let fs ← get
  if fs.inodesPerGrp = 0 then fault .undefined
  else
    let groupN := (inodeN - firstInodeN) / fs.inodesPerGrp
    if fs.ngroups ≤ groupN ∨ fs.inodeCnt < inodeN then pure false
    else
      releaseBit .inode groupN.toNat ((inodeN - firstInodeN) % fs.inodesPerGrp).toNat
      pure true

def freeBlock (blockN : UInt32) : FsM Bool := do
  if blockN = 0 then pure false
  else
    let fs ← get
    if fs.blksPerGrp = 0 then fault .undefined
    else
      let groupN := (blockN - fs.superBlockNum) / fs.blksPerGrp
      if fs.ngroups ≤ groupN ∨ fs.blockCnt ≤ blockN then pure false
      else
        releaseBit .block groupN.toNat ((blockN - fs.superBlockNum) % fs.blksPerGrp).toNat
        pure true

def inodeExists (inodeN : UInt32) : FsM Bool := do
  let fs ← get
  if fs.inodesPerGrp = 0 then fault .undefined
  else
    let groupN := (inodeN - firstInodeN) / fs.inodesPerGrp
    let bitmapIdx := ((inodeN - firstInodeN) % fs.inodesPerGrp).toNat
    if fs.ngroups ≤ groupN ∨ fs.inodeCnt < inodeN then pure false
    else if bgdtLen ≤ groupN.toNat then fault .undefined
    else
      let bitmap ← readBlock (fs.bitmapAddr .inode groupN.toNat)
      if 8 * blockSize ≤ bitmapIdx then fault .undefined else pure (bit bitmap bitmapIdx)

end DeprecatOS
