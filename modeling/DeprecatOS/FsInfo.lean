import DeprecatOS.Lib.Bits
import DeprecatOS.Lib.Fault

/-!
# The on-disk structures and the state of one filesystem

The structures of `superblock.h`, `blockGroupDescriptor.h` and `inode.h`, at the offsets the headers
assert, and `struct fs_info` together with the partition it describes. The in-memory superblock and
descriptor table are raw buffers that the kernel overlays with a struct, so they are buffers here too
and their fields are accessors. An inode is copied in and out of its table slot, so it is a record
with a byte image.
-/

namespace DeprecatOS

open Bytes Bits Fault

/-! ### Constants -/

def blockSize : Nat := 4096

def ptrsPerBlk : Nat := 1024

def inodeBlkPtrAmt : Nat := 12

def sectorsPerBlk : UInt32 := 8

def bgdtBlkN : UInt32 := 1

/-- How many descriptors `bgdt_buf` holds. -/
def bgdtLen : Nat := 128

def firstInodeN : UInt32 := 1

def rootInodeN : UInt32 := 2

/-- `BLOCK_ERROR`: block 0 holds the superblock, so it is never allocated. -/
def blockError : UInt32 := 0

/-- `INODE_ERROR`: inode 1 is reserved. -/
def inodeError : UInt32 := 1

/-- The results of the functions that return `INODE_WRITE_SUCCESS`, `EMPTY_BLOCK`, `BLOCK_ERROR` or
`INODE_ERROR`. -/
inductive Status where
  | writeSuccess
  | emptyBlock
  | blockError
  | inodeError
  deriving DecidableEq, Repr

/-! ### Inodes -/

scoped instance neZeroDirect : NeZero 12 := ⟨by decide⟩

structure Inode where
  typeAndPermsLo : UInt16
  userIdLo : UInt16
  sizeLo : UInt32
  lastAccessTime : UInt32
  creationTime : UInt32
  lastModTime : UInt32
  deletionTime : UInt32
  groupId : UInt16
  hardLinkCnt : UInt16
  diskSectors : UInt32
  flags : UInt32
  unused : UInt32
  dirBlockPtr : Fin 12 → UInt32
  singlyIndirBlockPtr : UInt32
  doublyIndirBlockPtr : UInt32
  triplyIndirBlockPtr : UInt32
  generationNum : UInt32
  unused2 : UInt32
  unused3 : UInt32
  fragmentAddr : UInt32
  fragNum : UInt8
  fragSize : UInt8
  unused4 : UInt16
  userIdHi : UInt16
  groupIdHi : UInt16
  unused5 : UInt32

namespace Inode

def zero : Inode where
  typeAndPermsLo := 0
  userIdLo := 0
  sizeLo := 0
  lastAccessTime := 0
  creationTime := 0
  lastModTime := 0
  deletionTime := 0
  groupId := 0
  hardLinkCnt := 0
  diskSectors := 0
  flags := 0
  unused := 0
  dirBlockPtr := fun _ => 0
  singlyIndirBlockPtr := 0
  doublyIndirBlockPtr := 0
  triplyIndirBlockPtr := 0
  generationNum := 0
  unused2 := 0
  unused3 := 0
  fragmentAddr := 0
  fragNum := 0
  fragSize := 0
  unused4 := 0
  userIdHi := 0
  groupIdHi := 0
  unused5 := 0

/-- The struct read from the 128 bytes of a table slot. -/
def load (buf : Buf) (off : Nat) : Inode where
  typeAndPermsLo := load16 buf off
  userIdLo := load16 buf (off + 2)
  sizeLo := load32 buf (off + 4)
  lastAccessTime := load32 buf (off + 8)
  creationTime := load32 buf (off + 12)
  lastModTime := load32 buf (off + 16)
  deletionTime := load32 buf (off + 20)
  groupId := load16 buf (off + 24)
  hardLinkCnt := load16 buf (off + 26)
  diskSectors := load32 buf (off + 28)
  flags := load32 buf (off + 32)
  unused := load32 buf (off + 36)
  dirBlockPtr := fun i => load32 buf (off + 40 + 4 * i)
  singlyIndirBlockPtr := load32 buf (off + 88)
  doublyIndirBlockPtr := load32 buf (off + 92)
  triplyIndirBlockPtr := load32 buf (off + 96)
  generationNum := load32 buf (off + 100)
  unused2 := load32 buf (off + 104)
  unused3 := load32 buf (off + 108)
  fragmentAddr := load32 buf (off + 112)
  fragNum := buf (off + 116)
  fragSize := buf (off + 117)
  unused4 := load16 buf (off + 118)
  userIdHi := load16 buf (off + 120)
  groupIdHi := load16 buf (off + 122)
  unused5 := load32 buf (off + 124)

def storePtrs (ino : Inode) (buf : Buf) (off : Nat) : Nat → Buf
  | 0 => buf
  | n + 1 =>
    if hn : n < 12 then store32 (storePtrs ino buf off n) (off + 4 * n) (ino.dirBlockPtr ⟨n, hn⟩)
    else storePtrs ino buf off n

def store (ino : Inode) (buf : Buf) (off : Nat) : Buf :=
  let buf := store16 buf off ino.typeAndPermsLo
  let buf := store16 buf (off + 2) ino.userIdLo
  let buf := store32 buf (off + 4) ino.sizeLo
  let buf := store32 buf (off + 8) ino.lastAccessTime
  let buf := store32 buf (off + 12) ino.creationTime
  let buf := store32 buf (off + 16) ino.lastModTime
  let buf := store32 buf (off + 20) ino.deletionTime
  let buf := store16 buf (off + 24) ino.groupId
  let buf := store16 buf (off + 26) ino.hardLinkCnt
  let buf := store32 buf (off + 28) ino.diskSectors
  let buf := store32 buf (off + 32) ino.flags
  let buf := store32 buf (off + 36) ino.unused
  let buf := storePtrs ino buf (off + 40) 12
  let buf := store32 buf (off + 88) ino.singlyIndirBlockPtr
  let buf := store32 buf (off + 92) ino.doublyIndirBlockPtr
  let buf := store32 buf (off + 96) ino.triplyIndirBlockPtr
  let buf := store32 buf (off + 100) ino.generationNum
  let buf := store32 buf (off + 104) ino.unused2
  let buf := store32 buf (off + 108) ino.unused3
  let buf := store32 buf (off + 112) ino.fragmentAddr
  let buf := store8 buf (off + 116) ino.fragNum
  let buf := store8 buf (off + 117) ino.fragSize
  let buf := store16 buf (off + 118) ino.unused4
  let buf := store16 buf (off + 120) ino.userIdHi
  let buf := store16 buf (off + 122) ino.groupIdHi
  store32 buf (off + 124) ino.unused5

end Inode

/-! ### One filesystem -/

inductive Stop where
  | panic (msg : String)
  /-- The C program has no defined behaviour, as when it indexes past the end of a buffer. -/
  | undefined
  deriving DecidableEq, Repr

/-- `struct fs_info` and the partition behind it. The disk is addressed by the number of the 4096-byte
group of sectors from the start of the partition. -/
structure FsInfo where
  disk : UInt32 → Buf
  sprblkBuf : Buf
  bgdtBuf : Buf
  sectorCount : Nat
  inodeSize : UInt32
  inodesPerGrp : UInt32
  blksPerGrp : UInt32
  ngroups : UInt32
  mountpoint : UInt32

abbrev FsM := Prog Stop FsInfo

def panic {σ α : Type} (msg : String) : Prog Stop σ α := fault (.panic msg)

namespace FsInfo

/-! The fields of `*superblk` that the kernel reads. -/

def inodeCnt (fs : FsInfo) : UInt32 := load32 fs.sprblkBuf 0

def blockCnt (fs : FsInfo) : UInt32 := load32 fs.sprblkBuf 4

def superBlockNum (fs : FsInfo) : UInt32 := load32 fs.sprblkBuf 20

/-! The fields of `bgdt[g]`. The two bitmaps of a group come with the same three fields: where the
bitmap is, how many of its bits are clear, and how many are clear in all groups. -/

end FsInfo

inductive Kind where
  | block
  | inode
  deriving DecidableEq, Repr

def Kind.addrOff : Kind → Nat
  | block => 0
  | inode => 4

def Kind.cntOff : Kind → Nat
  | block => 12
  | inode => 14

def Kind.totalOff : Kind → Nat
  | block => 12
  | inode => 16

namespace FsInfo

def bitmapAddr (fs : FsInfo) (kind : Kind) (g : Nat) : UInt32 :=
  load32 fs.bgdtBuf (32 * g + kind.addrOff)

def unallocCnt (fs : FsInfo) (kind : Kind) (g : Nat) : UInt16 :=
  load16 fs.bgdtBuf (32 * g + kind.cntOff)

def unallocTotal (fs : FsInfo) (kind : Kind) : UInt32 := load32 fs.sprblkBuf kind.totalOff

def inodeTableStartAddr (fs : FsInfo) (g : Nat) : UInt32 := load32 fs.bgdtBuf (32 * g + 8)

def dirCnt (fs : FsInfo) (g : Nat) : UInt16 := load16 fs.bgdtBuf (32 * g + 16)

def perGrp (fs : FsInfo) : Kind → UInt32
  | .block => fs.blksPerGrp
  | .inode => fs.inodesPerGrp

end FsInfo

/-! ### Reading and writing the partition -/

/-- `ata_read48_part` and `ata_write48_part` refuse sectors past the end of the partition. -/
def outOfPartition {σ α : Type} : Prog Stop σ α :=
  panic "KERNEL PANIC: LBA OUT OF PARTITION BOUNDS"

def readBlock (blockN : UInt32) : FsM Buf := do
  let fs ← get
  -- The product is taken in 32 bits before it is widened.
  let lba := blockN * sectorsPerBlk
  if fs.sectorCount < lba.toNat + 8 then outOfPartition
  else pure (fs.disk (lba / sectorsPerBlk))

def writeBlock (blockN : UInt32) (buf : Buf) : FsM Unit := do
  let fs ← get
  let lba := blockN * sectorsPerBlk
  if fs.sectorCount < lba.toNat + 8 then outOfPartition
  else set { fs with disk := Function.update fs.disk (lba / sectorsPerBlk) buf }

def writeBgdt : FsM Unit := do
  let fs ← get
  writeBlock bgdtBlkN fs.bgdtBuf

/-- The superblock is the two sectors at byte 1024 of the partition, inside block 0. -/
def writeSuperblk : FsM Unit := do
  let fs ← get
  if fs.sectorCount < 4 then outOfPartition
  else set { fs with
    disk := Function.update fs.disk 0 fun k =>
      if 1024 ≤ k ∧ k < 2048 then fs.sprblkBuf (k - 1024) else fs.disk 0 k }

end DeprecatOS
