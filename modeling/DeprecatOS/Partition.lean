import DeprecatOS.Ata

/-!
# Partitions

What `fill_partition_entry` makes of one entry of a drive's partition table, and the blocks of an
accepted partition as sectors of the drive. The warnings that it prints for what it skips are left out.
-/

namespace DeprecatOS

open Bytes Fault

def partsPerDrive : Nat := 4

/-- `struct fs_info` as it is filled at start. A pointer to a drive is the drive's `identify_magic`, and
of the pointers into the two buffers it is kept whether they are set. -/
structure FsEntry where
  bgdtBuf : Buf
  sprblkBuf : Buf
  drive : Option UInt8
  superblk : Bool
  bgdt : Bool
  startLba : UInt64
  sectorCount : UInt64
  inodeSize : UInt32
  inodesPerGrp : UInt32
  blksPerGrp : UInt32
  fragsPerGrp : UInt32
  ngroups : UInt32
  mountpoint : UInt32
  label : Buf

def FsEntry.zero : FsEntry where
  bgdtBuf := Bytes.zero
  sprblkBuf := Bytes.zero
  drive := none
  superblk := false
  bgdt := false
  startLba := 0
  sectorCount := 0
  inodeSize := 0
  inodesPerGrp := 0
  blksPerGrp := 0
  fragsPerGrp := 0
  ngroups := 0
  mountpoint := 0
  label := Bytes.zero

/-! ### The fields of the superblock -/

def superBlockCnt (sprblk : Buf) : UInt32 := load32 sprblk 4
def superBlockSizeAdjusted (sprblk : Buf) : UInt32 := load32 sprblk 24
def superBlocksPerGroup (sprblk : Buf) : UInt32 := load32 sprblk 32
def superFragsPerGroup (sprblk : Buf) : UInt32 := load32 sprblk 36
def superInodesPerGroup (sprblk : Buf) : UInt32 := load32 sprblk 40
def superExt2Signature (sprblk : Buf) : UInt16 := load16 sprblk 56
def superInodeSize (sprblk : Buf) : UInt16 := load16 sprblk 88
def superReqFeaturesPresent (sprblk : Buf) : UInt32 := load32 sprblk 96
def superFeaturesUnsupportRo (sprblk : Buf) : UInt32 := load32 sprblk 100

/-! ### Filling a slot -/

def readMbr (drive : AtaDrive) : Prog Stop Drives (Option Buf) :=
  if drive.supportsRead48 = false then pure none
  else do
    let mbr ← ataRead48 drive.identifyMagic 0 1 zero
    pure (some mbr)

/-- A partition that is skipped after its superblock was read. -/
def FsEntry.skip (entry : FsEntry) : FsEntry := { entry with sectorCount := 0, superblk := false }

/-- The geometry, once the superblock is accepted and the descriptors are read. The division by
`blocks_per_group` is not guarded. -/
def FsEntry.fillGeometry (entry : FsEntry) : Prog Stop Drives FsEntry :=
  if superBlocksPerGroup entry.sprblkBuf = 0 then fault .undefined
  else pure { entry with
    bgdt := true
    inodesPerGrp := superInodesPerGroup entry.sprblkBuf
    blksPerGrp := superBlocksPerGroup entry.sprblkBuf
    fragsPerGrp := superFragsPerGroup entry.sprblkBuf
    inodeSize := (superInodeSize entry.sprblkBuf).toUInt32
    ngroups := (superBlockCnt entry.sprblkBuf + superBlocksPerGroup entry.sprblkBuf - 1) /
      superBlocksPerGroup entry.sprblkBuf
    label := fun j => if j < 16 then entry.sprblkBuf (120 + j) else if j = 16 then 0 else entry.label j }

/-- The tests on the superblock that was read. `1024 << block_size_adjusted` has no defined value for a
count of 32 or more, and is only computed for an ext2 signature. -/
def FsEntry.fillFromSuperblk (entry : FsEntry) (drive : UInt8) : Prog Stop Drives FsEntry :=
  if superExt2Signature entry.sprblkBuf ≠ 0xEF53 then pure entry.skip
  else if 32 ≤ superBlockSizeAdjusted entry.sprblkBuf then fault .undefined
  else if (1024 : UInt32) <<< superBlockSizeAdjusted entry.sprblkBuf ≠ 4096 then pure entry.skip
  else if superReqFeaturesPresent entry.sprblkBuf &&& ~~~0x2 ≠ 0 then pure entry.skip
  else if superFeaturesUnsupportRo entry.sprblkBuf &&& ~~~0x3 ≠ 0 then pure entry.skip
  else do
    let bgdtBuf ← ataRead48Part drive entry.startLba entry.sectorCount
      (bgdtBlkN * sectorsPerBlk).toUInt64 8 entry.bgdtBuf
    { entry with bgdtBuf }.fillGeometry

/-- The part of `fill_partition_entry` after the type of the partition was found to be 0x83. -/
def FsEntry.fillFromTable (entry : FsEntry) (mbr : Buf) (partEntry : Nat) (drive : AtaDrive)
    (driveMagic : UInt8) : Prog Stop Drives FsEntry := do
  let entry := { entry with
    drive := some driveMagic
    startLba := (load32 mbr (partEntry + 8)).toUInt64
    sectorCount := (load32 mbr (partEntry + 12)).toUInt64 }
  if entry.sectorCount = 0 ∨ drive.lbaSectorCount < entry.startLba + entry.sectorCount then
    pure { entry with sectorCount := 0 }
  else do
    let sprblkBuf ← ataRead48Part driveMagic entry.startLba entry.sectorCount 2 2 entry.sprblkBuf
    { entry with sprblkBuf, superblk := true }.fillFromSuperblk driveMagic

/-- What becomes of the slot `entry` of partition `part`. The result is false when the drive has no
partition table to read. -/
def fillPartitionEntry (driveMagic : UInt8) (part : Nat) (entry : FsEntry) :
    Prog Stop Drives (Bool × FsEntry) := do
  let drives ← get
  match drives.drive? driveMagic with
  | none => pure (false, entry)
  | some drive =>
    match ← readMbr drive with
    | none =>
      if driveMagic = ataMaster then panic "KERNEL PANIC: master drive has no MBR"
      else pure (false, entry)
    | some mbr =>
      if ¬ (mbr 510 = 0x55 ∧ mbr 511 = 0xAA) then
        if driveMagic = ataMaster then panic "KERNEL PANIC: master drive has a bad MBR signature"
        else pure (false, entry)
      else
        let partEntry := 446 + 16 * (part % partsPerDrive)
        if mbr (partEntry + 4) = 0x05 ∨ mbr (partEntry + 4) = 0x0F then pure (true, entry)
        else if mbr (partEntry + 4) ≠ 0x83 then pure (true, entry)
        else do
          let entry ← entry.fillFromTable mbr partEntry drive driveMagic
          pure (true, entry)

/-! ### Blocks of a partition -/

/-- The first sector of a block in its partition. The product is taken in 32 bits and widened after. -/
def blockLba (blockN : UInt32) : UInt64 := (blockN * sectorsPerBlk).toUInt64

/-- `read_block` through the driver. A slot without a drive has no block to read. -/
def FsEntry.readBlock (entry : FsEntry) (blockN : UInt32) (buf : Buf) : Prog Stop Drives Buf :=
  match entry.drive with
  | none => fault .undefined
  | some drive => ataRead48Part drive entry.startLba entry.sectorCount (blockLba blockN) 8 buf

def FsEntry.writeBlock (entry : FsEntry) (blockN : UInt32) (buf : Buf) : Prog Stop Drives Unit :=
  match entry.drive with
  | none => fault .undefined
  | some drive => ataWrite48Part drive entry.startLba entry.sectorCount (blockLba blockN) 8 buf

end DeprecatOS
