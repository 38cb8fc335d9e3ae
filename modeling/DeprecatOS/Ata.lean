import DeprecatOS.FsInfo

/-!
# The disk driver

The two drives of the bus and the calls of `ata.c` that move sectors. A drive is its identification and
the sectors on it; that the hardware answers is taken for granted, so `poll` does not panic.
-/

namespace DeprecatOS

open Bytes Fault

def ataMaster : UInt8 := 0xA0
def ataSlave : UInt8 := 0xB0

def bytesPerSector : Nat := 512

structure AtaDrive where
  supportsRead48 : Bool
  identifyMagic : UInt8
  lbaSectorCount : UInt64
  sectors : Nat → Buf

structure Drives where
  master : AtaDrive
  slave : AtaDrive
  master_magic : master.identifyMagic = ataMaster
  slave_magic : slave.identifyMagic = ataSlave

def Drives.drive? (drives : Drives) (drive : UInt8) : Option AtaDrive :=
  if drive = ataMaster then some drives.master
  else if drive = ataSlave then some drives.slave
  else none

def portLba (lba : UInt64) : Nat := lba.toNat % 2 ^ 48

def AtaDrive.fetch (drive : AtaDrive) (lba count : Nat) (buf : Buf) : Buf := fun k =>
  if k < count * bytesPerSector then drive.sectors (lba + k / bytesPerSector) (k % bytesPerSector) else buf k

def AtaDrive.put (drive : AtaDrive) (lba count : Nat) (buf : Buf) : AtaDrive :=
  { drive with
    sectors := fun s =>
      if lba ≤ s ∧ s < lba + count then fun k => buf ((s - lba) * bytesPerSector + k) else drive.sectors s }

def Drives.put (drives : Drives) (drive : UInt8) (lba count : Nat) (buf : Buf) : Drives :=
  if drive = ataMaster then
    { drives with master := drives.master.put lba count buf, master_magic := drives.master_magic }
  else { drives with slave := drives.slave.put lba count buf, slave_magic := drives.slave_magic }

def ataRead48 (drive : UInt8) (lba : UInt64) (count : UInt16) (buf : Buf) : Prog Stop Drives Buf := do
  let drives ← get
  match drives.drive? drive with
  | none => pure buf
  | some source =>
    if source.lbaSectorCount < lba + count.toUInt64 then panic "KERNEL PANIC: LBA OUT OF BOUNDS"
    else pure (source.fetch (portLba lba) count.toNat buf)

def ataWrite48 (drive : UInt8) (lba : UInt64) (count : UInt16) (buf : Buf) : Prog Stop Drives Unit := do
  let drives ← get
  match drives.drive? drive with
  | none => pure ()
  | some target =>
    if target.lbaSectorCount < lba + count.toUInt64 then panic "KERNEL PANIC: LBA OUT OF BOUNDS"
    else set (drives.put drive (portLba lba) count.toNat buf)

def ataRead48Part (drive : UInt8) (baseLba partLen lba : UInt64) (count : UInt16) (buf : Buf) :
    Prog Stop Drives Buf :=
  if partLen < lba + count.toUInt64 then outOfPartition else ataRead48 drive (baseLba + lba) count buf

def ataWrite48Part (drive : UInt8) (baseLba partLen lba : UInt64) (count : UInt16) (buf : Buf) :
    Prog Stop Drives Unit :=
  if partLen < lba + count.toUInt64 then outOfPartition else ataWrite48 drive (baseLba + lba) count buf

end DeprecatOS
