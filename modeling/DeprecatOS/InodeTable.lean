import DeprecatOS.BitmapController

/-!
# Inode records and the blocks below them

`get_inode`, `set_inode` and the release of a whole tree of blocks, from `blockController.c`.
-/

namespace DeprecatOS

open Bytes Bits Fault

def ptr (buf : Buf) (k : Nat) : UInt32 := load32 buf (4 * k)

def setPtr (buf : Buf) (k : Nat) (blockN : UInt32) : Buf := store32 buf (4 * k) blockN

/-- The block of the inode table that holds the record of `inodeN`, and the offset in it. -/
def FsInfo.inodeSlot (fs : FsInfo) (inodeN : UInt32) : UInt32 × Nat :=
  let g := (inodeN - 1) / fs.inodesPerGrp
  let ind := (inodeN - 1) % fs.inodesPerGrp
  (fs.inodeTableStartAddr g.toNat + ind * fs.inodeSize / UInt32.ofNat blockSize,
    (ind * fs.inodeSize % UInt32.ofNat blockSize).toNat)

/-- The block that holds the record of `inodeN`, read into a buffer of one block. There is no record in it when
the group has no descriptor in `bgdt_buf`, or when `inode_size` is such that the record ends behind the buffer. -/
def readSlot (inodeN : UInt32) : FsM Buf := do
  let fs ← get
  if bgdtLen ≤ ((inodeN - 1) / fs.inodesPerGrp).toNat then fault .undefined
  else
    let buf ← readBlock (fs.inodeSlot inodeN).1
    if blockSize < (fs.inodeSlot inodeN).2 + 128 then fault .undefined else pure buf

def getInode (inodeN : UInt32) : FsM (Option Inode) := do
  let fs ← get
  -- the number is divided before it is tested
  if fs.inodesPerGrp = 0 then fault .undefined
  else if inodeN = 0 ∨ fs.inodeCnt < inodeN then pure none
  else
    let buf ← readSlot inodeN
    pure (some (Inode.load buf (fs.inodeSlot inodeN).2))

def setInode (inodeN : UInt32) (inode : Inode) : FsM Bool := do
  let fs ← get
  if fs.inodesPerGrp = 0 then fault .undefined
  else if inodeN = 0 ∨ fs.inodeCnt < inodeN then pure false
  else
    let buf ← readSlot inodeN
    writeBlock (fs.inodeSlot inodeN).1 (inode.store buf (fs.inodeSlot inodeN).2)
    pure true

/-- Releases block `blockN` and, `layer` pointer layers deep, every block it points to. -/
def indirFreeBlock : Nat → UInt32 → FsM Unit
  | 0, blockN =>
    if blockN = 0 then pure ()
    else do let _ ← freeBlock blockN
  | layer + 1, blockN =>
    if blockN = 0 then pure ()
    else do
      let entries ← readBlock blockN
      (List.range ptrsPerBlk).forM fun i => indirFreeBlock layer (ptr entries i)
      let _ ← freeBlock blockN

/-- The entries of a pointer block that is still in memory, released one by one. -/
def freeEntries (layer : Nat) (entries : Buf) : FsM Unit :=
  (List.range ptrsPerBlk).forM fun i => indirFreeBlock layer (ptr entries i)

def freeDirect (inode : Inode) : FsM Unit :=
  (List.finRange inodeBlkPtrAmt).forM fun i => indirFreeBlock 0 (inode.dirBlockPtr i)

def Inode.clearPtrs (inode : Inode) : Inode :=
  { inode with
    dirBlockPtr := fun _ => 0
    singlyIndirBlockPtr := 0
    doublyIndirBlockPtr := 0
    triplyIndirBlockPtr := 0 }

end DeprecatOS
