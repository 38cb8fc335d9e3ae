import DeprecatOS.MapFileBlock

/-!
# The block controller

The operations of `blockController.c` on whole inodes: `delete_inode`, `mint_inode`, `write_inode`,
`replace_inode`, `append_to_inode`, `put_inode` and `truncate_inode`. System calls run with interrupts
off, so one call sees one time; it is the argument `now`. The contents of a freshly allocated kernel
buffer are the argument `junk`.
-/

namespace DeprecatOS

open Bytes Bits Fault

/-! ### Inode types -/

def inodeDirType : UInt16 := 0x4000

def inodeFileType : UInt16 := 0x8000

def inodeSymlinkType : UInt16 := 0xA000

def Inode.type (inode : Inode) : UInt16 := inode.typeAndPermsLo &&& 0xF000

def blocksFor (size : UInt32) : UInt32 := (size + 4095) / 4096

/-! ### Deleting -/

def freeAll (inode : Inode) : FsM Unit := do
  freeDirect inode
  indirFreeBlock 1 inode.singlyIndirBlockPtr
  indirFreeBlock 2 inode.doublyIndirBlockPtr
  indirFreeBlock 3 inode.triplyIndirBlockPtr

def FsInfo.setDirCnt (fs : FsInfo) (g : Nat) (cnt : UInt16) : FsInfo :=
  { fs with bgdtBuf := store16 fs.bgdtBuf (32 * g + 16) cnt }

def Inode.deleted (inode : Inode) (now : UInt32) : Inode :=
  { inode with hardLinkCnt := 0, deletionTime := now }

def deleteInode (now inodeN : UInt32) : FsM Bool := do
  match ← getInode inodeN with
  | none => pure false
  | some inode =>
    if 0 < inode.diskSectors then freeAll inode
    let inode := inode.deleted now
    if ← setInode inodeN inode then
      if inode.type = inodeDirType then
        let fs ← get
        let groupN := ((inodeN - firstInodeN) / fs.inodesPerGrp).toNat
        set (fs.setDirCnt groupN (fs.dirCnt groupN - 1))
        writeBgdt
      freeInode inodeN
    else pure false

/-! ### Writing a new body -/

def Inode.mint (now fSize : UInt32) (type : UInt16) : Inode :=
  { Inode.zero with
    typeAndPermsLo := type
    sizeLo := fSize
    creationTime := now
    lastAccessTime := now
    lastModTime := now
    diskSectors := 0 }

def mintInode (now fSize : UInt32) (type : UInt16) : FsM (Option (UInt32 × Inode)) := do
  let inodeN ← allocInode
  if inodeN = inodeError then pure none
  else pure (some (inodeN, Inode.mint now fSize type))

/-- How far `write_inode` has come: the inode it fills in, the blocks still to write and the position in
the buffer, counted in 16-bit words. -/
structure Progress where
  inode : Inode
  blocksLeft : UInt32
  bufCursor : UInt32

/-- The next block of the buffer, zero past the end of the file. -/
def Progress.nextBlock (w : Progress) (buf : Buf) : Buf :=
  let copyBytes := min (w.inode.sizeLo - w.bufCursor * 2).toNat blockSize
  fun k =>
    if k < 2 * (copyBytes / 2) then buf (2 * w.bufCursor.toNat + k)
    else if copyBytes % 2 = 1 ∧ k = copyBytes - 1 then
      buf ((w.bufCursor + UInt32.ofNat (copyBytes / 2)) * 2).toNat
    else 0

def Progress.advance (w : Progress) : Progress where
  inode := { w.inode with diskSectors := w.inode.diskSectors + sectorsPerBlk }
  blocksLeft := w.blocksLeft - 1
  bufCursor :=
    w.bufCursor + UInt32.ofNat (min (w.inode.sizeLo - w.bufCursor * 2).toNat blockSize / 2)

def Progress.countBlock (w : Progress) : Progress :=
  { w with inode := { w.inode with diskSectors := w.inode.diskSectors + sectorsPerBlk } }

def Progress.setDirect (w : Progress) (i : Nat) (blockN : UInt32) : Progress :=
  { w with inode := { w.inode with
      dirBlockPtr := fun k => if k.val = i then blockN else w.inode.dirBlockPtr k } }

def Progress.setSingly (w : Progress) (indirBlkPtr : UInt32) : Progress :=
  { w with inode := { w.inode with singlyIndirBlockPtr := indirBlkPtr } }

def Progress.setDoubly (w : Progress) (doublyIndirBlkPtr : UInt32) : Progress :=
  { w with inode := { w.inode with doublyIndirBlockPtr := doublyIndirBlkPtr } }

def writeDirect (buf : Buf) : Nat → Nat → Progress → FsM (Bool × Progress)
  | 0, _, w => pure (true, w)
  | fuel + 1, i, w =>
    if w.blocksLeft = 0 then pure (true, w)
    else do
      let blockN ← allocBlock
      if blockN = blockError then
        freeDirect w.inode
        pure (false, w)
      else
        writeBlock blockN (w.nextBlock buf)
        writeDirect buf fuel (i + 1) (w.advance.setDirect i blockN)

/-- The loop over the entries of one pointer block from `i` on; it stops when no block is free and
leaves it to the caller to release what was written. -/
def writeIndir (buf : Buf) : Nat → Nat → Buf → Progress → FsM (Bool × Buf × Progress)
  | 0, _, currIndirBlk, w => pure (true, currIndirBlk, w)
  | fuel + 1, i, currIndirBlk, w =>
    if w.blocksLeft = 0 then pure (true, currIndirBlk, w)
    else do
      let blockN ← allocBlock
      if blockN = blockError then pure (false, currIndirBlk, w)
      else
        writeBlock blockN (w.nextBlock buf)
        writeIndir buf fuel (i + 1) (setPtr currIndirBlk i blockN) w.advance

structure Doubly where
  currDoublyIndirBlk : Buf
  hasDouble : Bool
  flushed : Bool
  progress : Progress

/-- The loop over the entries of one doubly indirect block from `idx` on. The first indirect block it
fills becomes the singly indirect block of the inode. -/
def writeDoubly (buf : Buf) (triplePtrTemp doublyIndirBlkPtr : UInt32) (currTriplyIndirBlk : Buf) :
    Nat → Nat → Doubly → FsM (Bool × Doubly)
  | 0, _, d => pure (true, d)
  | fuel + 1, idx, d =>
    if d.progress.blocksLeft = 0 then pure (true, d)
    else do
      let indirBlkPtr ← allocBlock
      if indirBlkPtr = blockError then
        freeDirect d.progress.inode
        indirFreeBlock 1 d.progress.inode.singlyIndirBlockPtr
        indirFreeBlock 2 d.progress.inode.doublyIndirBlockPtr
        freeEntries 2 currTriplyIndirBlk
        freeEntries 1 d.currDoublyIndirBlk
        let _ ← freeBlock doublyIndirBlkPtr
        let _ ← freeBlock triplePtrTemp
        pure (false, d)
      else
        let (ok, currIndirBlk, w) ← writeIndir buf ptrsPerBlk 0 zero d.progress.countBlock
        if ok then
          if 0 < w.blocksLeft ∨ d.flushed = false then
            if d.flushed = false then writeBlock indirBlkPtr currIndirBlk
            let flushed := d.flushed || w.blocksLeft = 0
            if idx = 0 then
              writeDoubly buf triplePtrTemp doublyIndirBlkPtr currTriplyIndirBlk fuel (idx + 1)
                { d with flushed, progress := w.setSingly indirBlkPtr }
            else
              writeDoubly buf triplePtrTemp doublyIndirBlkPtr currTriplyIndirBlk fuel (idx + 1)
                { currDoublyIndirBlk := setPtr d.currDoublyIndirBlk (idx - 1) indirBlkPtr
                  hasDouble := true
                  flushed
                  progress := w }
          else
            writeDoubly buf triplePtrTemp doublyIndirBlkPtr currTriplyIndirBlk fuel (idx + 1)
              { d with progress := w }
        else
          freeDirect w.inode
          indirFreeBlock 1 w.inode.singlyIndirBlockPtr
          indirFreeBlock 2 w.inode.doublyIndirBlockPtr
          freeEntries 2 currTriplyIndirBlk
          freeEntries 1 d.currDoublyIndirBlk
          freeEntries 0 currIndirBlk
          let _ ← freeBlock indirBlkPtr
          let _ ← freeBlock doublyIndirBlkPtr
          let _ ← freeBlock triplePtrTemp
          pure (false, { d with progress := w })

structure Triply where
  currTriplyIndirBlk : Buf
  hasTriple : Bool
  flushed : Bool
  progress : Progress

/-- The loop over the entries of the triply indirect block from `idx` on. The first doubly indirect
block it fills becomes the doubly indirect block of the inode. -/
def writeTriply (buf : Buf) (triplePtrTemp : UInt32) : Nat → Nat → Triply → FsM (Bool × Triply)
  | 0, _, t => pure (true, t)
  | fuel + 1, idx, t =>
    if t.progress.blocksLeft = 0 then pure (true, t)
    else do
      let doublyIndirBlkPtr ← allocBlock
      if doublyIndirBlkPtr = blockError then
        freeDirect t.progress.inode
        freeEntries 2 t.currTriplyIndirBlk
        indirFreeBlock 1 t.progress.inode.singlyIndirBlockPtr
        indirFreeBlock 2 t.progress.inode.doublyIndirBlockPtr
        let _ ← freeBlock triplePtrTemp
        pure (false, t)
      else
        let (ok, d) ← writeDoubly buf triplePtrTemp doublyIndirBlkPtr t.currTriplyIndirBlk ptrsPerBlk 0
          { currDoublyIndirBlk := zero, hasDouble := false, flushed := t.flushed, progress := t.progress }
        if ok then
          if d.hasDouble then
            writeBlock doublyIndirBlkPtr d.currDoublyIndirBlk
            if idx = 0 then
              writeTriply buf triplePtrTemp fuel (idx + 1)
                { t with
                  flushed := d.flushed, progress := d.progress.countBlock.setDoubly doublyIndirBlkPtr }
            else
              writeTriply buf triplePtrTemp fuel (idx + 1)
                { currTriplyIndirBlk := setPtr t.currTriplyIndirBlk (idx - 1) doublyIndirBlkPtr
                  hasTriple := true
                  flushed := d.flushed
                  progress := d.progress.countBlock }
          else
            let _ ← freeBlock doublyIndirBlkPtr
            writeTriply buf triplePtrTemp fuel (idx + 1)
              { t with flushed := d.flushed, progress := d.progress }
        else pure (false, { t with progress := d.progress })

/-- The buffer is written to newly allocated blocks; on failure they have all been released. -/
def writeInode (buf : Buf) (inode : Inode) : FsM (Bool × Inode) := do
  let (ok, w) ← writeDirect buf inodeBlkPtrAmt 0
    { inode := inode.clearPtrs, blocksLeft := blocksFor inode.sizeLo, bufCursor := 0 }
  if ok then
    let triplePtrTemp ← allocBlock
    if triplePtrTemp = blockError then
      freeDirect w.inode
      pure (false, w.inode)
    else
      let (ok, t) ← writeTriply buf triplePtrTemp ptrsPerBlk 0
        { currTriplyIndirBlk := zero, hasTriple := false, flushed := false, progress := w }
      if ok then
        if t.hasTriple then
          writeBlock triplePtrTemp t.currTriplyIndirBlk
          let inode := t.progress.countBlock.inode
          pure (true, { inode with triplyIndirBlockPtr := triplePtrTemp })
        else
          let _ ← freeBlock triplePtrTemp
          pure (true, t.progress.inode)
      else pure (false, t.progress.inode)
  else pure (false, w.inode)

def replaceInode (now inodeN : UInt32) (buf : Buf) (fSize : UInt32) : FsM (Option Inode) := do
  match ← getInode inodeN with
  | none => pure none
  | some inode =>
    freeAll inode
    let (ok, written) ← writeInode buf
      { inode with sizeLo := fSize, diskSectors := 0, lastModTime := now }
    if ok then
      if ← setInode inodeN written then pure (some written) else pure none
    else if ← setInode inodeN
        { written.clearPtrs with sizeLo := 0, diskSectors := 0, lastModTime := inode.lastModTime } then
      pure none
    else
      panic "KERNEL PANIC: Error when trying to recover from a bad write_inode(), disk corruption occured!"

def putInode (now : UInt32) (buf : Buf) (fSize : UInt32) (isDir : Bool) :
    FsM (Option (UInt32 × Inode)) := do
  match ← mintInode now fSize (if isDir then inodeDirType else inodeFileType) with
  | none => pure none
  | some (inodeN, inode) =>
    let (ok, written) ← writeInode buf inode
    if ok then
      let fs ← get
      let groupN := (inodeN - firstInodeN) / fs.inodesPerGrp
      if fs.ngroups ≤ groupN ∨ fs.inodeCnt < inodeN then
        panic "mint_inode() failed to return a correct value!! disk corruption likely :-("
      else if ← setInode inodeN written then
        if isDir then
          let fs ← get
          set (fs.setDirCnt groupN.toNat (fs.dirCnt groupN.toNat + 1))
          writeBgdt
        pure (some (inodeN, written))
      else pure none
    else
      let _ ← freeInode inodeN
      pure none

/-! ### Growing and shrinking -/

def Mapped.blkOut (call : Mapped) : FsM UInt32 :=
  match call.diskBlk with
  | some diskBlk => pure diskBlk
  | none => fault .undefined

def splice (dst : Buf) (off : Nat) (src : Buf) (srcOff len : Nat) : Buf := fun k =>
  if off ≤ k ∧ k < off + len then src (srcOff + (k - off)) else dst k

structure Append where
  inode : Inode
  allocCnt : UInt32
  bufByteCursor : UInt32
  bytesLeft : UInt32
  allocedBackward : Bool

def Append.start (inode : Inode) (fSize : UInt32) : Append where
  inode := inode
  allocCnt := 0
  bufByteCursor := 0
  bytesLeft := fSize
  allocedBackward := false

/-! The callers of `map_file_block` take it as a parameter, so that one can ask which indices they hand to it. -/

abbrev MapBlock := Inode → UInt32 → MapMode → Option UInt32 → FsM Mapped

section Callers

variable (map : MapBlock)

/-- The block that holds the last byte of the file, filled up from the buffer. A hole there is
allocated first. -/
def fillTailWith (buf : Buf) (a : Append) : FsM (Option Append) := do
  let tailIdx := blocksFor a.inode.sizeLo - 1
  let tailOff := a.inode.sizeLo % 4096
  let spliceLen := min a.bytesLeft (4096 - tailOff)
  let slackFrom (slack : Buf) : Buf :=
    splice slack tailOff.toNat buf a.bufByteCursor.toNat spliceLen.toNat
  let next : Append :=
    { a with bufByteCursor := a.bufByteCursor + spliceLen, bytesLeft := a.bytesLeft - spliceLen }
  let found ← map a.inode tailIdx .lookup none
  match found.status with
  | .emptyBlock =>
    let call ← map found.inode tailIdx .alloc (some a.allocCnt)
    if call.status = .writeSuccess then
      writeBlock (← call.blkOut) (slackFrom zero)
      pure (some { next with
        inode := call.inode, allocCnt := call.allocCnt.getD 0, allocedBackward := true })
    else pure none
  | .writeSuccess =>
    let tailBlkN ← found.blkOut
    let slack ← readBlock tailBlkN
    writeBlock tailBlkN (slackFrom slack)
    pure (some { next with inode := found.inode })
  | _ => pure none

def unwindBlockWith (inode : Inode) (fileBlkIdx : UInt32) : FsM Inode := do
  let call ← map inode fileBlkIdx .free none
  if call.status = .writeSuccess then
    let _ ← freeBlock (← call.blkOut)
    pure call.inode
  else
    panic "KERNEL PANIC: Inode free block operation failed when attempting to free block after append failure, disk corruption occurred!!"

def unwindBlocksWith (start : UInt32) : Nat → UInt32 → Inode → FsM Inode
  | 0, _, inode => pure inode
  | cnt + 1, i, inode => do unwindBlocksWith start cnt (i + 1) (← unwindBlockWith map inode (start + i))

/-- The loop that appends block after block. On failure everything this call allocated is given
back. -/
def appendBlocksWith (buf junk : Buf) (oldBlkCnt : UInt32) : Nat → UInt32 → Append → FsM (Option Append)
  | 0, _, a => pure (some a)
  | fuel + 1, blkIdx, a =>
    if a.bytesLeft = 0 then pure (some a)
    else do
      let call ← map a.inode (oldBlkCnt + blkIdx) .alloc (some a.allocCnt)
      if call.status = .writeSuccess then
        let addAmt := min a.bytesLeft 4096
        writeBlock (← call.blkOut) (splice junk 0 buf a.bufByteCursor.toNat addAmt.toNat)
        appendBlocksWith buf junk oldBlkCnt fuel (blkIdx + 1)
          { a with
            inode := call.inode
            allocCnt := call.allocCnt.getD 0
            bufByteCursor := a.bufByteCursor + addAmt
            bytesLeft := a.bytesLeft - addAmt }
      else
        let inode ← unwindBlocksWith map oldBlkCnt blkIdx.toNat 0 call.inode
        if a.allocedBackward then
          let _ ← unwindBlockWith map inode (oldBlkCnt - 1)
        pure none

def appendToInodeWith (now : UInt32) (junk : Buf) (inodeN : UInt32) (buf : Buf) (fSize : UInt32) :
    FsM (Option Inode) := do
  match ← getInode inodeN with
  | none => pure none
  | some inode =>
    let oldSize := inode.sizeLo
    if oldSize + fSize < oldSize then pure none
    else
      let start := Append.start inode fSize
      match ← (if oldSize % 4096 = 0 then pure (some start) else fillTailWith map buf start) with
      | none => pure none
      | some a =>
        match ← appendBlocksWith map buf junk (blocksFor oldSize) (fSize.toNat / 4096 + 1) 0 a with
        | none => pure none
        | some a =>
          let inode := { a.inode with
            sizeLo := a.inode.sizeLo + fSize
            diskSectors := a.inode.diskSectors + a.allocCnt * sectorsPerBlk
            lastModTime := now }
          if ← setInode inodeN inode then pure (some inode) else pure none

/-- The loop that releases the `cnt` file blocks from `blk` on; holes are skipped. It returns the inode
and how many blocks were released, or nothing when a lookup failed. -/
def truncateBlocksWith : Nat → UInt32 → Inode → UInt32 → FsM (Option (Inode × UInt32))
  | 0, _, inode, freeCnt => pure (some (inode, freeCnt))
  | cnt + 1, blk, inode, freeCnt => do
      let call ← map inode blk .free (some freeCnt)
      match call.status with
      | .emptyBlock => truncateBlocksWith cnt (blk + 1) call.inode (call.allocCnt.getD 0)
      | .writeSuccess =>
        let _ ← freeBlock (← call.blkOut)
        truncateBlocksWith cnt (blk + 1) call.inode (call.allocCnt.getD 0)
      | _ => pure none

/-- The bytes of the last block past the end of the file become zero. A hole is left alone. -/
def clearTailWith (inode : Inode) (newSize : UInt32) : FsM Bool := do
  let call ← map inode (newSize / 4096) .lookup none
  match call.status with
  | .emptyBlock => pure true
  | .writeSuccess =>
    let remainderBlk ← call.blkOut
    let bytes ← readBlock remainderBlk
    writeBlock remainderBlk fun k => if (newSize % 4096).toNat ≤ k then 0 else bytes k
    pure true
  | _ => pure false

def truncateInodeWith (now inodeN newSize : UInt32) : FsM (Option Inode) := do
  match ← getInode inodeN with
  | none => pure none
  | some inode =>
    if inode.sizeLo < newSize then pure none
    else
      let removeStart := blocksFor newSize
      let totalBlocks := blocksFor inode.sizeLo
      match ← truncateBlocksWith map (totalBlocks.toNat - removeStart.toNat) removeStart inode 0 with
      | none => pure none
      | some (inode, freeCnt) =>
        if ← (if newSize % 4096 = 0 then pure true else clearTailWith map inode newSize) then
          let inode := { inode with
            diskSectors := inode.diskSectors - freeCnt * sectorsPerBlk
            sizeLo := newSize
            lastModTime := now
            lastAccessTime := now }
          if ← setInode inodeN inode then pure (some inode) else pure none
        else pure none

end Callers

abbrev fillTail : Buf → Append → FsM (Option Append) := fillTailWith mapFileBlock

abbrev unwindBlock : Inode → UInt32 → FsM Inode := unwindBlockWith mapFileBlock

abbrev unwindBlocks : UInt32 → Nat → UInt32 → Inode → FsM Inode := unwindBlocksWith mapFileBlock

abbrev appendBlocks : Buf → Buf → UInt32 → Nat → UInt32 → Append → FsM (Option Append) := appendBlocksWith mapFileBlock

abbrev appendToInode : UInt32 → Buf → UInt32 → Buf → UInt32 → FsM (Option Inode) := appendToInodeWith mapFileBlock

abbrev truncateBlocks : Nat → UInt32 → Inode → UInt32 → FsM (Option (Inode × UInt32)) :=
  truncateBlocksWith mapFileBlock

abbrev clearTail : Inode → UInt32 → FsM Bool := clearTailWith mapFileBlock

abbrev truncateInode : UInt32 → UInt32 → UInt32 → FsM (Option Inode) := truncateInodeWith mapFileBlock

end DeprecatOS
