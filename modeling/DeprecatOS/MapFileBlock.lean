import DeprecatOS.InodeTable

/-!
# From a file block index to a disk block

`map_file_block`. The source writes the walk out once for each depth of the tree, with its own index
arithmetic, and so does the model: `mapDirect`, `mapSingly`, `mapDoubly` and `mapTriply`. The
steps that are the same text at every depth (the block behind a pointer is there, or is allocated
and zeroed, or the walk ends) are one definition each.
-/

namespace DeprecatOS

open Bytes Bits Fault

/-- `LOOKUP_MODE`, `ALLOC_MODE` and `FREE_MODE`. -/
inductive MapMode where
  | lookup
  | alloc
  | free
  deriving DecidableEq, Repr

/-- What a call leaves in its status, in `*inode`, in `*disk_blk_out` and in `*alloc_cnt`. The last
two are absent when nothing was written and when the caller passed no counter. -/
structure Mapped where
  status : Status
  inode : Inode
  diskBlk : Option UInt32
  allocCnt : Option UInt32

/-- Why a step of the walk ends it: nothing is mapped, or no block is free. -/
inductive MapFailure where
  | emptyBlock
  | blockError
  deriving DecidableEq, Repr

def MapFailure.status : MapFailure → Status
  | emptyBlock => .emptyBlock
  | blockError => .blockError

def bump (allocCnt : Option UInt32) : Option UInt32 := allocCnt.map (· + 1)

def unbump (allocCnt : Option UInt32) : Option UInt32 := allocCnt.map (· - 1)

def elementsInside (buf : Buf) : Bool := (List.range ptrsPerBlk).any fun i => ptr buf i ≠ 0

/-- The pointer block an inode field points to: its number, whether it is new, and the counter. -/
def rootBlock (field : UInt32) (mode : MapMode) (allocCnt : Option UInt32) :
    FsM (Except MapFailure (UInt32 × Bool × Option UInt32)) :=
  if field = 0 then
    if mode ≠ .alloc then pure (.error .emptyBlock)
    else do
      let blockN ← allocBlock
      if blockN = 0 then pure (.error .blockError)
      else
        writeBlock blockN zero
        pure (.ok (blockN, true, bump allocCnt))
  else pure (.ok (field, false, allocCnt))

/-- The pointer block that entry `k` of the pointer block `parent` points to: the entries of `parent`,
whether the block is new, and the counter. -/
def childBlock (parent : UInt32) (k : Nat) (mode : MapMode) (allocCnt : Option UInt32) :
    FsM (Except MapFailure (Buf × Bool × Option UInt32)) := do
  let entries ← readBlock parent
  if ptr entries k = 0 then
    if mode ≠ .alloc then pure (.error .emptyBlock)
    else
      let blockN ← allocBlock
      if blockN = 0 then pure (.error .blockError)
      else
        writeBlock blockN zero
        writeBlock parent (setPtr entries k blockN)
        pure (.ok (setPtr entries k blockN, true, bump allocCnt))
  else pure (.ok (entries, false, allocCnt))

def dataBlock (indir : UInt32) (k : Nat) (mode : MapMode) (allocCnt : Option UInt32) :
    FsM (Except MapFailure (Buf × Option UInt32)) := do
  let entries ← readBlock indir
  if ptr entries k = 0 then
    if mode ≠ .alloc then pure (.error .emptyBlock)
    else
      let blockN ← allocBlock
      if blockN = 0 then pure (.error .blockError)
      else
        writeBlock indir (setPtr entries k blockN)
        pure (.ok (setPtr entries k blockN, bump allocCnt))
  else pure (.ok (entries, allocCnt))

def mapDirect (inode : Inode) (idx : Fin 12) (mode : MapMode) (allocCnt : Option UInt32) :
    FsM Mapped :=
  if inode.dirBlockPtr idx = 0 then
    if mode ≠ .alloc then pure ⟨.emptyBlock, inode, none, allocCnt⟩
    else do
      let blockN ← allocBlock
      if blockN = 0 then pure ⟨.blockError, inode, none, allocCnt⟩
      else
        pure ⟨.writeSuccess, { inode with dirBlockPtr := Function.update inode.dirBlockPtr idx blockN },
          some blockN, bump allocCnt⟩
  else if mode = .free then
    pure ⟨.writeSuccess, { inode with dirBlockPtr := Function.update inode.dirBlockPtr idx 0 },
      some (inode.dirBlockPtr idx), bump allocCnt⟩
  else pure ⟨.writeSuccess, inode, some (inode.dirBlockPtr idx), allocCnt⟩

def mapSingly (inode : Inode) (relIdx : Nat) (mode : MapMode) (allocCnt : Option UInt32) :
    FsM Mapped := do
  match ← rootBlock inode.singlyIndirBlockPtr mode allocCnt with
  | .error failure => pure ⟨failure.status, inode, none, allocCnt⟩
  | .ok (singly, singlyPtrMinted, allocCnt) =>
    let inode := { inode with singlyIndirBlockPtr := singly }
    match ← dataBlock singly relIdx mode allocCnt with
    | .error failure =>
      if failure = .blockError ∧ singlyPtrMinted then
        let _ ← freeBlock singly
        pure ⟨.blockError, { inode with singlyIndirBlockPtr := 0 }, none, unbump allocCnt⟩
      else pure ⟨failure.status, inode, none, allocCnt⟩
    | .ok (indirBlk, allocCnt) =>
      let diskBlk := ptr indirBlk relIdx
      if mode = .free then
        let indirBlk := setPtr indirBlk relIdx 0
        let allocCnt := bump allocCnt
        if elementsInside indirBlk then
          writeBlock singly indirBlk
          pure ⟨.writeSuccess, inode, some diskBlk, allocCnt⟩
        else
          let _ ← freeBlock singly
          pure ⟨.writeSuccess, { inode with singlyIndirBlockPtr := 0 }, some diskBlk, bump allocCnt⟩
      else pure ⟨.writeSuccess, inode, some diskBlk, allocCnt⟩

def mapDoubly (inode : Inode) (relIdx : Nat) (mode : MapMode) (allocCnt : Option UInt32) :
    FsM Mapped := do
  match ← rootBlock inode.doublyIndirBlockPtr mode allocCnt with
  | .error failure => pure ⟨failure.status, inode, none, allocCnt⟩
  | .ok (doubly, doublyPtrMinted, allocCnt) =>
    let inode := { inode with doublyIndirBlockPtr := doubly }
    match ← childBlock doubly (relIdx / ptrsPerBlk) mode allocCnt with
    | .error failure =>
      if failure = .blockError ∧ doublyPtrMinted then
        let _ ← freeBlock doubly
        pure ⟨.blockError, { inode with doublyIndirBlockPtr := 0 }, none, unbump allocCnt⟩
      else pure ⟨failure.status, inode, none, allocCnt⟩
    | .ok (doublyBlk, singlyPtrMinted, allocCnt) =>
      let singly := ptr doublyBlk (relIdx / ptrsPerBlk)
      match ← dataBlock singly (relIdx % ptrsPerBlk) mode allocCnt with
      | .error failure =>
        if failure = .blockError ∧ singlyPtrMinted then
          let _ ← freeBlock singly
          let doublyBlk := setPtr doublyBlk (relIdx / ptrsPerBlk) 0
          let allocCnt := unbump allocCnt
          if doublyPtrMinted then
            let _ ← freeBlock doubly
            pure ⟨.blockError, { inode with doublyIndirBlockPtr := 0 }, none, unbump allocCnt⟩
          else
            writeBlock doubly doublyBlk
            pure ⟨.blockError, inode, none, allocCnt⟩
        else pure ⟨failure.status, inode, none, allocCnt⟩
      | .ok (indirBlk, allocCnt) =>
        let diskBlk := ptr indirBlk (relIdx % ptrsPerBlk)
        if mode = .free then
          let indirBlk := setPtr indirBlk (relIdx % ptrsPerBlk) 0
          let allocCnt := bump allocCnt
          if elementsInside indirBlk then
            writeBlock singly indirBlk
            pure ⟨.writeSuccess, inode, some diskBlk, allocCnt⟩
          else
            let _ ← freeBlock singly
            let doublyBlk := setPtr doublyBlk (relIdx / ptrsPerBlk % ptrsPerBlk) 0
            let allocCnt := bump allocCnt
            if elementsInside doublyBlk then
              writeBlock doubly doublyBlk
              pure ⟨.writeSuccess, inode, some diskBlk, allocCnt⟩
            else
              let _ ← freeBlock doubly
              pure ⟨.writeSuccess, { inode with doublyIndirBlockPtr := 0 }, some diskBlk,
                bump allocCnt⟩
        else pure ⟨.writeSuccess, inode, some diskBlk, allocCnt⟩

/-- The source indexes the top block unchecked, so an index past the tree has no defined meaning. -/
def mapTriply (inode : Inode) (relIdx : Nat) (mode : MapMode) (allocCnt : Option UInt32) :
    FsM Mapped := do
  match ← rootBlock inode.triplyIndirBlockPtr mode allocCnt with
  | .error failure => pure ⟨failure.status, inode, none, allocCnt⟩
  | .ok (triply, triplyPtrMinted, allocCnt) =>
    let inode := { inode with triplyIndirBlockPtr := triply }
    if ptrsPerBlk ≤ relIdx / (ptrsPerBlk * ptrsPerBlk) then fault .undefined else
    match ← childBlock triply (relIdx / (ptrsPerBlk * ptrsPerBlk)) mode allocCnt with
    | .error failure =>
      if failure = .blockError ∧ triplyPtrMinted then
        let _ ← freeBlock triply
        pure ⟨.blockError, { inode with triplyIndirBlockPtr := 0 }, none, unbump allocCnt⟩
      else pure ⟨failure.status, inode, none, allocCnt⟩
    | .ok (triplyBlk, doublyPtrMinted, allocCnt) =>
      let doubly := ptr triplyBlk (relIdx / (ptrsPerBlk * ptrsPerBlk))
      match ← childBlock doubly (relIdx / ptrsPerBlk % ptrsPerBlk) mode allocCnt with
      | .error failure =>
        if failure = .blockError ∧ doublyPtrMinted then
          let _ ← freeBlock doubly
          let triplyBlk := setPtr triplyBlk (relIdx / (ptrsPerBlk * ptrsPerBlk)) 0
          let allocCnt := unbump allocCnt
          if triplyPtrMinted then
            let _ ← freeBlock triply
            pure ⟨.blockError, { inode with triplyIndirBlockPtr := 0 }, none, unbump allocCnt⟩
          else
            writeBlock triply triplyBlk
            pure ⟨.blockError, inode, none, allocCnt⟩
        else pure ⟨failure.status, inode, none, allocCnt⟩
      | .ok (doublyBlk, singlyPtrMinted, allocCnt) =>
        let singly := ptr doublyBlk (relIdx / ptrsPerBlk % ptrsPerBlk)
        match ← dataBlock singly (relIdx % ptrsPerBlk) mode allocCnt with
        | .error failure =>
          if failure = .blockError ∧ singlyPtrMinted then
            let _ ← freeBlock singly
            let doublyBlk := setPtr doublyBlk (relIdx / ptrsPerBlk % ptrsPerBlk) 0
            let allocCnt := unbump allocCnt
            if doublyPtrMinted then
              let _ ← freeBlock doubly
              let triplyBlk := setPtr triplyBlk (relIdx / (ptrsPerBlk * ptrsPerBlk)) 0
              let allocCnt := unbump allocCnt
              if triplyPtrMinted then
                let _ ← freeBlock triply
                pure ⟨.blockError, { inode with triplyIndirBlockPtr := 0 }, none,
                  unbump allocCnt⟩
              else
                writeBlock triply triplyBlk
                pure ⟨.blockError, inode, none, allocCnt⟩
            else
              writeBlock doubly doublyBlk
              pure ⟨.blockError, inode, none, allocCnt⟩
          else pure ⟨failure.status, inode, none, allocCnt⟩
        | .ok (indirBlk, allocCnt) =>
          let diskBlk := ptr indirBlk (relIdx % ptrsPerBlk)
          if mode = .free then
            let indirBlk := setPtr indirBlk (relIdx % ptrsPerBlk) 0
            let allocCnt := bump allocCnt
            if elementsInside indirBlk then
              writeBlock singly indirBlk
              pure ⟨.writeSuccess, inode, some diskBlk, allocCnt⟩
            else
              let _ ← freeBlock singly
              let doublyBlk := setPtr doublyBlk (relIdx / ptrsPerBlk % ptrsPerBlk) 0
              let allocCnt := bump allocCnt
              if elementsInside doublyBlk then
                writeBlock doubly doublyBlk
                pure ⟨.writeSuccess, inode, some diskBlk, allocCnt⟩
              else
                let _ ← freeBlock doubly
                let triplyBlk := setPtr triplyBlk (relIdx / (ptrsPerBlk * ptrsPerBlk)) 0
                let allocCnt := bump allocCnt
                if elementsInside triplyBlk then
                  writeBlock triply triplyBlk
                  pure ⟨.writeSuccess, inode, some diskBlk, allocCnt⟩
                else
                  let _ ← freeBlock triply
                  pure ⟨.writeSuccess, { inode with triplyIndirBlockPtr := 0 }, some diskBlk,
                    bump allocCnt⟩
          else pure ⟨.writeSuccess, inode, some diskBlk, allocCnt⟩

def mapFileBlock (inode : Inode) (fileBlkIdx : UInt32) (mode : MapMode) (allocCnt : Option UInt32) :
    FsM Mapped :=
  if hdirect : fileBlkIdx.toNat < 12 then mapDirect inode ⟨fileBlkIdx.toNat, hdirect⟩ mode allocCnt
  else
    let relIdx := fileBlkIdx.toNat - inodeBlkPtrAmt
    if relIdx < ptrsPerBlk then mapSingly inode relIdx mode allocCnt
    else
      let relIdx := relIdx - ptrsPerBlk
      if relIdx < ptrsPerBlk * ptrsPerBlk then mapDoubly inode relIdx mode allocCnt
      else mapTriply inode (relIdx - ptrsPerBlk * ptrsPerBlk) mode allocCnt

end DeprecatOS
