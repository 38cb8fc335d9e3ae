import DeprecatOS.Machine

/-!
# Directories

`directoryController.c`, apart from path resolution. A directory is a file of whole blocks, each tiled by
records of a header of eight bytes and a name. A record whose inode number is zero is dead.

A name is where it is in memory: the bytes up to the terminating zero. What lies past the end of a name is
arbitrary, as the source may read it on a malformed directory. What lies past the end of a block decides
nothing: a record whose header reaches there is refused whatever it holds, and `lookup`, which refuses
none, has no defined behaviour there.

The functions that go through a mountpoint are programs on the machine; what they do on one filesystem
afterwards is a program on that filesystem.
-/

namespace DeprecatOS

open Bytes Bits Fault

def nameLen : Nat := 256

def maxDirDepth : Nat := 1024

def maxSymlinkLen : Nat := 59

def maxFileSize : Nat := 4096 * (12 + 1024 + 1024 ^ 2 + 1024 ^ 3)

def cstr (s : List UInt8) : Buf := fun k => s.getD k 0

def dot : List UInt8 := [46]

def dotDot : List UInt8 := [46, 46]

/-- The loop `while (len < bound && name[len] != 0) len++`, from `len` on. -/
def scanName (name : Buf) : Nat → Nat → Nat
  | 0, len => len
  | fuel + 1, len => if name len = 0 then len else scanName name fuel (len + 1)

/-- The length of a name, or `NAME_LEN` when it is too long. -/
def nameLength (name : Buf) : Nat := scanName name nameLen 0

def strlen (s : Buf) : Nat :=
  if scanName s 1000000000 0 = 1000000000 then 1000000001 else scanName s 1000000000 0

def streq (name : Buf) (lit : List UInt8) : Bool :=
  (List.range (lit.length + 1)).all fun i => name i = cstr lit i

/-! ### Records -/

def entryInode (buf : Buf) (off : Nat) : UInt32 := load32 buf off

def entrySize (buf : Buf) (off : Nat) : Nat := (load16 buf (off + 4)).toNat

def entryNameLen (buf : Buf) (off : Nat) : Nat := (buf (off + 6)).toNat

def align4 (n : Nat) : Nat := (n + 3) / 4 * 4

def trueSize (buf : Buf) (off : Nat) : Nat := align4 (8 + entryNameLen buf off)

/-- The check on a record's header that every scan but `lookup` makes. -/
def badEntry (buf : Buf) (cursor : Nat) : Bool :=
  entrySize buf cursor < 8 || entrySize buf cursor < trueSize buf cursor ||
    blockSize < cursor + entrySize buf cursor

/-- `comp_name(entry->name, entry->name_len_lo, name)`. The bytes of the record are unsigned, those of
the name are of type `char`, which is signed. -/
def compName (buf : Buf) (off : Nat) (name : Buf) : Bool :=
  ((List.range (entryNameLen buf off)).all fun i =>
    ((buf (off + 8 + i)).toNat : Int) = (name i).toInt8.toInt) &&
  name (entryNameLen buf off) = 0

def entryNamed (buf : Buf) (off : Nat) (name : Buf) : Bool :=
  entryInode buf off ≠ 0 && compName buf off name

/-- `comp_name` compares one character after another. It goes on behind the block when the characters of the record that
lie in the block are those of the name and the record has more. -/
def compLeaves (buf : Buf) (off : Nat) (name : Buf) : Bool :=
  blockSize < off + 8 + entryNameLen buf off &&
    (List.range (blockSize - (off + 8))).all fun i => ((buf (off + 8 + i)).toNat : Int) = (name i).toInt8.toInt

/-- The loop of `lookup` from `cursor` on; a step forward is at least one byte. Unlike the other scans it does not check
that a record lies in the block, and reads what is behind the buffer when one does not. -/
def lookupFrom (buf name : Buf) (size : Nat) : Nat → Nat → Except Stop (Option UInt32)
  | 0, _ => .ok none
  | fuel + 1, cursor =>
    if cursor < size then
      if blockSize < cursor + 6 then .error .undefined
      else if entrySize buf cursor = 0 then .ok none
      else if entryInode buf cursor = 0 then lookupFrom buf name size fuel (cursor + entrySize buf cursor)
      else if blockSize < cursor + 7 || compLeaves buf cursor name then .error .undefined
      else if compName buf cursor name then .ok (some (entryInode buf cursor))
      else lookupFrom buf name size fuel (cursor + entrySize buf cursor)
    else .ok none

def lookup (buf name : Buf) (size : Nat) : Except Stop (Option UInt32) := lookupFrom buf name size (size + 1) 0

/-! ### Scans -/

/-- `map_file_block(fs, &inode, i, LOOKUP_MODE, &dest_blk, NULL)` followed by `read_block`, or nothing
when the block is not mapped. -/
def readFileBlock (inode : Inode) (i : UInt32) : FsM (Option (UInt32 × Buf)) := do
  let call ← mapFileBlock inode i .lookup none
  if call.status = .writeSuccess then
    let destBlk ← call.blkOut
    let scan ← readBlock destBlk
    pure (some (destBlk, scan))
  else pure none

def nameInBlock (scan name : Buf) : Nat → Nat → Option UInt32
  | 0, _ => none
  | fuel + 1, cursor =>
    if cursor < blockSize then
      if badEntry scan cursor then none
      else if entryNamed scan cursor name then some (entryInode scan cursor)
      else nameInBlock scan name fuel (cursor + entrySize scan cursor)
    else none

def nameInBlocks (inode : Inode) (name : Buf) : Nat → UInt32 → FsM (Option UInt32)
  | 0, _ => pure none
  | cnt + 1, i => do
      match ← readFileBlock inode i with
      | none => pure none
      | some (_, scan) =>
        match nameInBlock scan name blockSize 0 with
        | some inodeN => pure (some inodeN)
        | none => nameInBlocks inode name cnt (i + 1)

def nameIn (inode : Inode) (name : Buf) : FsM (Option UInt32) :=
  nameInBlocks inode name (inode.sizeLo / 4096).toNat 0

def blockIsEmpty (scan : Buf) : Nat → Nat → Bool
  | 0, _ => true
  | fuel + 1, cursor =>
    if cursor < blockSize then
      if badEntry scan cursor then true
      else if entryInode scan cursor ≠ 0 && !compName scan cursor (cstr dot) &&
          !compName scan cursor (cstr dotDot) then false
      else blockIsEmpty scan fuel (cursor + entrySize scan cursor)
    else true

def blocksAreEmpty (inode : Inode) : Nat → UInt32 → FsM Bool
  | 0, _ => pure true
  | cnt + 1, i => do
      match ← readFileBlock inode i with
      | none => pure false
      | some (_, scan) =>
        if blockIsEmpty scan blockSize 0 then blocksAreEmpty inode cnt (i + 1) else pure false

def dirIsEmpty (inode : Inode) : FsM Bool := blocksAreEmpty inode (inode.sizeLo / 4096).toNat 0

def dirContains (fs : Slot) (parentN : UInt32) (name : Buf) : MachineM (Option UInt32) := do
  let (_, fs, parentN) ← returnMntRoot fs parentN
  onFs fs do
    match ← getInode parentN with
    | none => pure none
    | some parent => if parent.type = inodeDirType then nameIn parent name else pure none

/-! ### Inserting -/

def entryType (child : Inode) : UInt8 :=
  if child.type = inodeSymlinkType then 7 else if child.type = inodeDirType then 2 else 1

def writeEntry (buf : Buf) (off : Nat) (childN : UInt32) (name : Buf) (len : Nat) (type : UInt8) : Buf :=
  let buf := store32 buf off childN
  let buf := store8 buf (off + 6) (UInt8.ofNat len)
  let buf := splice buf (off + 8) name 0 len
  store8 buf (off + 7) type

def setEntrySize (buf : Buf) (off size : Nat) : Buf := store16 buf (off + 4) (UInt16.ofNat size)

inductive Scan (α : Type) where
  | malformed
  | found (result : α)
  | notFound

/-- The loop of `dir_insert` over one block: the first dead record that is large enough is reused, or the
slack of the first record that has enough of it. -/
def insertInBlock (scratch : Buf) (childN : UInt32) (name : Buf) (len : Nat) (type : UInt8) :
    Nat → Nat → Scan Buf
  | 0, _ => .notFound
  | fuel + 1, cursor =>
    if cursor < blockSize then
      if badEntry scratch cursor then .malformed
      else if entryInode scratch cursor = 0 ∧ align4 (8 + len) ≤ entrySize scratch cursor then
        .found (writeEntry scratch cursor childN name len type)
      else
        let slack := entrySize scratch cursor - trueSize scratch cursor
        if align4 (8 + len) ≤ slack then
          let next := cursor + trueSize scratch cursor
          let scratch := setEntrySize scratch cursor (trueSize scratch cursor)
          .found (writeEntry (setEntrySize scratch next slack) next childN name len type)
        else insertInBlock scratch childN name len type fuel (cursor + entrySize scratch cursor)
    else .notFound

def linkChild (now parentN childN : UInt32) (parent child : Inode) : FsM Bool := do
  let child := { child with hardLinkCnt := child.hardLinkCnt + 1 }
  if parentN = childN then setInode childN { child with lastModTime := now }
  else if ← setInode childN child then setInode parentN { parent with lastModTime := now }
  else pure false

/-- The loop of `dir_insert` over the blocks from `i` on. It returns what `dir_insert` returns, or nothing
when no block has room. -/
def insertInBlocks (now parentN childN : UInt32) (parent child : Inode) (name : Buf) (len : Nat) :
    Nat → UInt32 → FsM (Option Bool)
  | 0, _ => pure none
  | cnt + 1, i => do
      match ← readFileBlock parent i with
      | none => pure (some false)
      | some (destBlk, scratch) =>
        match insertInBlock scratch childN name len (entryType child) blockSize 0 with
        | .malformed => pure (some false)
        | .found scratch =>
          writeBlock destBlk scratch
          pure (some (← linkChild now parentN childN parent child))
        | .notFound => insertInBlocks now parentN childN parent child name len cnt (i + 1)

def seedBlock (childN : UInt32) (name : Buf) (len : Nat) (type : UInt8) : Buf :=
  writeEntry (setEntrySize zero 0 blockSize) 0 childN name len type

def growDir (now parentN childN : UInt32) (parent child : Inode) (name : Buf) (len : Nat) :
    FsM Bool := do
  if maxFileSize < parent.sizeLo.toNat + align4 (8 + len) then pure false
  else
    let call ← mapFileBlock parent (blocksFor parent.sizeLo) .alloc (some 0)
    if call.status = .writeSuccess then
      let parent := call.inode
      let parent :=
        { parent with diskSectors := parent.diskSectors + call.allocCnt.getD 0 * sectorsPerBlk }
      writeBlock (← call.blkOut) (seedBlock childN name len (entryType child))
      let parent := { parent with sizeLo := parent.sizeLo + 4096 }
      if parentN = childN then
        setInode parentN { parent with lastModTime := now, hardLinkCnt := parent.hardLinkCnt + 1 }
      else if ← setInode childN { child with hardLinkCnt := child.hardLinkCnt + 1 } then
        setInode parentN { parent with lastModTime := now }
      else pure false
    else pure false

def insertEntry (now parentN : UInt32) (name : Buf) (len : Nat) (childN : UInt32) (child : Inode) :
    FsM Bool := do
  match ← getInode parentN with
  | none => pure false
  | some parent =>
    if parent.type ≠ inodeDirType then pure false
    else
      match ← insertInBlocks now parentN childN parent child name len (parent.sizeLo / 4096).toNat 0 with
      | some done => pure done
      | none => growDir now parentN childN parent child name len

def dirInsert (now : UInt32) (fs : Slot) (parentN : UInt32) (name : Buf) (childN : UInt32) :
    MachineM Bool := do
  let len := nameLength name
  if len = 0 ∨ nameLen ≤ len then pure false
  else
    match ← onFs fs (getInode childN) with
    | none => pure false
    | some child =>
      let childFs := fs
      let (_, fs, parentN) ← returnMntRoot fs parentN
      if fs ≠ childFs then pure false else onFs fs (insertEntry now parentN name len childN child)

/-! ### Removing -/

/-- The loop of `dir_remove` over one block: the inode number of the record with the name, and the block
without the record. The first record of a block becomes dead, another is merged into the one before
it. -/
def removeInBlock (scratch name : Buf) : Nat → Nat → Nat → Scan (UInt32 × Buf)
  | 0, _, _ => .notFound
  | fuel + 1, cursor, prev =>
    if cursor < blockSize then
      if badEntry scratch cursor then .malformed
      else if entryNamed scratch cursor name then
        .found (entryInode scratch cursor,
          if cursor = 0 then store32 scratch cursor 0
          else setEntrySize scratch prev (entrySize scratch prev + entrySize scratch cursor))
      else removeInBlock scratch name fuel (cursor + entrySize scratch cursor) cursor
    else .notFound

def unlinkChild (now parentN inodeN : UInt32) (parent : Inode) : FsM Bool := do
  match ← getInode inodeN with
  | none => pure false
  | some inode =>
    let inode := { inode with hardLinkCnt := inode.hardLinkCnt - 1 }
    if parentN = inodeN then setInode inodeN { inode with lastModTime := now }
    else if ← setInode inodeN inode then setInode parentN { parent with lastModTime := now }
    else pure false

def removeInBlocks (now parentN : UInt32) (parent : Inode) (name : Buf) :
    Nat → UInt32 → FsM (Option UInt32)
  | 0, _ => pure none
  | cnt + 1, i => do
      match ← readFileBlock parent i with
      | none => pure none
      | some (destBlk, scratch) =>
        match removeInBlock scratch name blockSize 0 0 with
        | .malformed => pure none
        | .found (inodeN, scratch) =>
          writeBlock destBlk scratch
          if ← unlinkChild now parentN inodeN parent then pure (some inodeN) else pure none
        | .notFound => removeInBlocks now parentN parent name cnt (i + 1)

def removeEntry (now parentN : UInt32) (name : Buf) : FsM (Option UInt32) := do
  match ← getInode parentN with
  | none => pure none
  | some parent =>
    if parent.type ≠ inodeDirType then pure none
    else removeInBlocks now parentN parent name (parent.sizeLo / 4096).toNat 0

/-- `dir_remove` returns the removed inode number, or nothing when it returns false: the callers look at
`*removed_inode_n` only when it returns true. -/
def dirRemove (now : UInt32) (fs : Slot) (parentN : UInt32) (name : Buf) :
    MachineM (Option UInt32) := do
  let len := nameLength name
  if len = 0 ∨ nameLen ≤ len then pure none
  else
    let (_, fs, parentN) ← returnMntRoot fs parentN
    onFs fs (removeEntry now parentN name)

/-! ### Making -/

/-- What `make_dir` and `make_file` check before they allocate: the filesystem and the number of the
parent directory, which does not have the name. -/
def makeIn (fs : Slot) (parentN : UInt32) (name : Buf) : MachineM (Option (Slot × UInt32)) := do
  let len := nameLength name
  if len = 0 ∨ nameLen ≤ len then pure none
  else
    let (_, fs, parentN) ← returnMntRoot fs parentN
    match ← onFs fs (getInode parentN) with
    | none => pure none
    | some parent =>
      if parent.type ≠ inodeDirType then pure none
      else if (← onFs fs (nameIn parent name)).isSome then pure none
      else pure (some (fs, parentN))

/-- `make_dir` returns the number of the new directory and leaves its filesystem in `*fs_out`. -/
def makeDir (now : UInt32) (fs : Slot) (parentN : UInt32) (name : Buf) :
    MachineM (Option (Slot × UInt32)) := do
  match ← makeIn fs parentN name with
  | none => pure none
  | some (fs, parentN) =>
    match ← onFs fs (putInode now (setEntrySize zero 0 blockSize) 4096 true) with
    | none => pure none
    | some (childN, _) =>
      if ← dirInsert now fs childN (cstr dot) childN then
        if ← dirInsert now fs childN (cstr dotDot) parentN then
          if ← dirInsert now fs parentN name childN then pure (some (fs, childN)) else pure none
        else pure none
      else pure none

def makeFile (now : UInt32) (fs : Slot) (parentN : UInt32) (name : Buf) :
    MachineM (Option (Slot × UInt32)) := do
  match ← makeIn fs parentN name with
  | none => pure none
  | some (fs, parentN) =>
    match ← onFs fs (putInode now zero 0 false) with
    | none => pure none
    | some (childN, _) =>
      if ← dirInsert now fs parentN name childN then pure (some (fs, childN))
      else
        let _ ← onFs fs (freeInode childN)
        pure none

def Inode.setInlineTarget (symlink : Inode) (target : Buf) (len : Nat) : Inode :=
  let raw : Buf := fun k => if k ≤ len then target k else 0
  { symlink with
    dirBlockPtr := fun i => load32 raw (4 * i)
    singlyIndirBlockPtr := load32 raw 48
    doublyIndirBlockPtr := load32 raw 52
    triplyIndirBlockPtr := load32 raw 56 }

def writeTarget (junk target : Buf) (len : Nat) (symlink : Inode) :
    FsM (Option (Option UInt32 × Inode)) := do
  if maxSymlinkLen < len then
    let call ← mapFileBlock symlink 0 .alloc none
    if call.status = .writeSuccess then
      let blockN ← call.blkOut
      writeBlock blockN (splice junk 0 target 0 (len + 1))
      let symlink := call.inode
      pure (some (some blockN, { symlink with diskSectors := symlink.diskSectors + sectorsPerBlk }))
    else pure none
  else pure (some (none, symlink.setInlineTarget target len))

def dropLink (linkN : UInt32) (blockN : Option UInt32) : FsM Unit := do
  let _ ← freeInode linkN
  match blockN with
  | none => pure ()
  | some blockN => do let _ ← freeBlock blockN

def makeSymlink (now : UInt32) (junk : Buf) (fs : Slot) (parentN : UInt32) (name target : Buf) :
    MachineM Bool := do
  let len := strlen target
  if len = 0 ∨ blockSize ≤ len then pure false
  else
    let (_, fs, parentN) ← returnMntRoot fs parentN
    match ← onFs fs (mintInode now (UInt32.ofNat len) inodeSymlinkType) with
    | none => pure false
    | some (linkN, symlink) =>
      match ← onFs fs (writeTarget junk target len symlink) with
      | none =>
        let _ ← onFs fs (freeInode linkN)
        pure false
      | some (blockN, symlink) =>
        if ← onFs fs (setInode linkN symlink) then
          if ← dirInsert now fs parentN name linkN then pure true
          else
            onFs fs (dropLink linkN blockN)
            pure false
        else
          onFs fs (dropLink linkN blockN)
          pure false

/-! ### Unlinking -/

def unlinkInode (now : UInt32) (fs : Slot) (parentN : UInt32) (name : Buf) : MachineM Bool := do
  let (_, fs, parentN) ← returnMntRoot fs parentN
  match ← onFs fs (getInode parentN) with
  | none => pure false
  | some parent =>
    if parent.type ≠ inodeDirType then pure false
    else
      match ← onFs fs (nameIn parent name) with
      | none => pure false
      | some removeInodeN =>
        match ← onFs fs (getInode removeInodeN) with
        | none => pure false
        | some toRemove =>
          if toRemove.type = inodeDirType then pure false
          else
            match ← dirRemove now fs parentN name with
            | none => pure false
            | some removed =>
              match ← onFs fs (getInode removed) with
              | none => pure false
              | some removedInode =>
                if removedInode.hardLinkCnt = 0 then onFs fs (deleteInode now removed)
                else pure true

/-- The end of `unlink_dir`: the parent loses the link from `..`, and the directory is deleted. -/
def dropDir (now parentN removed : UInt32) : FsM Bool := do
  match ← getInode parentN with
  | none => pure false
  | some parent =>
    if ← setInode parentN { parent with hardLinkCnt := parent.hardLinkCnt - 1 } then
      match ← getInode removed with
      | none => pure false
      | some _ => deleteInode now removed
    else pure false

def unlinkDir (now : UInt32) (fs : Slot) (parentN : UInt32) (name : Buf) : MachineM Bool := do
  if streq name dot || streq name dotDot then pure false
  else
    let (_, fs, parentN) ← returnMntRoot fs parentN
    match ← onFs fs (getInode parentN) with
    | none => pure false
    | some parent =>
      if parent.type ≠ inodeDirType then pure false
      else
        match ← onFs fs (nameIn parent name) with
        | none => pure false
        | some removeInodeN =>
          let (busy, _) ← returnMntRoot fs removeInodeN
          if busy then pure false
          else
            match ← onFs fs (getInode removeInodeN) with
            | none => pure false
            | some toRemove =>
              if toRemove.type ≠ inodeDirType then pure false
              else if ← onFs fs (dirIsEmpty toRemove) then
                match ← dirRemove now fs parentN name with
                | none => pure false
                | some removed => onFs fs (dropDir now parentN removed)
              else pure false

/-! ### Renaming -/

def setParentInBlock (scratch : Buf) (newParentN : UInt32) : Nat → Nat → Scan Buf
  | 0, _ => .notFound
  | fuel + 1, cursor =>
    if cursor < blockSize then
      if badEntry scratch cursor then .malformed
      else if entryNamed scratch cursor (cstr dotDot) then .found (store32 scratch cursor newParentN)
      else setParentInBlock scratch newParentN fuel (cursor + entrySize scratch cursor)
    else .notFound

def setParentInBlocks (child : Inode) (newParentN : UInt32) : Nat → UInt32 → FsM Bool
  | 0, _ => pure false
  | cnt + 1, i => do
      match ← readFileBlock child i with
      | none => pure false
      | some (destBlk, scratch) =>
        match setParentInBlock scratch newParentN blockSize 0 with
        | .malformed => pure false
        | .found scratch =>
          writeBlock destBlk scratch
          pure true
        | .notFound => setParentInBlocks child newParentN cnt (i + 1)

def dirSetParentEntry (childN newParentN : UInt32) : FsM Bool := do
  match ← getInode childN with
  | none => pure false
  | some child =>
    if child.type ≠ inodeDirType then pure false
    else
      match ← getInode newParentN with
      | none => pure false
      | some newParent =>
        if newParent.type ≠ inodeDirType then pure false
        else setParentInBlocks child newParentN (child.sizeLo / 4096).toNat 0

def isAncestorFrom (maybeAncestor : UInt32) : Nat → UInt32 → FsM Bool
  | 0, _ => pure true
  | depth + 1, cur => do
      if cur = maybeAncestor then pure true
      else if cur = rootInodeN then pure false
      else
        match ← getInode cur with
        | none => pure true
        | some ino =>
          match ← nameIn ino (cstr dotDot) with
          | none => pure true
          | some cur => isAncestorFrom maybeAncestor depth cur

def isAncestor (maybeAncestor maybeDescendant : UInt32) : FsM Bool :=
  isAncestorFrom maybeAncestor maxDirDepth maybeDescendant

def moveParentLink (childN oldParentN newParentN : UInt32) : FsM Bool := do
  if ← dirSetParentEntry childN newParentN then
    match ← getInode oldParentN with
    | none => pure false
    | some oldParent =>
      if ← setInode oldParentN { oldParent with hardLinkCnt := oldParent.hardLinkCnt - 1 } then
        match ← getInode newParentN with
        | none => pure false
        | some newParent =>
          setInode newParentN { newParent with hardLinkCnt := newParent.hardLinkCnt + 1 }
      else pure false
  else pure false

def renameInode (now : UInt32) (fs : Slot) (oldParentN : UInt32) (oldName : Buf) (newParentN : UInt32)
    (newName : Buf) : MachineM Bool := do
  if streq oldName dot || streq oldName dotDot || streq newName dot || streq newName dotDot then
    pure false
  else
    let (_, oldFs, oldParentN) ← returnMntRoot fs oldParentN
    let (_, newFs, newParentN) ← returnMntRoot fs newParentN
    if oldFs ≠ newFs then pure false
    else
      let fs := oldFs
      match ← onFs fs (getInode oldParentN) with
      | none => pure false
      | some oldParent =>
        if oldParent.type ≠ inodeDirType then pure false
        else
          match ← onFs fs (getInode newParentN) with
          | none => pure false
          | some newParent =>
            if newParent.type ≠ inodeDirType then pure false
            else
              match ← onFs fs (nameIn oldParent oldName) with
              | none => pure false
              | some childN =>
                let (busy, _) ← returnMntRoot fs childN
                if busy then pure false
                else if (← onFs fs (nameIn newParent newName)).isSome then pure false
                else if childN = rootInodeN then pure false
                else moveEntry now fs oldParentN oldName newParentN newName childN
where
  /-- The part of `rename_inode` after the checks on the names. -/
  moveEntry (now : UInt32) (fs : Slot) (oldParentN : UInt32) (oldName : Buf) (newParentN : UInt32)
      (newName : Buf) (childN : UInt32) : MachineM Bool := do
    match ← onFs fs (getInode childN) with
    | none => pure false
    | some child =>
      if ← (if child.type = inodeDirType then onFs fs (isAncestor childN newParentN) else pure false) then
        pure false
      else if ← dirInsert now fs newParentN newName childN then
        match ← dirRemove now fs oldParentN oldName with
        | none => pure false
        | some _ =>
          if oldParentN ≠ newParentN ∧ child.type = inodeDirType then
            onFs fs (moveParentLink childN oldParentN newParentN)
          else pure true
      else pure false

end DeprecatOS
