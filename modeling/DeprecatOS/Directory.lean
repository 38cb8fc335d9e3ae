import DeprecatOS.DirectoryController
import DeprecatOS.Consistent
import DeprecatOS.Lib.Tiling

/-!
# Directories as lists of entries

What the blocks of a directory mean. The records of a well-formed block tile it; the records in use are
its entries. A directory is a file of whole blocks without holes, and its entries are those of its blocks,
one block after the other.
-/

namespace DeprecatOS

open Bytes Bits Fault PointerTree Tiling

/-- A name without its terminating zero. -/
abbrev Name := List UInt8

def nameOf (name : Buf) : Name := (List.range (nameLength name)).map name

/-- Names of 1 to 255 characters of 7 bits, none of them zero. -/
def NameOk (name : Name) : Prop := 0 < name.length ∧ name.length < nameLen ∧ ∀ c ∈ name, 0 < c ∧ c < 128

instance (name : Name) : Decidable (NameOk name) :=
  @instDecidableAnd _ _ inferInstance (@instDecidableAnd _ _ inferInstance (List.decidableBAll _ name))

structure DirEntry where
  name : Name
  inode : UInt32
  type : UInt8
  deriving DecidableEq, Repr

def findEntry (es : List DirEntry) (name : Name) : Option DirEntry := es.find? fun e => e.name = name

/-! ### Blocks -/

def entryName (buf : Buf) (off : Nat) : Name :=
  (List.range (entryNameLen buf off)).map fun i => buf (off + 8 + i)

def entryAt (buf : Buf) (off : Nat) : Option DirEntry :=
  if entryInode buf off = 0 then none
  else some ⟨entryName buf off, entryInode buf off, buf (off + 7)⟩

def recordsFrom (buf : Buf) : Nat → Nat → List Nat
  | 0, _ => []
  | fuel + 1, cursor =>
    if cursor < blockSize then cursor :: recordsFrom buf fuel (cursor + entrySize buf cursor) else []

def records (buf : Buf) : List Nat := recordsFrom buf blockSize 0

def blockEntries (buf : Buf) : List DirEntry := (records buf).filterMap (entryAt buf)

/-- The size of a record is a multiple of four that holds its header and its name, also when it is dead. -/
structure RecordOk (buf : Buf) (off : Nat) : Prop where
  dvd : 4 ∣ entrySize buf off
  fits : trueSize buf off ≤ entrySize buf off

instance (buf : Buf) (off : Nat) : Decidable (RecordOk buf off) :=
  decidable_of_iff (4 ∣ entrySize buf off ∧ trueSize buf off ≤ entrySize buf off)
    ⟨fun h => ⟨h.1, h.2⟩, fun h => ⟨h.dvd, h.fits⟩⟩

structure BlockOk (buf : Buf) : Prop where
  tiles : Tiles (entrySize buf) 0 (records buf) blockSize
  record : ∀ off ∈ records buf, RecordOk buf off

instance (buf : Buf) : Decidable (BlockOk buf) :=
  decidable_of_iff (Tiles (entrySize buf) 0 (records buf) blockSize ∧ ∀ off ∈ records buf, RecordOk buf off)
    ⟨fun h => ⟨h.1, h.2⟩, fun h => ⟨h.tiles, h.record⟩⟩

/-! ### Directories -/

def FsInfo.fileBlock (fs : FsInfo) (inode : Inode) (i : Nat) : Buf := fun k =>
  if k < blockSize then fs.byte inode (blockSize * i + k) else 0

def Inode.dirBlocks (inode : Inode) : Nat := inode.sizeLo.toNat / blockSize

def FsInfo.dirEntries (fs : FsInfo) (inode : Inode) : List DirEntry :=
  (List.range inode.dirBlocks).flatMap fun i => blockEntries (fs.fileBlock inode i)

structure DirOk (fs : FsInfo) (inode : Inode) : Prop where
  aligned : blockSize ∣ inode.sizeLo.toNat
  mapped : ∀ i < inode.dirBlocks, mapped fs.entries inode i ≠ 0
  block : ∀ i < inode.dirBlocks, BlockOk (fs.fileBlock inode i)

instance (fs : FsInfo) (inode : Inode) : Decidable (DirOk fs inode) :=
  decidable_of_iff (blockSize ∣ inode.sizeLo.toNat ∧ (∀ i < inode.dirBlocks, mapped fs.entries inode i ≠ 0) ∧
      ∀ i < inode.dirBlocks, BlockOk (fs.fileBlock inode i))
    ⟨fun h => ⟨h.1, h.2.1, h.2.2⟩, fun h => ⟨h.aligned, h.mapped, h.block⟩⟩

end DeprecatOS
