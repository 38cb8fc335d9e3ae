import DeprecatOS.FrameAllocator

/-!
# The page tables

`kernel_dir` is a frame of 1024 directory entries; a present entry holds the address of a table, a
frame of 1024 page entries. Tables are made on demand from the frame allocator, below `HEAP_START`,
where physical memory is mapped to itself.
-/

namespace DeprecatOS

def heapStart : UInt32 := 0x10000000
def kernelCeiling : UInt32 := 0x40000000

def pagePresent : UInt32 := 1
def pageRw : UInt32 := 2
def pageUser : UInt32 := 4

def entryFrame (entry : UInt32) : UInt32 := entry &&& ~~~0xFFF

def dirIndex (virt : UInt32) : Nat := (virt >>> 22).toNat

def tableIndex (virt : UInt32) : Nat := ((virt >>> 12) &&& 0x3FF).toNat

/-- The state the paging code works on. Physical memory is read and written a word at a time, by the
address of a frame and the index of a word in it. -/
structure Paging where
  frameBitmap : FrameBitmap
  kernelDir : UInt32
  mem : UInt32 → Nat → UInt32

def Paging.store (s : Paging) (frame : UInt32) (idx : Nat) (word : UInt32) : Paging :=
  { s with mem := Function.update s.mem frame (Function.update (s.mem frame) idx word) }

def Paging.clearTable (s : Paging) (table : UInt32) : Paging :=
  { s with mem := Function.update s.mem table fun i => if i < 1024 then 0 else s.mem table i }

/-- The first part of `map_page`: a table for directory entry `di` where there is none. False when
`map_page` returns here. -/
def addTable (s : Paging) (dir : UInt32) (di : Nat) : Bool × Paging :=
  if s.mem dir di &&& pagePresent = 0 then
    let (tableAddr, bm) := allocFrame s.frameBitmap
    if heapStart ≤ tableAddr ∨ tableAddr = 0 then
      (false, { s with frameBitmap := if tableAddr ≠ 0 then freeFrame bm tableAddr else bm })
    else
      let s := Paging.clearTable { s with frameBitmap := bm } tableAddr
      (true, s.store dir di (tableAddr ||| pagePresent ||| pageRw))
  else (true, s)

def setPage (s : Paging) (dir virt phys flags : UInt32) : Paging :=
  let di := dirIndex virt
  if heapStart ≤ entryFrame (s.mem dir di) ∨ entryFrame (s.mem dir di) = 0 then s
  else
    let s := if flags &&& pageUser ≠ 0 then s.store dir di (s.mem dir di ||| pageUser) else s
    s.store (entryFrame (s.mem dir di)) (tableIndex virt) (phys ||| flags)

def mapPage (s : Paging) (dir virt phys flags : UInt32) : Paging :=
  match addTable s dir (dirIndex virt) with
  | (true, s) => setPage s dir virt phys flags
  | (false, s) => s

def mapKernelPage (s : Paging) (virt phys flags : UInt32) : Paging :=
  mapPage s s.kernelDir virt phys flags

def unmapKernelPage (s : Paging) (virt : UInt32) : UInt32 × Paging :=
  let dirEntry := s.mem s.kernelDir (dirIndex virt)
  if dirEntry &&& pagePresent = 0 then (0, s)
  else
    let table := entryFrame dirEntry
    let entry := s.mem table (tableIndex virt)
    if entry &&& pagePresent = 0 then (0, s)
    else (entryFrame entry, s.store table (tableIndex virt) 0)

/-! ### What the tables mean to the processor -/

def Paging.dirEntry (s : Paging) (di : Nat) : UInt32 := s.mem s.kernelDir di

def Paging.table (s : Paging) (di : Nat) : UInt32 := entryFrame (s.dirEntry di)

def Paging.HasTable (s : Paging) (di : Nat) : Prop := s.dirEntry di &&& pagePresent ≠ 0

instance (s : Paging) (di : Nat) : Decidable (s.HasTable di) := inferInstanceAs (Decidable (_ ≠ _))

def Paging.entry (s : Paging) (virt : UInt32) : Option UInt32 :=
  if s.HasTable (dirIndex virt) then
    let entry := s.mem (s.table (dirIndex virt)) (tableIndex virt)
    if entry &&& pagePresent ≠ 0 then some entry else none
  else none

def Paging.translate (s : Paging) (virt : UInt32) : Option UInt32 := (s.entry virt).map entryFrame

def Paging.userReachable (s : Paging) (virt : UInt32) : Bool :=
  s.dirEntry (dirIndex virt) &&& pageUser ≠ 0 && (s.entry virt).any fun entry => entry &&& pageUser ≠ 0

end DeprecatOS
