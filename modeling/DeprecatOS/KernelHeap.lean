import Mathlib.Logic.Function.Basic
import DeprecatOS.Paging

/-!
# The kernel heap

`[heap_start, heap_end)` is cut into blocks, each an 8-byte header (`size`, `is_free`) followed by
`size` bytes of payload. `kmalloc` is first fit, splits what it takes and doubles the heap page by page
when nothing fits; `kfree` joins a block with the free blocks after it.

Addresses and words are numbers below `2 ^ 32`, with the wraparound of the C arithmetic written out.
-/

namespace DeprecatOS

def add32 (x y : Nat) : Nat := (x + y) % 4294967296
def sub32 (x y : Nat) : Nat := (x + 4294967296 - y) % 4294967296

def pageSize : Nat := 0x1000

/-- The heap, and its dealings with the frame allocator and the page tables: what the calls of
`alloc_frame` answer one after another, how many have been made, which pages were mapped to which
frames and which frames were given back. -/
structure Heap where
  heapStart : Nat
  heapEnd : Nat
  mem : Nat → Nat
  answers : Nat → Nat
  calls : Nat
  pages : List (Nat × Nat)
  freed : List Nat

namespace Heap

def size (s : Heap) (h : Nat) : Nat := s.mem h
def isFree (s : Heap) (h : Nat) : Bool := s.mem (h + 4) ≠ 0

def setSize (s : Heap) (h value : Nat) : Heap := { s with mem := Function.update s.mem h value }
def setFree (s : Heap) (h value : Nat) : Heap := { s with mem := Function.update s.mem (h + 4) value }

def allocFrame (s : Heap) : Nat × Heap := (s.answers s.calls, { s with calls := s.calls + 1 })

def mapKernelPage (s : Heap) (virt phys : Nat) : Heap := { s with pages := (virt, phys) :: s.pages }

def freeFrame (s : Heap) (frame : Nat) : Heap := { s with freed := frame :: s.freed }

end Heap

/-- `heap_init`, with whatever is in the memory of the first page. -/
def heapInit (mem answers : Nat → Nat) : Heap :=
  let s : Heap :=
    { heapStart := heapStart.toNat
      heapEnd := 0x10001000
      mem := mem
      answers := answers
      calls := 0
      pages := []
      freed := [] }
  let (frame, s) := s.allocFrame
  let s := s.mapKernelPage s.heapStart frame
  (s.setSize s.heapStart (4096 - 8)).setFree s.heapStart 1

/-! ### kmalloc -/

/-- How the search of `kmalloc` ends: at the header of a free block that is large enough, or past the
last block, with `h` left at the last header looked at. -/
inductive BlockScan where
  | found (h : Nat)
  | missed (last : Option Nat)

/-- The search from `cursor`. The loop changes nothing but its cursor, so one that is still running
after `heap_end + 1` rounds has come back to an earlier cursor and never ends. -/
def scanBlocks (s : Heap) (wanted : Nat) : Nat → Nat → Option Nat → Option BlockScan
  | 0, _, _ => none
  | fuel + 1, cursor, last =>
    if cursor < s.heapEnd then
      if s.isFree cursor ∧ wanted ≤ s.size cursor then some (.found cursor)
      else scanBlocks s wanted fuel (add32 cursor (add32 8 (s.size cursor))) (some cursor)
    else some (.missed last)

/-- The block at `h` is handed out, cut down to `wanted` bytes when what is left can hold a block. -/
def takeBlock (s : Heap) (h wanted : Nat) : Heap :=
  if 8 < sub32 (s.size h) wanted then
    let newAddr := add32 (add32 h 8) wanted
    let rest := sub32 (sub32 (s.size h) wanted) 8
    (((s.setSize newAddr rest).setFree newAddr 1).setSize h wanted).setFree h 0
  else s.setFree h 0

def mapPages : Nat → Nat → Nat → Heap → Option (Nat × Heap)
  | 0, _, _, _ => none
  | fuel + 1, i, frame, s =>
    if i ≤ sub32 s.heapEnd pageSize ∧ i ≤ kernelCeiling.toNat - pageSize then
      let s := s.mapKernelPage i frame
      let (frame, s) := s.allocFrame
      if frame = 0 then some (0, { s with heapEnd := add32 i pageSize })
      else mapPages fuel (add32 i pageSize) frame s
    else some (frame, s)

/-- `heap_end` is moved back to the ceiling and the frame that was not needed is given back. -/
def settle (frame : Nat) (s : Heap) : Heap :=
  let s := if kernelCeiling.toNat < s.heapEnd then { s with heapEnd := kernelCeiling.toNat } else s
  if frame ≠ 0 then s.freeFrame frame else s

def addSpace (s : Heap) (h oldHeapEnd : Nat) : Heap :=
  if s.isFree h then s.setSize h (add32 (s.size h) (sub32 s.heapEnd oldHeapEnd))
  else (s.setFree oldHeapEnd 1).setSize oldHeapEnd (sub32 (sub32 s.heapEnd oldHeapEnd) 8)

/-- The growth of the heap with one frame in hand. There is no result where `h` was never set. -/
def growHeap (s : Heap) (frame : Nat) (last : Option Nat) : Option Heap := do
  let h ← last
  let oldHeapEnd := s.heapEnd
  let s := { s with heapEnd := add32 s.heapEnd (sub32 s.heapEnd s.heapStart) }
  let (frame, s) ← mapPages (kernelCeiling.toNat / pageSize) oldHeapEnd frame s
  pure (addSpace (settle frame s) h oldHeapEnd)

/-- `kmalloc` with at most `fuel` growths. -/
def kmallocFrom : Nat → Nat → Heap → Option (Nat × Heap)
  | 0, _, _ => none
  | fuel + 1, size, s =>
    let wanted := add32 size 3 / 4 * 4
    match scanBlocks s wanted (s.heapEnd + 1) s.heapStart none with
    | none => none
    | some (.found h) => some (add32 h 8, takeBlock s h wanted)
    | some (.missed last) =>
      if s.heapEnd < kernelCeiling.toNat - pageSize then
        let (frame, s) := s.allocFrame
        if frame ≠ 0 then (growHeap s frame last).bind (kmallocFrom fuel size) else some (0, s)
      else some (0, s)

/-- Each growth adds a page below the ceiling, so there are fewer than there are pages. -/
def kmalloc (size : Nat) (s : Heap) : Option (Nat × Heap) :=
  kmallocFrom (kernelCeiling.toNat / pageSize) size s

/-! ### kfree -/

def joinBlocks (ptr : Nat) : Nat → Heap → Option Heap
  | 0, _ => none
  | fuel + 1, s =>
    let h := sub32 ptr 8
    let cursor := add32 ptr (s.size h)
    if cursor < s.heapEnd ∧ s.isFree cursor then
      joinBlocks ptr fuel (s.setSize h (add32 (s.size h) (add32 (s.size cursor) 8)))
    else some s

def kfree (ptr : Nat) (s : Heap) : Option Heap :=
  if ptr = 0 then some s else joinBlocks ptr (s.heapEnd + 1) (s.setFree (sub32 ptr 8) 1)

end DeprecatOS
