import DeprecatOS.MemoryMap
import Mathlib.Data.Nat.Bitwise
import Mathlib.Logic.Function.Basic

/-!
# The frame allocator

One bit of `frame_bitmap` for each 4096-byte frame of the 32-bit physical address space, set when the
frame is in use. `frame_alloc_init` clears the bits of the frames in free regions of the memory map, and
`alloc_frame` takes the first clear bit.
-/

namespace DeprecatOS

def frameBitmapLength : Nat := 32768
def frameSizeBytes : UInt32 := 4096

abbrev FrameBitmap := Nat → UInt32

def FrameBitmap.used (bm : FrameBitmap) (f : Nat) : Bool :=
  (bm (f / 32) >>> UInt32.ofNat (f % 32)) &&& 1 ≠ 0

def FrameBitmap.take (bm : FrameBitmap) (f : Nat) : FrameBitmap :=
  Function.update bm (f / 32) (bm (f / 32) ||| 1 <<< UInt32.ofNat (f % 32))

def FrameBitmap.drop (bm : FrameBitmap) (f : Nat) : FrameBitmap :=
  Function.update bm (f / 32) (bm (f / 32) &&& ~~~(1 <<< UInt32.ofNat (f % 32)))

def markFreeRegion (base len type : UInt32) (bm : FrameBitmap) : FrameBitmap :=
  if type ≠ 1 then bm
  else
    let first := ((base + 0xFFF) &&& ~~~0xFFF) >>> 12
    let last := ((base + len) &&& ~~~0xFFF) >>> 12
    (List.range' first.toNat (last.toNat - first.toNat)).foldl FrameBitmap.drop bm

def kernelLastFrame (ebss : UInt32) : UInt32 := ((ebss + 0xFFF) &&& ~~~0xFFF) >>> 12

/-- Every frame is in use, then those of the memory map's free regions are not, then those below the
end `ebss` of the kernel image are again. -/
def frameAllocInit (mem : Bytes.Buf) (ebss : UInt32) (info : MBIInfo) : Option FrameBitmap :=
  (mmapWalk mem markFreeRegion info fun _ => 0xFFFFFFFF).map fun bm =>
    (List.range (kernelLastFrame ebss).toNat).foldl FrameBitmap.take bm

/-- The loop over the bits of word `i`, with `fuel` bits left. -/
def clearInWord (bm : FrameBitmap) (i : Nat) : Nat → Nat → Option Nat
  | 0, _ => none
  | fuel + 1, b => if bm.used (i * 32 + b) then clearInWord bm i fuel (b + 1) else some (i * 32 + b)

/-- The loop over the words, with `fuel` words left. A full word is skipped without a look at its bits. -/
def clearFrame (bm : FrameBitmap) : Nat → Nat → Option Nat
  | 0, _ => none
  | fuel + 1, i =>
    if bm i ≠ 0xFFFFFFFF then
      match clearInWord bm i 32 0 with
      | some f => some f
      | none => clearFrame bm fuel (i + 1)
    else clearFrame bm fuel (i + 1)

def allocFrame (bm : FrameBitmap) : UInt32 × FrameBitmap :=
  match clearFrame bm frameBitmapLength 0 with
  | some f => (UInt32.ofNat f * frameSizeBytes, bm.take f)
  | none => (0, bm)

def freeFrame (bm : FrameBitmap) (addr : UInt32) : FrameBitmap := bm.drop (addr >>> 12).toNat

end DeprecatOS
