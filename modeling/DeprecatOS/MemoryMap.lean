import DeprecatOS.Lib.Bytes

/-!
# The boot loader's memory map

The map is a row of entries in memory, each as long as its `size` field says, not counting the field
itself. `mmap_walk` hands on the regions that start below 4 GiB, with a length cut down to 32 bits.
-/

namespace DeprecatOS

open Bytes

structure MBIInfo where
  flags : UInt32
  mmapLength : UInt32
  mmapAddr : UInt32

structure MemoryMapEntry where
  size : UInt32
  baseLo : UInt32
  baseHi : UInt32
  lenLo : UInt32
  lenHi : UInt32
  type : UInt32
deriving DecidableEq

def MemoryMapEntry.load (mem : Buf) (addr : Nat) : MemoryMapEntry where
  size := load32 mem addr
  baseLo := load32 mem (addr + 4)
  baseHi := load32 mem (addr + 8)
  lenLo := load32 mem (addr + 12)
  lenHi := load32 mem (addr + 16)
  type := load32 mem (addr + 20)

section

variable {σ : Type} (mem : Buf) (fn : UInt32 → UInt32 → UInt32 → σ → σ)

def MemoryMapEntry.clippedLen (entry : MemoryMapEntry) : UInt32 :=
  if entry.lenHi ≠ 0 ∨ entry.baseLo + entry.lenLo < entry.baseLo then 0xFFFFFFFF - entry.baseLo + 1
  else entry.lenLo

def mmapVisit (entry : MemoryMapEntry) (s : σ) : σ :=
  if entry.baseHi ≠ 0 then s else fn entry.baseLo entry.clippedLen entry.type s

def mmapLoop (stop : UInt32) : Nat → UInt32 → σ → Option σ
  | 0, i, s => if i < stop then none else some s
  | fuel + 1, i, s =>
    if i < stop then
      let entry := MemoryMapEntry.load mem i.toNat
      mmapLoop stop fuel (i + (entry.size + 4)) (mmapVisit fn entry s)
    else some s

/-- `none` when the loop is not over after as many passes as the map has bytes. -/
def mmapWalk (info : MBIInfo) (s : σ) : Option σ :=
  if info.flags &&& ((1 : UInt32) <<< 6) = 0 then some s
  else mmapLoop mem fn (info.mmapAddr + info.mmapLength) info.mmapLength.toNat info.mmapAddr s

end

end DeprecatOS
