import Mathlib.Logic.Function.Iterate
import Mathlib.Algebra.Group.Nat.Defs

/-!
# Copying memory

`memcpy` and `memmove` of `mem.c`, on the string instructions of the processor. An instruction with `rep` moves one
element after another: an element is read as a whole, then written, and both pointers move on by its size, down if the
direction flag is set.
-/

namespace DeprecatOS

structure Cpu where
  mem : UInt32 → UInt8
  edi : UInt32
  esi : UInt32
  ecx : UInt32
  df : Bool

namespace Cpu

def cld (s : Cpu) : Cpu := { s with df := false }

def std (s : Cpu) : Cpu := { s with df := true }

def moveElement (size : UInt32) (s : Cpu) : UInt32 → UInt8 := fun a =>
  if a - s.edi < size then s.mem (s.esi + (a - s.edi)) else s.mem a

def movs (size : UInt32) (s : Cpu) : Cpu :=
  { s with
    mem := s.moveElement size
    edi := if s.df then s.edi - size else s.edi + size
    esi := if s.df then s.esi - size else s.esi + size }

def repStep (size : UInt32) (s : Cpu) : Cpu := { s.movs size with ecx := s.ecx - 1 }

def rep (size : UInt32) (s : Cpu) : Cpu := (repStep size)^[s.ecx.toNat] s

def repMovsl (s : Cpu) : Cpu := s.rep 4

def repMovsb (s : Cpu) : Cpu := s.rep 1

end Cpu

def copyFwd (dst src n : UInt32) (s : Cpu) : UInt32 × Cpu :=
  let dwords := n >>> 2
  let bytes := n &&& 3
  let s := { s with edi := dst, esi := src, ecx := dwords }.cld.repMovsl
  -- `d` and `s` keep the values the registers have.
  let s := { s with ecx := bytes }.cld.repMovsb
  (dst, s)

def copyBwd (dst src n : UInt32) (s : Cpu) : UInt32 × Cpu :=
  if n = 0 ∨ dst = src then (dst, s)
  else
    let s := { s with edi := dst + n - 1, esi := src + n - 1, ecx := n }.std.repMovsb.cld
    (dst, s)

def memcpy (dst src n : UInt32) (s : Cpu) : UInt32 × Cpu := copyFwd dst src n s

def memmove (dst src n : UInt32) (s : Cpu) : UInt32 × Cpu :=
  if dst < src then copyFwd dst src n s else copyBwd dst src n s

end DeprecatOS
