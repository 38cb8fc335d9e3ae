import Mathlib.Logic.Function.Basic

/-!
# The ring buffer

`ringBuffer.c`: the queue of characters between the keyboard and the programs.
-/

namespace DeprecatOS

structure RingBuffer where
  queue : UInt8 → UInt8
  head : UInt8
  tail : UInt8

namespace RingBuffer

variable (rb : RingBuffer)

def rbInit : RingBuffer := { rb with tail := 0, head := 0 }

def rbIsEmpty : Bool := rb.tail = rb.head

def rbPush (c : UInt8) : Bool × RingBuffer :=
  let next := rb.head + 1
  if next = rb.tail then (false, rb)
  else (true, { rb with queue := Function.update rb.queue rb.head c, head := next })

def rbPop : Option UInt8 × RingBuffer :=
  if rb.rbIsEmpty then (none, rb) else (some (rb.queue rb.tail), { rb with tail := rb.tail + 1 })

def rbPeek : Option UInt8 := if rb.rbIsEmpty then none else some (rb.queue rb.tail)

end RingBuffer

end DeprecatOS
