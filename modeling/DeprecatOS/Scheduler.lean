import Mathlib.Logic.Function.Basic

/-!
# The scheduler

`processQueue.c` and `scheduler.c`. The running process is `current`; the others wait in a ring of 256 pointers whose
indices are `unsigned char`. The results of `kmalloc` are arguments here, and what `kfree` and `userland_teardown` do
is not part of this state.
-/

namespace DeprecatOS

def stackSize : UInt32 := 16384

def kernelFrameSize : UInt32 := 44
def userFrameSize : UInt32 := 52

def frameEipIndex : UInt32 := 8
def frameCsIndex : UInt32 := 9
def frameEflagsIndex : UInt32 := 10
def frameUserEspIndex : UInt32 := 11
def frameSsIndex : UInt32 := 12

def interruptAndReservedEflags : UInt32 := 0x202

def kernelCodeSegmentSel : UInt32 := 0x08
def userCodeSegmentSel : UInt32 := 0x1B
def userDataSegmentSel : UInt32 := 0x23

/-- The static variables of both files, `esp0` of the task state segment, and the words of the kernel's memory. A
process is the address of its `Process` struct. -/
structure Sched where
  current : UInt32
  queue : UInt8 → UInt32
  head : UInt8
  tail : UInt8
  esp0 : UInt32
  mem : UInt32 → UInt32

namespace Sched

variable (s : Sched)

def write (addr word : UInt32) : Sched := { s with mem := Function.update s.mem addr word }

/-! The fields of `Process`. -/

def esp (p : UInt32) : UInt32 := s.mem p

def setEsp (p word : UInt32) : Sched := s.write p word

def mallocAddr (p : UInt32) : UInt32 := s.mem (p + 8)

def setMallocAddr (p word : UInt32) : Sched := s.write (p + 8) word

/-! ### The queue -/

def pqueueInit : Sched := { s with head := 0, tail := 0 }

def pqueueIsEmpty : Bool := s.head = s.tail

def pqueuePop : UInt32 × Sched :=
  if s.pqueueIsEmpty then (0, s) else (s.queue s.tail, { s with tail := s.tail + 1 })

def pqueuePeek : UInt32 := if s.pqueueIsEmpty then 0 else s.queue s.tail

def pqueuePush (p : UInt32) : Bool × Sched :=
  if s.head + 1 = s.tail then (false, s)
  else (true, { s with queue := Function.update s.queue s.head p, head := s.head + 1 })

def pqueueSize : UInt8 := s.head - s.tail

/-! ### Processes -/

def schedulerInit (p : UInt32) : Sched := { s.setMallocAddr p 0 with current := p }

def setKernelStack : Sched :=
  if s.mallocAddr s.current ≠ 0 then { s with esp0 := s.mallocAddr s.current + stackSize } else s

/-- What `schedule` returns, and the state it leaves. The result of the push is not looked at. -/
def schedule (esp : UInt32) : UInt32 × Sched :=
  if s.pqueueIsEmpty then (esp, s)
  else
    let s := s.setEsp s.current esp
    let (_, s) := s.pqueuePush s.current
    let (next, s) := s.pqueuePop
    let s := { s with current := next }.setKernelStack
    (s.esp s.current, s)

def writeFrame (frame : UInt32) (words : List (UInt32 × UInt32)) : Sched :=
  words.foldl (fun s entry => s.write (frame + 4 * entry.1) entry.2) s

def zeroedRegs : List (UInt32 × UInt32) := (List.range 8).map fun i => (UInt32.ofNat i, 0)

/-- `p` and `stackAlloc` are what `kmalloc` returned for the struct and the stack; null if it failed. -/
def createProcess (p stackAlloc entry : UInt32) : Sched :=
  if p = 0 ∨ stackAlloc = 0 then s
  else
    let s := s.setMallocAddr p stackAlloc
    let s := s.setEsp p (stackAlloc + stackSize - kernelFrameSize)
    let s := s.writeFrame (s.esp p) (zeroedRegs ++
      [(frameEipIndex, entry), (frameCsIndex, kernelCodeSegmentSel), (frameEflagsIndex, interruptAndReservedEflags)])
    (s.pqueuePush p).2

def createUserProcess (p stackAlloc entry userStackTop : UInt32) : Sched :=
  if p = 0 ∨ stackAlloc = 0 then s
  else
    let s := s.setMallocAddr p stackAlloc
    let s := s.setEsp p (stackAlloc + stackSize - userFrameSize)
    let s := s.writeFrame (s.esp p) (zeroedRegs ++
      [(frameEipIndex, entry), (frameCsIndex, userCodeSegmentSel), (frameEflagsIndex, interruptAndReservedEflags),
        (frameUserEspIndex, userStackTop), (frameSsIndex, userDataSegmentSel)])
    (s.pqueuePush p).2

/-- What `kill_current` returns, and the state it leaves. With nobody to run it fails. -/
def killCurrent : UInt32 × Sched :=
  if s.pqueueIsEmpty then (0xFFFFFFFF, s)
  else
    let (next, s) := s.pqueuePop
    let s := { s with current := next }.setKernelStack
    (s.esp s.current, s)

end Sched

end DeprecatOS
