import DeprecatOS.Syscall

/-!
# Commands of the shell

What the shell's `cp` does with the system calls. `fs_buf` is a buffer of one block in the memory of the
shell. The shell is the only program that runs meanwhile, so its memory changes by its own system calls
only; the time and the kernel's stale memory may be different at every call.
-/

namespace DeprecatOS

open Bytes Bits Fault

def readChunkCall (fs inodeN chunkNum buf : UInt32) : SysM UInt32 :=
  sysReadChunk (userRegs fs 0 inodeN chunkNum buf)

def fappend (env : Env) (fs inodeN buf fSize : UInt32) : SysM UInt32 :=
  sysAppendToInode env (userRegs fs 0 inodeN fSize buf)

/-- The loop of `copy_file` from chunk `n` on: what it returns, or nothing when it has not returned after
`rounds` rounds. -/
def copyFileFrom (env : UInt32 → Env) (fsBuf srcN inodeN srcFs inodeFs : UInt32) :
    Nat → UInt32 → SysM (Option Bool)
  | 0, _ => pure none
  | rounds + 1, n => do
      let r ← readChunkCall srcFs srcN n fsBuf
      if r = 0 then pure (some true)
      else if r = syscallError then pure (some false)
      else if (← fappend (env n) inodeFs inodeN fsBuf r) = syscallError then pure (some false)
      else copyFileFrom env fsBuf srcN inodeN srcFs inodeFs rounds (n + 1)

def copyFile (env : UInt32 → Env) (fsBuf srcN inodeN srcFs inodeFs : UInt32) (rounds : Nat) :
    SysM (Option Bool) :=
  copyFileFrom env fsBuf srcN inodeN srcFs inodeFs rounds 0

end DeprecatOS
