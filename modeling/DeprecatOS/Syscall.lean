import DeprecatOS.Mount
import DeprecatOS.Paging

/-!
# System calls on files

The handlers of `syscallController.c` that work on filesystems. A handler finds its arguments in the saved
registers and leaves its result in `frame[7]`. Strings and buffers are addresses in the memory of
the user program, which the handler checks against the window from `KERNEL_CEILING` to
`USER_SPACE_END`.
-/

namespace DeprecatOS

open Bytes Bits Fault

/-- `USER_SPACE_END`: the code page, `MISC_PAGE_CNT` pages and the stack page. -/
def userSpaceEnd : UInt32 := kernelCeiling + 0x1000 * (255 + 2)

def syscallError : UInt32 := 0xFFFFFFFF

abbrev Regs := Fin 8 → UInt32

/-- The registers in which the wrappers of `user/sys/syscall.c` pass their arguments. -/
def userRegs (edi esi ebx edx ecx : UInt32) : Regs
  | 0 => edi
  | 1 => esi
  | 4 => ebx
  | 5 => edx
  | 6 => ecx
  | _ => 0

structure Sys where
  machine : Machine
  mem : UInt32 → UInt8

abbrev SysM := Prog Stop Sys

/-- What a call finds that is in no argument: the time, and what the memory held before that `kmalloc` and
the stack give it. -/
structure Env where
  now : UInt32
  heap : Buf
  stack : Buf

def onMachine {α : Type} (prog : MachineM α) : SysM α :=
  zoom Sys.machine (fun m s => { s with machine := m }) prog

/-! ### The memory of the user program -/

def Sys.buf (s : Sys) (base : UInt32) : Buf := fun k => s.mem (base + UInt32.ofNat k)

def userBuf (base : UInt32) : SysM Buf := do pure ((← get).buf base)

def writeUser (base : UInt32) (len : Nat) (buf : Buf) : SysM Unit :=
  modify fun s => { s with
    mem := fun a => if (a - base).toNat < len then buf (a - base).toNat else s.mem a }

def writeOut (out value : UInt32) : SysM Unit := writeUser out 4 (store32 zero 0 value)

def outside (base len : UInt32) : Bool := base < kernelCeiling || userSpaceEnd - len < base

/-- The check of a buffer whose length the caller chooses. -/
def outsideLen (base len : UInt32) : Bool :=
  userSpaceEnd - kernelCeiling < len || outside base len

def outsideByte (a : UInt32) : Bool := a < kernelCeiling || userSpaceEnd ≤ a

/-- A string cannot be longer than the window. -/
def windowSize : Nat := 0x1000 * (255 + 2)

/-- The loop that looks for the end of a string and checks each address before it reads there: the length,
or nothing when the string leaves the window. -/
def scanUser (mem : UInt32 → UInt8) (s : UInt32) : Nat → UInt32 → Option UInt32
  | 0, _ => none
  | fuel + 1, i =>
    if outsideByte (s + i) then none
    else if mem (s + i) = 0 then some i
    else scanUser mem s fuel (i + 1)

def userString (s : UInt32) : SysM (Option UInt32) := do
  pure (scanUser (← get).mem s (windowSize + 1) 0)

/-- The loop of `sys_rename_inode` and `sys_make_symlink`, which reads two strings side by side until both
have ended. -/
def scanBoth (mem : UInt32 → UInt8) (s t : UInt32) : Nat → UInt32 → Bool → Bool → Bool
  | 0, _, _, _ => false
  | fuel + 1, i, sFinished, tFinished =>
    if outsideByte (s + i) || outsideByte (t + i) then false
    else
      let sFinished := sFinished || mem (s + i) = 0
      let tFinished := tFinished || mem (t + i) = 0
      if sFinished && tFinished then true else scanBoth mem s t fuel (i + 1) sFinished tFinished

def userStrings (s t : UInt32) : SysM Bool := do
  pure (scanBoth (← get).mem s t (windowSize + 1) 0 false false)

/-! ### Filesystem indices -/

def Machine.fsFromIndex (m : Machine) (index : UInt32) : Option Slot :=
  if h : index.toNat < 8 then
    let fs : Slot := ⟨index.toNat, h⟩
    if fs ≠ m.rootFs ∧ (m.fsEntries fs).mountpoint = 0 then none else some fs
  else none

def slotIndex (fs : Slot) : UInt32 := UInt32.ofNat fs.val

def withFsIndex (index : UInt32) (handler : Slot → SysM UInt32) : SysM UInt32 := do
  match (← get).machine.fsFromIndex index with
  | none => pure syscallError
  | some fs => handler fs

def statusOf (ok : Bool) : UInt32 := if ok then 0 else syscallError

/-! ### Reading -/

/-- The inode that `sys_read_chunk` reads from. A directory may be a mountpoint. -/
def chunkInode (fs : Slot) (inoN : UInt32) : MachineM (Option (Slot × Inode)) := do
  match ← onFs fs (getInode inoN) with
  | none => pure none
  | some ino =>
    if ino.type = inodeDirType then
      let (_, fs, inoN) ← returnMntRoot fs inoN
      match ← onFs fs (getInode inoN) with
      | none => pure none
      | some ino => pure (some (fs, ino))
    else pure (some (fs, ino))

/-- How many bytes of chunk `n` belong to the file. -/
def chunkLen (ino : Inode) (n : UInt32) : UInt32 :=
  if n = blocksFor ino.sizeLo - 1 ∧ ino.sizeLo % 4096 ≠ 0 then ino.sizeLo % 4096 else 4096

/-- Chunk `n` of a file as it is on disk, or nothing when it cannot be found. -/
def readChunkWith (map : MapBlock) (ino : Inode) (n : UInt32) : FsM (Option Buf) := do
  let call ← map ino n .lookup none
  match call.status with
  | .emptyBlock => pure (some zero)
  | .writeSuccess => do
      let buf ← readBlock (← call.blkOut)
      pure (some buf)
  | _ => pure none

abbrev readChunk : Inode → UInt32 → FsM (Option Buf) := readChunkWith mapFileBlock

def sysReadChunkWith (map : MapBlock) (frame : Regs) : SysM UInt32 :=
  withFsIndex (frame 0) fun fs => do
    match ← onMachine (chunkInode fs (frame 4)) with
    | none => pure syscallError
    | some (fs, ino) =>
      if outside (frame 6) 4096 then pure syscallError
      else if blocksFor ino.sizeLo ≤ frame 5 then pure 0
      else
        match ← onMachine (onFs fs (readChunkWith map ino (frame 5))) with
        | none => pure syscallError
        | some buf =>
          writeUser (frame 6) 4096 buf
          pure (chunkLen ino (frame 5))

abbrev sysReadChunk : Regs → SysM UInt32 := sysReadChunkWith mapFileBlock

def sysGetStat (frame : Regs) : SysM UInt32 :=
  withFsIndex (frame 0) fun fs => do
    match ← onMachine (onFs fs (getInode (frame 4))) with
    | none => pure syscallError
    | some ino =>
      if outside (frame 6) 128 then pure syscallError
      else
        writeUser (frame 6) 128 (ino.store zero 0)
        pure 0

def resolveDir (env : Env) (s : UInt32) (splitLeafSym : Bool) : SysM (Option (Slot × UInt32)) := do
  match ← userString s with
  | none => pure none
  | some _ =>
    let path ← userBuf s
    onMachine (lookupPath env.stack path splitLeafSym)

def sysResolve (splitLeafSym : Bool) (env : Env) (frame : Regs) : SysM UInt32 := do
  if outside (frame 5) 4 then pure syscallError
  else
    match ← resolveDir env (frame 4) splitLeafSym with
    | none => pure syscallError
    | some (inoFs, ino) =>
      if ino ≠ syscallError then writeOut (frame 5) (slotIndex inoFs)
      pure ino

def sysResolveDir (env : Env) (frame : Regs) : SysM UInt32 := sysResolve true env frame

def sysResolveSymlink (env : Env) (frame : Regs) : SysM UInt32 := sysResolve false env frame

def sysInodeIsMountpoint (frame : Regs) : SysM UInt32 :=
  withFsIndex (frame 4) fun fs => do
    let (found, _) ← onMachine (returnMntRoot fs (frame 6))
    pure (if found then 1 else 0)

/-! ### Writing -/

def sysReplaceInode (env : Env) (frame : Regs) : SysM UInt32 := do
  if outsideLen (frame 6) (frame 5) then pure syscallError
  else
    withFsIndex (frame 0) fun fs => do
      let buf ← userBuf (frame 6)
      let done ← onMachine (onFs fs (replaceInode env.now (frame 4) buf (frame 5)))
      pure (statusOf done.isSome)

def sysAppendToInode (env : Env) (frame : Regs) : SysM UInt32 := do
  if outsideLen (frame 6) (frame 5) then pure syscallError
  else if frame 5 = 0 then pure 0
  else
    withFsIndex (frame 0) fun fs => do
      let buf ← userBuf (frame 6)
      let done ← onMachine (onFs fs (appendToInode env.now env.heap (frame 4) buf (frame 5)))
      pure (statusOf done.isSome)

def sysTruncateInode (env : Env) (frame : Regs) : SysM UInt32 :=
  withFsIndex (frame 0) fun fs => do
    let done ← onMachine (onFs fs (truncateInode env.now (frame 4) (frame 6)))
    pure (statusOf done.isSome)

/-! ### Names -/

def sysMake (make : Slot → UInt32 → Buf → MachineM (Option (Slot × UInt32))) (frame : Regs) :
    SysM UInt32 := do
  if outside (frame 6) 256 then pure syscallError
  else if outside (frame 5) 4 then pure syscallError
  else
    withFsIndex (frame 0) fun fs => do
      let name ← userBuf (frame 6)
      match ← onMachine (make fs (frame 4) name) with
      | none => pure syscallError
      | some (fs, inodeN) =>
        writeOut (frame 5) (slotIndex fs)
        pure inodeN

def sysMakeDir (env : Env) (frame : Regs) : SysM UInt32 := sysMake (makeDir env.now) frame

def sysMakeInode (env : Env) (frame : Regs) : SysM UInt32 := sysMake (makeFile env.now) frame

def sysRemove (unlink : Slot → UInt32 → Buf → MachineM Bool) (frame : Regs) : SysM UInt32 := do
  if outside (frame 6) 256 then pure syscallError
  else
    withFsIndex (frame 0) fun fs => do
      let name ← userBuf (frame 6)
      let done ← onMachine (unlink fs (frame 4) name)
      pure (statusOf done)

def sysRemoveInode (env : Env) (frame : Regs) : SysM UInt32 := sysRemove (unlinkInode env.now) frame

def sysRemoveDir (env : Env) (frame : Regs) : SysM UInt32 := sysRemove (unlinkDir env.now) frame

def sysRenameInode (env : Env) (frame : Regs) : SysM UInt32 := do
  if ← userStrings (frame 6) (frame 1) then
    withFsIndex (frame 0) fun fs => do
      let oldName ← userBuf (frame 6)
      let newName ← userBuf (frame 1)
      let done ← onMachine (renameInode env.now fs (frame 4) oldName (frame 5) newName)
      pure (statusOf done)
  else pure syscallError

def linkable (fs : Slot) (inodeN parentN : UInt32) : MachineM Bool :=
  onFs fs do
    if ← inodeExists inodeN then
      if ← inodeExists parentN then
        match ← getInode inodeN with
        | none => pure false
        | some ino => pure (ino.type ≠ inodeDirType)
      else pure false
    else pure false

def linkInode (now : UInt32) (fs : Slot) (inodeN parentN : UInt32) (name : Buf) : MachineM Bool := do
  if (← dirContains fs parentN name).isSome then pure false
  else dirInsert now fs parentN name inodeN

def sysLinkInode (env : Env) (frame : Regs) : SysM UInt32 :=
  withFsIndex (frame 0) fun fs =>
    withFsIndex (frame 1) fun parentFs => do
      if fs ≠ parentFs then pure syscallError
      else if ← onMachine (linkable fs (frame 4) (frame 5)) then
        match ← userString (frame 6) with
        | none => pure syscallError
        | some i =>
          if i = 0 ∨ nameLen ≤ i.toNat then pure syscallError
          else
            let name ← userBuf (frame 6)
            let done ← onMachine (linkInode env.now fs (frame 4) (frame 5) name)
            pure (statusOf done)
      else pure syscallError

def sysMakeSymlink (env : Env) (frame : Regs) : SysM UInt32 :=
  withFsIndex (frame 0) fun fs => do
    if ← onMachine (onFs fs (inodeExists (frame 4))) then
      if ← userStrings (frame 5) (frame 6) then
        let name ← userBuf (frame 5)
        let target ← userBuf (frame 6)
        if (← onMachine (dirContains fs (frame 4) name)).isSome then pure syscallError
        else
          let done ← onMachine (makeSymlink env.now env.heap fs (frame 4) name target)
          pure (statusOf done)
      else pure syscallError
    else pure syscallError

/-! ### Mounting -/

def sysLabel (change : Buf → MachineM Bool) (frame : Regs) : SysM UInt32 := do
  match ← userString (frame 4) with
  | none => pure syscallError
  | some _ =>
    let label ← userBuf (frame 4)
    let done ← onMachine (change label)
    pure (statusOf done)

def sysMountFs (env : Env) (frame : Regs) : SysM UInt32 := sysLabel (mountFs env.stack) frame

def sysUmountFs (frame : Regs) : SysM UInt32 := sysLabel umountFs frame

/-! ### The filesystem calls of `syscall_table` -/

inductive FsSyscall where
  | readChunk
  | resolveDir
  | getStat
  | makeDir
  | removeInode
  | removeDir
  | replaceInode
  | makeInode
  | renameInode
  | appendToInode
  | linkInode
  | makeSymlink
  | resolveSymlink
  | truncateInode
  | inodeIsMountpoint
  | mountFs
  | umountFs
  deriving DecidableEq, Repr

def FsSyscall.handler (env : Env) : FsSyscall → Regs → SysM UInt32
  | readChunk => sysReadChunk
  | resolveDir => sysResolveDir env
  | getStat => sysGetStat
  | makeDir => sysMakeDir env
  | removeInode => sysRemoveInode env
  | removeDir => sysRemoveDir env
  | replaceInode => sysReplaceInode env
  | makeInode => sysMakeInode env
  | renameInode => sysRenameInode env
  | appendToInode => sysAppendToInode env
  | linkInode => sysLinkInode env
  | makeSymlink => sysMakeSymlink env
  | resolveSymlink => sysResolveSymlink env
  | truncateInode => sysTruncateInode env
  | inodeIsMountpoint => sysInodeIsMountpoint
  | mountFs => sysMountFs env
  | umountFs => sysUmountFs

end DeprecatOS
