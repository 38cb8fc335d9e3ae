import DeprecatOS.Syscall

/-!
# The working directory of the shell

`return_path`, `cmd_cd`, and the paths of `cmd_cp` and `cmd_mv`. The objects of the shell (`dir`, `full_path`,
`stat_buf`, the arguments) are separate buffers; a string that is handed to a system call lies in the memory of the
user program, so the call sees the text that is in the buffer.
-/

namespace DeprecatOS

open Bytes Fault

structure Depsh where
  machine : Machine
  dir : Buf
  fullPath : Buf
  statBuf : Buf

abbrev DepshM := Prog Stop Depsh

def onKernel {α : Type} (prog : MachineM α) : DepshM α :=
  zoom Depsh.machine (fun m s => { s with machine := m }) prog

/-! ### System calls -/

/-- `resolve_dir` of the user library: the inode number, and what `*fs_out` holds afterwards. -/
def resolveDirCall (env : Env) (path : Buf) (fsOut : UInt32) : DepshM (UInt32 × UInt32) := do
  match ← onKernel (lookupPath env.stack path true) with
  | none => pure (syscallError, fsOut)
  | some (inoFs, ino) => pure (ino, if ino ≠ syscallError then slotIndex inoFs else fsOut)

def getStatCall (fs inodeN : UInt32) : DepshM UInt32 := do
  match (← get).machine.fsFromIndex fs with
  | none => pure syscallError
  | some fs =>
    match ← onKernel (onFs fs (getInode inodeN)) with
    | none => pure syscallError
    | some ino =>
      modify fun s => { s with statBuf := fun k => if k < 128 then ino.store zero 0 k else s.statBuf k }
      pure 0

/-- `is_dir`. Whether `get_stat` succeeded is not looked at. -/
def isDir (inodeN fs : UInt32) : DepshM Bool := do
  let _ ← getStatCall fs inodeN
  pure (load16 (← get).statBuf 0 &&& 0xF000 = inodeDirType)

/-! ### Paths -/

def dirSize : Nat := 256

/-- The loop of `upd_full_path` from character `i` on, with `fuel` characters left. -/
def copyDir (dir : Buf) : Nat → Nat → Buf → Bool × Buf
  | 0, _, full => (false, full)
  | fuel + 1, i, full =>
    if dir i = 0 then (true, full) else copyDir dir fuel (i + 1) (Function.update full i (dir i))

def updFullPath : DepshM Bool := do
  let s ← get
  let (success, full) := copyDir s.dir dirSize 0 fun k => if k < dirSize then 0 else s.fullPath k
  set { s with fullPath := full }
  pure success

/-- The loop of `return_path` that copies the arguments behind `full_path[i - 1]`: how many were copied, or
nothing when they do not fit. -/
def copyArgs (args : Buf) (i : Nat) : Nat → Nat → Buf → Option Nat × Buf
  | 0, _, full => (none, full)
  | fuel + 1, j, full =>
    if args j = 0 then (some j, full)
    else if 255 ≤ i + j then (none, full)
    else copyArgs args i fuel (j + 1) (Function.update full (i + j) (args j))

/-- The path, or nothing for the null pointer. A full `dir` leaves no room for the terminating zero. -/
def returnPath (args : Buf) : DepshM (Option Buf) := do
  if args 0 = slash then pure (some args)
  else if ← updFullPath then do
    let full := (← get).fullPath
    let i := scanName full dirSize 0
    let (copied, full) := copyArgs args (i + 1) dirSize 0 (Function.update full i slash)
    modify fun s => { s with fullPath := full }
    match copied with
    | none => pure none
    | some j =>
      if dirSize ≤ i + 1 + j then fault .undefined
      else do
        let full := Function.update full (i + 1 + j) 0
        modify fun s => { s with fullPath := full }
        pure (some full)
  else pure none

/-! ### Changing the directory -/

/-- `while (path[i] == '/') i++`. -/
def skipSlashes (path : Buf) : Nat → Nat → Nat
  | 0, i => i
  | fuel + 1, i => if path i = slash then skipSlashes path fuel (i + 1) else i

/-- `while (path[i] != '/' && path[i] != 0) i++`. -/
def skipComponent (path : Buf) : Nat → Nat → Nat
  | 0, i => i
  | fuel + 1, i => if path i ≠ slash ∧ path i ≠ 0 then skipComponent path fuel (i + 1) else i

/-- `while (to_write > 0 && dir[to_write - 1] != '/') to_write--`. -/
def dropComponent (dir : Buf) : Nat → Nat
  | 0 => 0
  | toWrite + 1 => if dir toWrite ≠ slash then dropComponent dir toWrite else toWrite + 1

/-- The characters of a component copied to `dir`, which has room for 256. -/
def copyComponent (path : Buf) (j : Nat) : Nat → Nat → Nat → Buf → Option (Nat × Buf)
  | 0, _, toWrite, dir => some (toWrite, dir)
  | left + 1, k, toWrite, dir =>
    if dirSize ≤ toWrite then none
    else copyComponent path j left (k + 1) (toWrite + 1) (Function.update dir toWrite (path (j + k)))

/-- The loop of `cmd_cd` over the components of the path, for at most `fuel` of them. There is no result when
it writes past the end of `dir`. -/
def cdLoop (path : Buf) : Nat → Nat → Nat → Buf → Option (Nat × Buf)
  | 0, _, _, _ => none
  | fuel + 1, i, toWrite, dir =>
    if path i = 0 then some (toWrite, dir)
    else
      let j := skipSlashes path pathLen i
      let i := skipComponent path pathLen j
      let len := i - j
      if len = 1 ∧ path j = 46 then cdLoop path fuel i toWrite dir
      else if len = 2 ∧ path j = 46 ∧ path (j + 1) = 46 then
        let toWrite := dropComponent dir toWrite
        cdLoop path fuel i (if 0 < toWrite then toWrite - 1 else toWrite) dir
      else if dirSize ≤ toWrite then none
      else
        match copyComponent path j len 0 (toWrite + 1) (Function.update dir toWrite slash) with
        | none => none
        | some (toWrite, dir) => cdLoop path fuel i toWrite dir

def cdDir (path dir : Buf) : Option Buf :=
  match cdLoop path pathLen 0 0 dir with
  | none => none
  | some (toWrite, dir) =>
    let (toWrite, dir) := if toWrite = 0 then (1, Function.update dir 0 slash) else (toWrite, dir)
    if dirSize ≤ toWrite then none else some (Function.update dir toWrite 0)

/-- `cmd_cd`: the message that it writes, if it writes one. -/
def cmdCd (env : Env) (args : Buf) (dFs : UInt32) : DepshM (Option String) := do
  match ← returnPath args with
  | none => pure (some "cd: current path is too long to fully parse\n")
  | some path =>
    let path := if args 0 = 0 then cstr [slash] else path
    let (d, dFs) ← resolveDirCall env path dFs
    if d = syscallError then pure (some "cd: dir not found\n")
    else if ¬ (← isDir d dFs) then pure (some "cd: cannot cd into a file\n")
    else
      match cdDir path (← get).dir with
      | none => fault .undefined
      | some dir => do
          modify fun s => { s with dir := dir }
          pure none

/-! ### The paths of a copy -/

/-- `while (args[i] != ' ' && args[i] != 0) i++`. A line has at most 511 characters. -/
def wordEnd (args : Buf) : Nat → Nat → Nat
  | 0, i => i
  | fuel + 1, i => if args i ≠ 32 ∧ args i ≠ 0 then wordEnd args fuel (i + 1) else i

/-- The first word of the arguments, ended by a zero in the place of the space, and what follows the space. -/
def splitWord (args : Buf) : Buf × Buf :=
  let i := wordEnd args 512 0
  if args i = 32 then (Function.update args i 0, fun k => args (i + 1 + k)) else (args, fun k => args (i + k))

/-- `old_path` and `new_path` of `cmd_cp`, behind a flag if there is one. -/
def cpPaths (args : Buf) : Buf × Buf := splitWord (if args 0 = 45 then (splitWord args).2 else args)

/-- `resolve_symlink` of the user library. -/
def resolveSymlinkCall (env : Env) (path : Buf) : DepshM UInt32 := do
  match ← onKernel (lookupPath env.stack path false) with
  | none => pure syscallError
  | some (_, ino) => pure ino

/-- The loop that copies the new path into an array, from character `i` on, with `fuel` characters left. -/
def copyPath (path : Buf) : Nat → Nat → Buf → Buf
  | 0, _, buf => buf
  | fuel + 1, i, buf =>
    if path i = 0 then Function.update buf i 0 else copyPath path fuel (i + 1) (Function.update buf i (path i))

/-- `cmd_cp` and `cmd_mv` up to `absolute_old_path`: the message that ends the command, or the old path and the
array `absolute_new_path_buf`, in which `buf` is before. -/
def copyPaths (env : Env) (cmd : String) (paths : Buf × Buf) (buf : Buf) : DepshM (Except String (Buf × Buf)) := do
  if paths.2 0 = 0 ∨ paths.1 0 = 0 then pure (.error (cmd ++ ": invalid arguments.\n"))
  else
    match ← returnPath paths.2 with
    | none => pure (.error (cmd ++ ": path too long\n"))
    | some path =>
      if (← resolveSymlinkCall env path) ≠ syscallError then pure (.error (cmd ++ ": new path already taken\n"))
      else
        match ← returnPath paths.1 with
        | none => pure (.error (cmd ++ ": path too long\n"))
        | some old => pure (.ok (old, copyPath path dirSize 0 buf))

end DeprecatOS
