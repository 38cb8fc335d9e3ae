import DeprecatOS.Proof.Operations
import DeprecatOS.Proof.SyscallBounds

/-!
# What a run of system calls takes from stale kernel memory

Every block is staged in a buffer from `kmalloc`, which holds whatever its memory held before. Two places
fill such a buffer only in part before they write it: `append_to_inode`, when the last of its new blocks is not
full, and `make_symlink`, when the target is kept in a block. At most one buffer of a call is concerned, so
one block of old contents stands for all. A call that leaves its buffers reads what is behind them, and is not defined.
-/

namespace DeprecatOS

open Bytes Bits Fault

abbrev HeapBlock := Fin 4096 → UInt8

def HeapBlock.buf (heap : HeapBlock) : Buf := fun k => if hk : k < 4096 then heap ⟨k, hk⟩ else 0

/-- One system call of a user program: the registers, the memory of the program and the time at the call,
and what is on the kernel's stack. -/
structure Event where
  call : FsSyscall
  frame : Regs
  mem : UInt32 → UInt8
  now : UInt32
  stack : Buf

abbrev Seen := UInt32 × (UInt32 → UInt8)

def Event.exec (e : Event) (heap : HeapBlock) : MachineM Seen := fun m =>
  match e.call.handler ⟨e.now, heap.buf, e.stack⟩ e.frame ⟨m, e.mem⟩ with
  | .ok (result, s) => .ok ((result, s.mem), s.machine)
  | .error stop => .error stop

def runEvents (heap : Nat → HeapBlock) : Nat → List Event → MachineM (List Seen)
  | _, [] => pure []
  | i, e :: es => do
      let seen ← e.exec (heap i)
      let rest ← runEvents heap (i + 1) es
      pure (seen :: rest)

/-- Appending `fSize` bytes to a file of `size` bytes stays in its last block or ends with a full one. -/
def FillsBlocks (size fSize : UInt32) : Prop :=
  (size.toNat + fSize.toNat) % 4096 = 0 ∨
    size.toNat % 4096 ≠ 0 ∧ size.toNat % 4096 + fSize.toNat ≤ 4096

def Event.Fills (e : Event) (m : Machine) : Prop :=
  match e.call with
  | .appendToInode => ∀ fs inode fs', m.fsFromIndex (e.frame 0) = some fs →
      getInode (e.frame 4) (m.fsEntries fs) = .ok (some inode, fs') → FillsBlocks inode.sizeLo (e.frame 5)
  | .makeSymlink =>
    let len := strlen (Sys.buf ⟨m, e.mem⟩ (e.frame 6))
    len ≤ maxSymlinkLen ∨ 4095 ≤ len
  | _ => True

/-- The call stays in the buffers of the kernel and fills every block that it stages. -/
structure Event.Whole (e : Event) (m : Machine) : Prop where
  inBounds : m.InBounds
  proper : e.call.Proper e.frame m
  fills : e.Fills m

def AllWhole (heap : Nat → HeapBlock) : Nat → List Event → Machine → Prop
  | _, [], _ => True
  | i, e :: es, m =>
    e.Whole m ∧ ∀ seen m', e.exec (heap i) m = .ok (seen, m') → AllWhole heap (i + 1) es m'

/-! ### Staged blocks -/

section

variable {junk junk' : Buf} (hpast : ∀ k, 4096 ≤ k → junk k = junk' k)

include hpast

theorem splice_full (src : Buf) (srcOff : Nat) : splice junk 0 src srcOff 4096 = splice junk' 0 src srcOff 4096 := by
  funext k
  rw [splice, splice]
  split_ifs with hk
  · rfl
  · exact hpast k (by omega)

theorem appendBlocks_heap (buf : Buf) (oldBlkCnt : UInt32) (fuel : Nat) (blkIdx : UInt32) (a : Append)
    (hleft : a.bytesLeft.toNat % 4096 = 0) :
    appendBlocks buf junk oldBlkCnt fuel blkIdx a = appendBlocks buf junk' oldBlkCnt fuel blkIdx a := by
  induction fuel generalizing blkIdx a with
  | zero => rfl
  | succ fuel ih =>
    rw [appendBlocks, appendBlocksWith, appendBlocksWith]
    by_cases hdone : a.bytesLeft = 0
    · rw [if_pos hdone, if_pos hdone]
    · have hne : a.bytesLeft.toNat ≠ 0 := fun hzero => hdone (UInt32.toNat_inj.mp hzero)
      have h4096 : (4096 : UInt32).toNat = 4096 := rfl
      have hadd : min a.bytesLeft 4096 = 4096 := by
        rw [← UInt32.toNat_inj, toNat_min, h4096]
        omega
      have hnext : (a.bytesLeft - 4096).toNat % 4096 = 0 := by
        rw [UInt32.toNat_sub_of_le _ _ (UInt32.le_iff_toNat_le.mpr (by omega))]
        omega
      rw [if_neg hdone, if_neg hdone, hadd]
      dsimp only
      rw [h4096]
      refine bind_congr fun call => ?_
      by_cases hcall : call.status = .writeSuccess
      · rw [if_pos hcall, if_pos hcall]
        refine bind_congr fun blockN => ?_
        rw [splice_full hpast]
        exact bind_congr fun _ => ih _ _ hnext
      · rw [if_neg hcall, if_neg hcall]

theorem makeSymlink_heap {target : Buf} (hlen : strlen target ≤ maxSymlinkLen ∨ 4095 ≤ strlen target)
    (now : UInt32) (fs : Slot) (parentN : UInt32) (name : Buf) :
    makeSymlink now junk fs parentN name target = makeSymlink now junk' fs parentN name target := by
  have hwrite : ¬ blockSize ≤ strlen target → ∀ symlink,
      writeTarget junk target (strlen target) symlink = writeTarget junk' target (strlen target) symlink := by
    intro hshort symlink
    rw [writeTarget, writeTarget]
    obtain hinline | hfull := hlen
    · rw [if_neg (by omega), if_neg (by omega)]
    · have heq : strlen target + 1 = 4096 := by
        rw [blockSize] at hshort
        omega
      rw [heq, splice_full hpast]
  rw [makeSymlink, makeSymlink]
  by_cases hbad : strlen target = 0 ∨ blockSize ≤ strlen target
  · rw [if_pos hbad, if_pos hbad]
  · rw [if_neg hbad, if_neg hbad]
    simp only [hwrite (not_or.mp hbad).2]

end

theorem fillTail_bytesLeft {buf : Buf} {a a' : Append} {fs fs' : FsInfo}
    (hrun : fillTail buf a fs = .ok (some a', fs')) :
    a'.bytesLeft = a.bytesLeft - min a.bytesLeft (4096 - a.inode.sizeLo % 4096) := by
  rw [fillTail, fillTailWith] at hrun
  obtain ⟨found, mid, -, hrun⟩ := run_bind_eq_ok hrun
  cases hstatus : found.status <;> simp only [hstatus] at hrun
  case emptyBlock =>
    obtain ⟨call, mid, -, hrun⟩ := run_bind_eq_ok hrun
    split at hrun
    · obtain ⟨_, mid, -, hrun⟩ := run_bind_eq_ok hrun
      obtain ⟨_, mid, -, hrun⟩ := run_bind_eq_ok hrun
      cases hrun
      rfl
    · cases hrun
  case writeSuccess =>
    obtain ⟨_, mid, -, hrun⟩ := run_bind_eq_ok hrun
    obtain ⟨_, mid, -, hrun⟩ := run_bind_eq_ok hrun
    obtain ⟨_, mid, -, hrun⟩ := run_bind_eq_ok hrun
    cases hrun
    rfl
  all_goals cases hrun

theorem FillsBlocks.left {size fSize : UInt32} (hfills : FillsBlocks size fSize) :
    (size % 4096 = 0 → fSize.toNat % 4096 = 0) ∧
      (size % 4096 ≠ 0 → (fSize - min fSize (4096 - size % 4096)).toNat % 4096 = 0) := by
  have hmod : (size % 4096).toNat = size.toNat % 4096 := UInt32.toNat_mod ..
  have hzero : size % 4096 = 0 ↔ size.toNat % 4096 = 0 := by rw [← UInt32.toNat_inj, hmod]; rfl
  have h4096 : (4096 : UInt32).toNat = 4096 := rfl
  have hlen : (min fSize (4096 - size % 4096)).toNat = min fSize.toNat (4096 - size.toNat % 4096) := by
    rw [toNat_min, UInt32.toNat_sub_of_le _ _ (UInt32.le_iff_toNat_le.mpr (by omega)), hmod, h4096]
  rw [hzero, UInt32.toNat_sub_of_le _ _ (UInt32.le_iff_toNat_le.mpr (by omega)), hlen]
  unfold FillsBlocks at hfills
  omega

theorem appendToInode_heap {junk junk' : Buf} (hpast : ∀ k, 4096 ≤ k → junk k = junk' k) {n fSize : UInt32}
    {fs : FsInfo}
    (hfills : ∀ inode fs', getInode n fs = .ok (some inode, fs') → FillsBlocks inode.sizeLo fSize)
    (now : UInt32) (buf : Buf) :
    appendToInode now junk n buf fSize fs = appendToInode now junk' n buf fSize fs := by
  rw [appendToInode, appendToInodeWith, appendToInodeWith]
  refine run_bind_congr fun found mid hfound => ?_
  cases found with
  | none => rfl
  | some inode =>
    have hleft := (hfills inode mid hfound).left
    dsimp only
    by_cases hover : inode.sizeLo + fSize < inode.sizeLo
    · rw [if_pos hover, if_pos hover]
    · rw [if_neg hover, if_neg hover]
      refine run_bind_congr fun tail mid' htail => ?_
      cases tail with
      | none => rfl
      | some a =>
        have hwhole : a.bytesLeft.toNat % 4096 = 0 := by
          split at htail
          next hzero =>
            cases htail
            exact hleft.1 hzero
          next hne =>
            rw [fillTail_bytesLeft htail]
            exact hleft.2 hne
        have hblocks := appendBlocks_heap hpast buf (blocksFor inode.sizeLo) (fSize.toNat / 4096 + 1) 0 a hwhole
        rw [appendBlocks] at hblocks
        dsimp only
        rw [hblocks]

/-! ### Runs -/

theorem withFsIndex_congr {index : UInt32} {handler handler' : Slot → SysM UInt32} {s : Sys}
    (hsame : ∀ fs, s.machine.fsFromIndex index = some fs → handler fs s = handler' fs s) :
    withFsIndex index handler s = withFsIndex index handler' s := by
  rw [withFsIndex, withFsIndex]
  refine run_bind_congr fun a mid hget => ?_
  cases hget
  cases hfs : s.machine.fsFromIndex index with
  | none => rfl
  | some fs => exact hsame fs hfs

theorem onMachine_mem {α : Type} (prog : MachineM α) : Keeps Sys.mem (onMachine prog) := by
  intro s a s' hrun
  rw [onMachine, zoom] at hrun
  split at hrun
  · cases hrun
    rfl
  · cases hrun

theorem HeapBlock.buf_past (heap heap' : HeapBlock) (k : Nat) (hk : 4096 ≤ k) : heap.buf k = heap'.buf k := by
  rw [HeapBlock.buf, HeapBlock.buf, dif_neg (by omega), dif_neg (by omega)]

theorem Event.exec_defined {e : Event} {m : Machine} (hwhole : e.Whole m) (heap : HeapBlock) :
    e.exec heap m ≠ .error .undefined := by
  intro hrun
  rw [Event.exec] at hrun
  split at hrun
  · cases hrun
  · next stop hstop =>
    cases hrun
    exact FsSyscall.handler_defined hwhole.inBounds _ e.call hwhole.proper hstop

theorem Event.exec_heap {e : Event} {m : Machine} (hfills : e.Fills m) (heap heap' : HeapBlock) :
    e.exec heap m = e.exec heap' m := by
  have hpast := HeapBlock.buf_past heap heap'
  suffices hsame : e.call.handler ⟨e.now, heap.buf, e.stack⟩ e.frame ⟨m, e.mem⟩ =
      e.call.handler ⟨e.now, heap'.buf, e.stack⟩ e.frame ⟨m, e.mem⟩ by
    rw [Event.exec, Event.exec, hsame]
  rw [Event.Fills] at hfills
  cases hcall : e.call <;> simp only [hcall] at hfills
  case appendToInode =>
    change sysAppendToInode _ _ _ = sysAppendToInode _ _ _
    rw [sysAppendToInode, sysAppendToInode]
    split_ifs
    · rfl
    · rfl
    · refine withFsIndex_congr fun fs hfs => run_bind_congr fun buf mid hbuf => ?_
      cases hbuf
      refine run_bind_congr_left (run_zoom_congr (run_zoom_congr ?_))
      exact appendToInode_heap hpast (fun inode fs' => hfills fs inode fs' hfs) _ _
  case makeSymlink =>
    change sysMakeSymlink _ _ _ = sysMakeSymlink _ _ _
    rw [sysMakeSymlink, sysMakeSymlink]
    refine withFsIndex_congr fun fs hfs => run_bind_congr fun exists_ mid hexists => ?_
    have hmem := onMachine_mem _ _ _ _ hexists
    split_ifs
    · refine run_bind_congr fun both mid' hboth => ?_
      cases hboth
      split_ifs
      · refine run_bind_congr fun name mid' hname => ?_
        cases hname
        refine run_bind_congr fun target mid' htarget => ?_
        cases htarget
        refine run_bind_congr fun taken mid' htaken => ?_
        split_ifs
        · rfl
        · have htarget : mid.buf (e.frame 6) = Sys.buf ⟨m, e.mem⟩ (e.frame 6) := by
            unfold Sys.buf
            rw [hmem]
          rw [htarget, makeSymlink_heap hpast hfills]
      · rfl
    · rfl
  all_goals rfl

/-- **Stale kernel memory.** Two runs of the same calls that differ only in what the memory from `kmalloc` held
before give the user program the same results and bytes and leave the same filesystems, if every call of
the run stays in its buffers and fills the blocks it stages. -/
theorem runs_independent_of_heap {heap heap' : Nat → HeapBlock} {i : Nat} {es : List Event} {m : Machine}
    (hwhole : AllWhole heap i es m) :
    runEvents heap i es m = runEvents heap' i es m ∧ runEvents heap i es m ≠ .error .undefined := by
  induction es generalizing i m with
  | nil => exact ⟨rfl, run_pure_ne_error _ _⟩
  | cons e es ih =>
    obtain ⟨hhead, htail⟩ := hwhole
    have hexec := e.exec_heap hhead.fills (heap i) (heap' i)
    rw [runEvents, runEvents]
    constructor
    · rw [run_bind_congr_left hexec]
      refine run_bind_congr fun seen m' hrun => run_bind_congr_left (ih ?_).1
      exact htail seen m' (hexec.trans hrun)
    · refine run_bind_ne_error (e.exec_defined hhead (heap i)) fun seen m' hrun => ?_
      exact run_bind_ne_error (ih (htail seen m' hrun)).2 fun _ _ _ => run_pure_ne_error _ _

/-! ### Runs on a small machine -/

def appendAndRead (fSize : UInt32) : List Event :=
  [{ call := .appendToInode
     frame := userRegs 0 0 3 fSize kernelCeiling
     mem := fun _ => 7
     now := 0
     stack := zero },
   { call := .readChunk
     frame := userRegs 0 0 3 0 kernelCeiling
     mem := fun _ => 7
     now := 0
     stack := zero }]

theorem exec_append_geo {e : Event} {heap : HeapBlock} {m m' : Machine} {seen : Seen} (hcall : e.call = .appendToInode)
    (hrun : e.exec heap m = .ok (seen, m')) (i : Slot) : (m'.fsEntries i).geo = (m.fsEntries i).geo := by
  have hkeeps : Keeps (fun s : Sys => (s.machine.fsEntries i).geo) (sysAppendToInode ⟨e.now, heap.buf, e.stack⟩ e.frame) := by
    refine .ite (.pure _) (.ite (.pure _) (.bind .get fun s => ?_))
    cases s.machine.fsFromIndex (e.frame 0) with
    | none => exact .pure _
    | some fs =>
      refine .bind (.bind .get fun _ => .pure _) fun buf => .bind (fun s a s' hdone => ?_) fun _ => .pure _
      rw [onMachine, zoom] at hdone
      split at hdone
      · next b m hok =>
        cases hdone
        obtain ⟨info, happend, rfl⟩ := onFs_eq_ok hok
        exact Machine.withFs_geo (Stays.keeps_appendToInode _ _ _ _ _ _ _ _ happend) i
      · cases hdone
  rw [Event.exec, hcall] at hrun
  split at hrun
  · next result s hok =>
    cases hrun
    exact hkeeps _ _ _ hok
  · cases hrun

theorem inBounds_of_geo {m : Machine} (hgeo : ∀ i, (m.fsEntries i).geo = smallFs.geo) : m.InBounds := fun i _ => by
  rw [hgeo]
  exact smallFs_layout.inBounds smallFs_valid

theorem runs_independent_of_heap_block :
    AllWhole (fun _ _ => 0) 0 (appendAndRead 4096) smallMachine ∧
      runEvents (fun _ _ => 0) 0 (appendAndRead 4096) smallMachine =
        runEvents (fun _ _ => 1) 0 (appendAndRead 4096) smallMachine ∧
      runEvents (fun _ _ => 0) 0 (appendAndRead 4096) smallMachine ≠ .error .undefined := by
  have hempty : ∀ fs' inode, getInode 3 smallFs = .ok (some inode, fs') → inode.sizeLo = 0 := fun fs' inode hget => by
    have hrun := getInode_run smallFs_mounted smallFs_layout (show smallFs.geo.Real .inode 3 by decide)
    obtain ⟨hinode, -⟩ := Prod.mk.inj (Except.ok.inj (hget.symm.trans hrun))
    rw [Option.some.inj hinode, smallFs_record.2.2]
    rfl
  have hwhole : AllWhole (fun _ _ => 0) 0 (appendAndRead 4096) smallMachine := by
    refine ⟨⟨inBounds_of_geo fun _ => rfl, fun fs inode fs' _ hget => ?_, fun fs inode fs' _ hget => ?_⟩, ?_⟩
    · rw [hempty fs' inode hget]
      exact .inl rfl
    · rw [hempty fs' inode hget]
      exact .inl rfl
    · intro seen m' hrun
      have hin := inBounds_of_geo fun i => exec_append_geo rfl hrun i
      exact ⟨⟨hin, trivial, trivial⟩, fun _ _ _ => trivial⟩
  exact ⟨hwhole, runs_independent_of_heap hwhole⟩

def lastSeen (heap : HeapBlock) (es : List Event) : Option (UInt8 × Option UInt8) :=
  match runEvents (fun _ => heap) 0 es smallMachine with
  | .ok (seen, m) => some ((m.fsEntries 0).disk 6 3, seen.getLast?.map fun s => s.2 (kernelCeiling + 3))
  | .error _ => none

/-- After three bytes are appended, the fourth byte of the block is what the memory of the buffer held. It is on
the disk, and `sys_read_chunk` hands it out. -/
theorem append_leaks_heap :
    lastSeen (fun _ => 0) (appendAndRead 3) = some (0, some 0) ∧
      lastSeen (fun _ => 1) (appendAndRead 3) = some (1, some 1) := by
  decide +kernel

end DeprecatOS
