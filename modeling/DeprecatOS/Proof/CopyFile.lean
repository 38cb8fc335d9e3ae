import DeprecatOS.Shell
import DeprecatOS.Proof.Operations
import DeprecatOS.Proof.ReadFile

/-!
# Copying a file

`copy_file` reads a file chunk by chunk and appends each chunk to another file. After `k` rounds the source
is as it was and the target holds its first `4096 * k` bytes, or all of them.
-/

namespace DeprecatOS

open Bytes Bits Fault PointerTree

def InWindow (buf : UInt32) : Prop := outside buf 4096 = false

/-- A file of at most `maxSize` bytes, in filesystem `i`, with this size and these bytes. -/
structure HasFile (static : UInt32 → Prop) (m : Machine) (i : Slot) (n : UInt32) (size : Nat)
    (content : Nat → UInt8) : Prop where
  consistent : Consistent static (m.fsEntries i)
  marked : (m.fsEntries i).marked .inode n = true
  type : ((m.fsEntries i).record n).type = inodeFileType
  size_eq : ((m.fsEntries i).record n).sizeLo.toNat = size
  size_le : size ≤ maxSize
  bytes : ∀ k < size, (m.fsEntries i).byte ((m.fsEntries i).record n) k = content k

theorem HasFile.owner {static : UInt32 → Prop} {m : Machine} {i : Slot} {n : UInt32} {size : Nat}
    {content : Nat → UInt8} (hfile : HasFile static m i n size content) : (m.fsEntries i).Owner n := by
  refine ⟨hfile.marked, fun hinline => ?_⟩
  have htype := hinline.1
  rw [hfile.type] at htype
  exact absurd htype (by decide)

theorem HasFile.congr {static : UInt32 → Prop} {m : Machine} {i : Slot} {n : UInt32} {size : Nat}
    {content content' : Nat → UInt8} (hfile : HasFile static m i n size content)
    (hsame : ∀ k < size, content k = content' k) : HasFile static m i n size content' :=
  { hfile with bytes := fun k hk => (hfile.bytes k hk).trans (hsame k hk) }

/-! ### One chunk -/

def ChunkRead (content : Nat → UInt8) (size : Nat) (n buf : UInt32) (s : Sys) (r : UInt32) (s' : Sys) : Prop :=
  s'.machine = s.machine ∧ r.toNat = min 4096 (size - 4096 * n.toNat) ∧ (r = 0 ↔ size ≤ 4096 * n.toNat) ∧
    ∀ k < r.toNat, s'.mem (buf + UInt32.ofNat k) = content (4096 * n.toNat + k)

theorem ChunkRead.of_toNat {content : Nat → UInt8} {size : Nat} {n buf r : UInt32} {s s' : Sys}
    (hmachine : s'.machine = s.machine) (hr : r.toNat = min 4096 (size - 4096 * n.toNat))
    (hbytes : ∀ k < r.toNat, s'.mem (buf + UInt32.ofNat k) = content (4096 * n.toNat + k)) :
    ChunkRead content size n buf s r s' := by
  refine ⟨hmachine, hr, ?_, hbytes⟩
  rw [← UInt32.toNat_inj, hr]
  change _ = 0 ↔ _
  omega

theorem toNat_chunkLen {inode : Inode} {n : UInt32} (hsize : inode.sizeLo.toNat ≤ maxSize)
    (hn : n.toNat < sizeBlocks inode.sizeLo) :
    (chunkLen inode n).toNat = min 4096 (inode.sizeLo.toNat - 4096 * n.toNat) := by
  have hblocks := toNat_blocksFor hsize
  have hmod : (inode.sizeLo % 4096).toNat = inode.sizeLo.toNat % 4096 := UInt32.toNat_mod ..
  have hzero : inode.sizeLo % 4096 = 0 ↔ inode.sizeLo.toNat % 4096 = 0 := by
    rw [← UInt32.toNat_inj, hmod]
    rfl
  have hlast : n = blocksFor inode.sizeLo - 1 ↔ n.toNat = sizeBlocks inode.sizeLo - 1 := by
    have hone : (1 : UInt32).toNat = 1 := rfl
    rw [← UInt32.toNat_inj, UInt32.toNat_sub_of_le _ _ (UInt32.le_iff_toNat_le.mpr (by omega)), hblocks, hone]
  rw [sizeBlocks] at hn hlast
  rw [chunkLen]
  split_ifs with hcond
  all_goals rw [hlast, Ne, hzero] at hcond
  · rw [hmod]
    omega
  · change 4096 = _
    omega

theorem writeUser_mem (s : Sys) (base : UInt32) {len k : Nat} (hk : k < len) (hlen : len ≤ 4096) (buf : Buf) :
    (if (base + UInt32.ofNat k - base).toNat < len then buf (base + UInt32.ofNat k - base).toNat
      else s.mem (base + UInt32.ofNat k)) = buf k := by
  have hoff : (base + UInt32.ofNat k - base).toNat = k := by
    rw [UInt32.add_comm, UInt32.add_sub_cancel, UInt32.toNat_ofNat']
    exact Nat.mod_eq_of_lt (by omega)
  rw [hoff, if_pos hk]

section Reading

variable {static : UInt32 → Prop} {s : Sys} {i : Slot} {frame : Regs} {size : Nat}
  {content : Nat → UInt8}

theorem sysReadChunk_spec (hfile : HasFile static s.machine i (frame 4) size content)
    (hindex : s.machine.fsFromIndex (frame 0) = some i) (hbuf : InWindow (frame 6)) :
    Runs (sysReadChunk frame) s (ChunkRead content size (frame 5) (frame 6) s) := by
  have hreal := FsInfo.real_of_marked hfile.marked
  have hok := hfile.consistent.inode _ hfile.owner
  have hsize : ((s.machine.fsEntries i).record (frame 4)).sizeLo.toNat ≤ maxSize := hfile.size_eq ▸ hfile.size_le
  have hblocks := toNat_blocksFor hsize
  have hinode : chunkInode i (frame 4) s.machine =
      .ok (some (i, (s.machine.fsEntries i).record (frame 4)), s.machine) := by
    rw [chunkInode, run_bind_ok (onFs_run_read
      (getInode_run hfile.consistent.mounted hfile.consistent.layout hreal))]
    dsimp only
    rw [hfile.type, if_neg (by decide)]
    rfl
  rw [sysReadChunk, sysReadChunkWith]
  refine Runs.of_prog_eq (withFsIndex_run hindex) ?_
  refine Runs.bind_eq (onMachine_run_read hinode) ?_
  dsimp only
  rw [if_neg (by rw [hbuf]; exact Bool.false_ne_true)]
  by_cases hpast : blocksFor ((s.machine.fsEntries i).record (frame 4)).sizeLo ≤ (frame 5)
  · rw [if_pos hpast]
    have hle := UInt32.le_iff_toNat_le.mp hpast
    rw [hblocks, sizeBlocks, hfile.size_eq] at hle
    refine Runs.pure (.of_toNat rfl ?_ fun k hk => absurd hk (Nat.not_lt_zero k))
    change 0 = _
    omega
  · rw [if_neg hpast]
    have hlt : (frame 5).toNat < sizeBlocks ((s.machine.fsEntries i).record (frame 4)).sizeLo := by
      rw [← hblocks]
      exact Nat.lt_of_not_le fun h => hpast (UInt32.le_iff_toNat_le.mpr h)
    have hlimit : (frame 5).toNat < fileBlkLimit := by
      have := sizeBlocks_lt hsize
      rw [fileBlkLimit]
      omega
    refine Runs.bind_eq (onMachine_run_read (onFs_run_read
      (readChunk_run hfile.consistent.mounted hok.tree hlimit))) ?_
    dsimp only
    refine Runs.bind_eq (run_modify _ s) (Runs.pure ?_)
    have hlen := toNat_chunkLen hsize hlt
    refine .of_toNat rfl (by rw [← hfile.size_eq]; exact hlen) fun k hk => ?_
    change k < (chunkLen _ (frame 5)).toNat at hk
    rw [hlen, hfile.size_eq] at hk
    refine (writeUser_mem s (frame 6) (show k < 4096 by omega) le_rfl _).trans ?_
    rw [← hfile.bytes _ (by omega), FsInfo.byte]
    have hdiv : (4096 * (frame 5).toNat + k) / blockSize = (frame 5).toNat := by
      rw [blockSize]
      omega
    have hmod : (4096 * (frame 5).toNat + k) % blockSize = k := by
      rw [blockSize]
      omega
    rw [hdiv, hmod]
    split_ifs <;> rfl

theorem HasFile.of_edited {static : Slot → UInt32 → Prop} {m : Machine} {i j : Slot} {n n' : UInt32}
    {fs' : FsInfo} (hfile : HasFile (static i) m i n size content)
    (hedited : Edited (static j) (m.fsEntries j) fs' n') (hne : (i, n) ≠ (j, n')) :
    HasFile (static i) (m.withFs j fs') i n size content := by
  by_cases hij : i = j
  · subst hij
    have hnn : n ≠ n' := fun h => hne (by rw [h])
    have hsame := hedited.others n (FsInfo.real_of_marked hfile.marked) hnn
    refine ⟨?_, ?_, ?_, ?_, hfile.size_le, fun k hk => ?_⟩
    all_goals rw [m.withFs_fsEntries_self]
    · exact hedited.consistent
    · rw [hedited.marks n hnn, hfile.marked]
    · rw [hsame.record, hfile.type]
    · rw [hsame.record, hfile.size_eq]
    · rw [hsame.bytes hfile.owner k (by rw [hfile.size_eq]; exact hk), hfile.bytes k hk]
  · have hfs := m.withFs_fsEntries_of_ne hij fs'
    refine ⟨?_, ?_, ?_, ?_, hfile.size_le, fun k hk => ?_⟩
    all_goals rw [hfs]
    · exact hfile.consistent
    · exact hfile.marked
    · exact hfile.type
    · exact hfile.size_eq
    · exact hfile.bytes k hk

theorem sysAppendToInode_spec (hfile : HasFile static s.machine i (frame 4) size content)
    (hindex : s.machine.fsFromIndex (frame 0) = some i) (hbuf : outsideLen (frame 6) (frame 5) = false)
    (hne : frame 5 ≠ 0) (hsize : size + (frame 5).toNat ≤ maxSize) (env : Env) :
    Runs (sysAppendToInode env frame) s fun r s' => r = syscallError ∨
      r = 0 ∧ ∃ fs', s' = { s with machine := s.machine.withFs i fs' } ∧
        Edited static (s.machine.fsEntries i) fs' (frame 4) ∧
        HasFile static (s.machine.withFs i fs') i (frame 4) (size + (frame 5).toNat) fun k =>
          if k < size then content k else s.buf (frame 6) (k - size) := by
  rw [sysAppendToInode, hbuf, if_neg Bool.false_ne_true, if_neg hne]
  refine Runs.of_prog_eq (withFsIndex_run hindex) ?_
  refine Runs.bind_eq (run_pure _ s) ?_
  have hfit : ((s.machine.fsEntries i).record (frame 4)).sizeLo.toNat + (frame 5).toNat ≤ maxSize := by
    rw [hfile.size_eq]
    exact hsize
  have happend := appendToInode_spec hfile.consistent hfile.owner hfit env.now env.heap (s.buf (frame 6))
  refine (onMachine_runs (onFs_runs happend)).bind fun done s' hdone => Runs.pure ?_
  obtain ⟨m', rfl, fs', rfl, ⟨rfl, -⟩ | ⟨inode, rfl, hextended⟩⟩ := hdone
  · exact .inl rfl
  · refine .inr ⟨rfl, fs', rfl, hextended.edited, ?_⟩
    refine ⟨?_, ?_, ?_, ?_, hsize, fun k hk => ?_⟩
    all_goals rw [s.machine.withFs_fsEntries_self]
    · exact hextended.edited.consistent
    · rw [hextended.edited.mark, hfile.marked]
    · rw [hextended.record, hextended.type, hfile.type]
    · rw [hextended.record, hextended.size, hfile.size_eq]
    · rw [hextended.record, hextended.bytes k (by rw [hextended.size, hfile.size_eq]; exact hk), hfile.size_eq]
      split_ifs with hold
      · exact hfile.bytes k hold
      · rfl

end Reading

/-! ### The loop -/

theorem InWindow.short {buf r : UInt32} (hbuf : InWindow buf) (hr : r.toNat ≤ 4096) :
    outsideLen buf r = false := by
  have hceiling : kernelCeiling.toNat = 1073741824 := rfl
  have hend : userSpaceEnd.toNat = 1074794496 := rfl
  have h4096 : (4096 : UInt32).toNat = 4096 := rfl
  have hsub : ∀ len : UInt32, len.toNat ≤ 4096 → (userSpaceEnd - len).toNat = 1074794496 - len.toNat := by
    intro len hlen
    rw [UInt32.toNat_sub_of_le _ _ (UInt32.le_iff_toNat_le.mpr (by omega)), hend]
  have hsize : (userSpaceEnd - kernelCeiling).toNat = 1052672 := rfl
  rw [InWindow, outside, Bool.or_eq_false_iff, decide_eq_false_iff_not, decide_eq_false_iff_not,
    UInt32.lt_iff_toNat_lt, UInt32.lt_iff_toNat_lt, hsub 4096 le_rfl] at hbuf
  rw [outsideLen, outside, Bool.or_eq_false_iff, Bool.or_eq_false_iff, decide_eq_false_iff_not,
    decide_eq_false_iff_not, decide_eq_false_iff_not, UInt32.lt_iff_toNat_lt, UInt32.lt_iff_toNat_lt,
    UInt32.lt_iff_toNat_lt, hsub r hr]
  omega

theorem Machine.fsFromIndex_withFs {m : Machine} {j : Slot} {fs' : FsInfo}
    (hgeo : fs'.geo = (m.fsEntries j).geo) (index : UInt32) :
    (m.withFs j fs').fsFromIndex index = m.fsFromIndex index := by
  have hmount : ∀ i, ((m.withFs j fs').fsEntries i).mountpoint = (m.fsEntries i).mountpoint := by
    intro i
    by_cases hij : i = j
    · rw [hij, m.withFs_fsEntries_self]
      exact congrArg Geo.mountpoint hgeo
    · rw [m.withFs_fsEntries_of_ne hij]
  unfold Machine.fsFromIndex
  simp only [hmount]
  rfl

section Loop

variable {static : Slot → UInt32 → Prop} {s : Sys} {i j : Slot} {srcN inodeN srcFs inodeFs fsBuf : UInt32}
  {size : Nat} {content : Nat → UInt8}

structure Copied (static : Slot → UInt32 → Prop) (i j : Slot) (srcN inodeN srcFs inodeFs : UInt32) (size : Nat)
    (content : Nat → UInt8) (k : Nat) (s : Sys) : Prop where
  source : HasFile (static i) s.machine i srcN size content
  target : HasFile (static j) s.machine j inodeN (min (4096 * k) size) content
  srcIndex : s.machine.fsFromIndex srcFs = some i
  inodeIndex : s.machine.fsFromIndex inodeFs = some j

theorem Copied.append (hne : (i, srcN) ≠ (j, inodeN)) (hbuf : InWindow fsBuf) {k : Nat} {r : UInt32} {s₁ : Sys}
    (hcopied : Copied static i j srcN inodeN srcFs inodeFs size content k s) {n : UInt32} (hn : n.toNat = k)
    (hread : ChunkRead content size n fsBuf s r s₁) (hr : r ≠ 0) (env : Env) :
    Runs (fappend env inodeFs inodeN fsBuf r) s₁ fun status s' => status = syscallError ∨
      status = 0 ∧ Copied static i j srcN inodeN srcFs inodeFs size content (k + 1) s' := by
  obtain ⟨hmachine, hlen, hzero, hbytes⟩ := hread
  have hmore : ¬ size ≤ 4096 * k := by rwa [← hn, ← hzero]
  have hold : min (4096 * k) size = 4096 * k := by omega
  have hnew : min (4096 * k) size + r.toNat = min (4096 * (k + 1)) size := by omega
  have hsize := hcopied.source.size_le
  have htarget := hcopied.target
  rw [← hmachine] at htarget
  have happend : Runs (sysAppendToInode env (userRegs inodeFs 0 inodeN r fsBuf)) s₁ _ :=
    sysAppendToInode_spec htarget (hmachine ▸ hcopied.inodeIndex) (hbuf.short (show r.toNat ≤ 4096 by omega))
      hr (show min (4096 * k) size + r.toNat ≤ maxSize by omega) env
  refine happend.mono ?_
  rintro status s' (hfail | ⟨hstatus, fs', rfl, hedited, hfile⟩)
  · exact .inl hfail
  · refine .inr ⟨hstatus, ?_⟩
    have hbytes : ∀ k' < min (4096 * k) size + r.toNat,
        (if k' < min (4096 * k) size then content k' else s₁.buf fsBuf (k' - min (4096 * k) size)) = content k' := by
      intro k' hk'
      split_ifs with hlt
      · rfl
      · rw [Sys.buf, hbytes _ (by omega), hn]
        congr 1
        omega
    refine ⟨?_, ?_, ?_, ?_⟩
    · exact (hmachine ▸ hcopied.source).of_edited hedited hne
    · rw [← hnew]
      exact hfile.congr hbytes
    · rw [← hcopied.srcIndex, ← hmachine]
      exact Machine.fsFromIndex_withFs hedited.geo srcFs
    · rw [← hcopied.inodeIndex, ← hmachine]
      exact Machine.fsFromIndex_withFs hedited.geo inodeFs

theorem copyFileFrom_spec (hne : (i, srcN) ≠ (j, inodeN)) (hbuf : InWindow fsBuf) (env : UInt32 → Env)
    (rounds : Nat) {k : Nat} {n : UInt32} (hn : n.toNat = k)
    (hcopied : Copied static i j srcN inodeN srcFs inodeFs size content k s) :
    Runs (copyFileFrom env fsBuf srcN inodeN srcFs inodeFs rounds n) s fun result s' =>
      (result = none → (rounds = 0 ∨ 4096 * (k + rounds) < size + 4096) ∧
        Copied static i j srcN inodeN srcFs inodeFs size content (k + rounds) s') ∧
      (result = some true → HasFile (static j) s'.machine j inodeN size content) := by
  induction rounds generalizing k n s with
  | zero =>
    exact Runs.pure ⟨fun _ => ⟨.inl rfl, hcopied⟩, nofun⟩
  | succ rounds ih =>
    rw [copyFileFrom]
    refine (sysReadChunk_spec hcopied.source hcopied.srcIndex hbuf).bind fun r s₁ hread => ?_
    change ChunkRead content size n fsBuf s r s₁ at hread
    have hlen := hread.2.1
    by_cases hdone : r = 0
    · rw [if_pos hdone]
      refine Runs.pure ⟨nofun, fun _ => ?_⟩
      have hall : min (4096 * k) size = size := min_eq_right (hn ▸ hread.2.2.1.mp hdone)
      rw [hread.1, ← hall]
      exact hcopied.target
    · have hmore : ¬ size ≤ 4096 * k := by
        rw [← hn, ← hread.2.2.1]
        exact hdone
      have hread_ok : r ≠ syscallError := by
        rintro rfl
        change 4294967295 = _ at hlen
        omega
      rw [if_neg hdone, if_neg hread_ok]
      refine (hcopied.append hne hbuf hn hread hdone (env n)).bind fun status s₂ hstatus => ?_
      obtain rfl | ⟨rfl, hnext⟩ := hstatus
      · rw [if_pos rfl]
        exact Runs.pure ⟨nofun, nofun⟩
      · rw [if_neg (by decide)]
        have hn' : (n + 1).toNat = k + 1 := by
          have hsize := hcopied.source.size_le
          rw [maxSize] at hsize
          rw [UInt32.toNat_add, hn]
          exact Nat.mod_eq_of_lt (by change k + 1 < 4294967296; omega)
        refine (ih hn' hnext).mono fun result s' hresult => ⟨fun hnone => ?_, hresult.2⟩
        obtain ⟨hrounds, hcopied'⟩ := hresult.1 hnone
        rw [show k + (rounds + 1) = k + 1 + rounds by omega]
        exact ⟨.inr (by omega), hcopied'⟩

/-- **`cp` copies a file exactly.** The loop returns, and when it returns true the target has the size and
the bytes of the source. In the state after any number of rounds, a call of `sys_read_chunk` on the source
returns the length of the chunk that is asked for and its bytes. -/
theorem copyFile_exact (hsource : HasFile (static i) s.machine i srcN size content)
    (htarget : HasFile (static j) s.machine j inodeN 0 content) (hne : (i, srcN) ≠ (j, inodeN))
    (hsrcFs : s.machine.fsFromIndex srcFs = some i) (hinodeFs : s.machine.fsFromIndex inodeFs = some j)
    (hbuf : InWindow fsBuf) (env : UInt32 → Env) :
    (∀ rounds, size / 4096 + 1 < rounds →
      Runs (copyFile env fsBuf srcN inodeN srcFs inodeFs rounds) s fun result s' =>
        ∃ done, result = some done ∧
          (done = true → HasFile (static j) s'.machine j inodeN size content)) ∧
      ∀ rounds, Runs (copyFile env fsBuf srcN inodeN srcFs inodeFs rounds) s fun result s' =>
        result = none →
          ∀ n, Runs (readChunkCall srcFs srcN n fsBuf) s' (ChunkRead content size n fsBuf s') := by
  have hstart : Copied static i j srcN inodeN srcFs inodeFs size content 0 s :=
    ⟨hsource, by rwa [Nat.mul_zero, Nat.zero_min], hsrcFs, hinodeFs⟩
  have hloop := fun rounds => copyFileFrom_spec hne hbuf env rounds UInt32.toNat_zero hstart
  refine ⟨fun rounds hrounds => (hloop rounds).mono fun result s' hresult => ?_,
    fun rounds => (hloop rounds).mono fun result s' hresult hnone n => ?_⟩
  · cases result with
    | none =>
      have := (hresult.1 rfl).1
      omega
    | some done => exact ⟨done, rfl, fun hdone => hresult.2 (by rw [hdone])⟩
  · have hcopied := (hresult.1 hnone).2
    exact sysReadChunk_spec hcopied.source hcopied.srcIndex hbuf

end Loop

/-! ### A copy between two small filesystems -/

def smallMounted : FsInfo := { smallFs with mountpoint := 12 }

def twoMachine : Machine where
  fsEntries i := if i = 0 then smallFs else smallMounted
  rootFs := 0
  label _ := zero

def smallStatics (_ : Slot) : UInt32 → Prop := smallStatic

theorem twoMachine_hasFile (i : Slot) (content : Nat → UInt8) :
    HasFile (smallStatics i) twoMachine i 3 0 content := by
  have hfs : twoMachine.fsEntries i = smallFs ∨ twoMachine.fsEntries i = smallMounted := ite_eq_or_eq ..
  have hrecord : (twoMachine.fsEntries i).record 3 = smallFile := by
    obtain h | h := hfs <;> rw [h] <;> exact smallFs_record.2.2
  refine ⟨?_, ?_, by rw [hrecord]; decide, by rw [hrecord]; rfl, Nat.zero_le _, nofun⟩
  · obtain h | h := hfs <;> rw [h]
    · exact smallFs_consistent
    · exact smallFs_consistent.remounted 12
  · obtain h | h := hfs <;> rw [h] <;> decide

theorem copyFile_exact_five : ∃ s : Sys, HasFile (smallStatics 0) s.machine 0 3 5 (fun _ => 7) ∧
    HasFile (smallStatics 1) s.machine 1 3 0 (fun _ => 7) ∧
    Runs (copyFile (fun _ => ⟨0, zero, zero⟩) kernelCeiling 3 3 0 1 2) s fun result s' =>
      ∃ done, result = some done ∧
        (done = true → HasFile (smallStatics 1) s'.machine 1 3 5 fun _ => 7) := by
  have happend : Runs (sysAppendToInode ⟨0, zero, zero⟩ (userRegs 0 0 3 5 kernelCeiling))
      ⟨twoMachine, fun _ => 7⟩ _ :=
    sysAppendToInode_spec (twoMachine_hasFile 0 fun _ => 7) rfl rfl (by decide) (by decide) _
  obtain ⟨r, s, hrun, hr⟩ := happend
  have hstatus : (sysAppendToInode ⟨0, zero, zero⟩ (userRegs 0 0 3 5 kernelCeiling)
      ⟨twoMachine, fun _ => 7⟩).toOption.map Prod.fst = some 0 := by decide
  rw [hrun] at hstatus
  obtain rfl : r = 0 := Option.some.inj hstatus
  obtain hbad | ⟨-, fs', rfl, hedited, hfile⟩ := hr
  · exact absurd hbad (by decide)
  have hsource : HasFile (smallStatics 0) (twoMachine.withFs 0 fs') 0 3 5 (fun _ => 7) :=
    hfile.congr fun k _ => by split_ifs <;> rfl
  have htarget : HasFile (smallStatics 1) (twoMachine.withFs 0 fs') 1 3 0 (fun _ => 7) :=
    (twoMachine_hasFile 1 fun _ => 7).of_edited hedited (by decide)
  refine ⟨⟨twoMachine.withFs 0 fs', fun _ => 7⟩, hsource, htarget, ?_⟩
  have hbuf : InWindow kernelCeiling := rfl
  refine (copyFile_exact hsource htarget (by decide) ?_ ?_ hbuf _).1 2 (by decide)
  · exact Machine.fsFromIndex_withFs hedited.geo 0
  · exact Machine.fsFromIndex_withFs hedited.geo 1

end DeprecatOS
