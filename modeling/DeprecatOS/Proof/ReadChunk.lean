import DeprecatOS.Paths
import DeprecatOS.Proof.CopyFile
import DeprecatOS.Proof.DirMap
import DeprecatOS.Proof.MountTable
import DeprecatOS.Proof.Sample

/-!
# Reading a chunk

`sys_read_chunk` follows the block pointers of any inode it is given. Below an allocated inode that has block pointers
they lead to blocks of the inode. An inline link has the characters of its target in their place, and a free inode
whatever is left there: these words lead to a block of someone else or out of the partition, where the kernel panics.
-/

namespace DeprecatOS

open Bytes Bits Fault PointerTree

/-! ### Pointers of any kind -/

/-- The sectors of the block are in the partition; their number is a product in 32 bits. -/
def FsInfo.InPartition (fs : FsInfo) (b : UInt32) : Prop := (b * sectorsPerBlk).toNat + 8 ≤ fs.sectorCount

instance (fs : FsInfo) (b : UInt32) : Decidable (fs.InPartition b) := Nat.decLe _ _

def FsInfo.sectors (fs : FsInfo) (b : UInt32) : Buf := fs.disk (b * sectorsPerBlk / sectorsPerBlk)

/-- The block number that the pointers lead to, unless a pointer block on the way is outside of the partition. -/
def FsInfo.leadsTo (fs : FsInfo) : Nat → UInt32 → Nat → Option UInt32
  | 0, p, _ => some p
  | n + 1, p, idx =>
    if p = 0 then some 0
    else if fs.InPartition p then fs.leadsTo n (ptr (fs.sectors p) (idx / ptrsPerBlk ^ n)) (idx % ptrsPerBlk ^ n)
    else none

def FsInfo.chunkBlock (fs : FsInfo) (inode : Inode) (idx : Nat) : Option UInt32 :=
  fs.leadsTo (rootHeight (locate idx).1) (inode.root (locate idx).1) (locate idx).2

def boundsPanic : Stop := .panic "KERNEL PANIC: LBA OUT OF PARTITION BOUNDS"

section Pointers

variable {fs : FsInfo} {p : UInt32} {n idx : Nat} {minted : Bool} {allocCnt : Option UInt32}

theorem readBlock_in (hin : fs.InPartition p) : readBlock p fs = .ok (fs.sectors p, fs) := by
  rw [readBlock, run_bind_ok (run_get fs), if_neg (Nat.not_lt.mpr hin)]
  rfl

theorem readBlock_out (hout : ¬ fs.InPartition p) : readBlock p fs = .error boundsPanic := by
  rw [readBlock, run_bind_ok (run_get fs), if_pos (Nat.not_le.mp hout)]
  rfl

theorem FsInfo.leadsTo_in (hp : p ≠ 0) (hin : fs.InPartition p) : fs.leadsTo (n + 1) p idx =
    fs.leadsTo n (ptr (fs.sectors p) (idx / ptrsPerBlk ^ n)) (idx % ptrsPerBlk ^ n) := by
  rw [leadsTo, if_neg hp, if_pos hin]

theorem FsInfo.leadsTo_out (hp : p ≠ 0) (hout : ¬ fs.InPartition p) : fs.leadsTo (n + 1) p idx = none := by
  rw [leadsTo, if_neg hp, if_neg hout]

theorem FsInfo.leadsTo_zero : fs.leadsTo n 0 idx = some 0 := by
  cases n with
  | zero => rfl
  | succ n => rw [leadsTo, if_pos rfl]

theorem walk_lookup_run (hp : p ≠ 0) : walk .lookup n p idx minted allocCnt fs =
    match fs.leadsTo (n + 1) p idx with
    | none => .error boundsPanic
    | some b => .ok ((if b = 0 then .empty else .done b, allocCnt), fs) := by
  induction n generalizing p idx minted with
  | zero =>
    rw [walk, dataBlock]
    by_cases hin : fs.InPartition p
    · rw [FsInfo.leadsTo_in hp hin, FsInfo.leadsTo, pow_zero, Nat.div_one]
      dsimp only
      by_cases hzero : ptr (fs.sectors p) idx = 0
      · have hdata : dataBlock p idx .lookup allocCnt fs = .ok (.error .emptyBlock, fs) := by
          rw [dataBlock, run_bind_ok (readBlock_in hin), if_pos hzero]
          rfl
        rw [if_pos hzero, ← dataBlock, run_bind_ok hdata]
        rfl
      · have hdata : dataBlock p idx .lookup allocCnt fs = .ok (.ok (fs.sectors p, allocCnt), fs) := by
          rw [dataBlock, run_bind_ok (readBlock_in hin), if_neg hzero]
          rfl
        rw [if_neg hzero, ← dataBlock, run_bind_ok hdata]
        rfl
    · rw [FsInfo.leadsTo_out hp hin, bind_assoc, run_bind_error (readBlock_out hin)]
  | succ n ih =>
    rw [walk]
    by_cases hin : fs.InPartition p
    · rw [FsInfo.leadsTo_in hp hin]
      by_cases hzero : ptr (fs.sectors p) (idx / ptrsPerBlk ^ (n + 1)) = 0
      · have hchild : childBlock p (idx / ptrsPerBlk ^ (n + 1)) .lookup allocCnt fs = .ok (.error .emptyBlock, fs) := by
          rw [childBlock, run_bind_ok (readBlock_in hin), if_pos hzero]
          rfl
        rw [run_bind_ok hchild, hzero, FsInfo.leadsTo_zero]
        rfl
      · have hchild : childBlock p (idx / ptrsPerBlk ^ (n + 1)) .lookup allocCnt fs =
            .ok (.ok (fs.sectors p, false, allocCnt), fs) := by
          rw [childBlock, run_bind_ok (readBlock_in hin), if_neg hzero]
          rfl
        have hbelow : walk .lookup n (ptr (fs.sectors p) (idx / ptrsPerBlk ^ (n + 1))) (idx % ptrsPerBlk ^ (n + 1)) false
            allocCnt fs = _ := ih hzero
        rw [run_bind_ok hchild]
        dsimp only
        cases hleads : fs.leadsTo (n + 1) (ptr (fs.sectors p) (idx / ptrsPerBlk ^ (n + 1))) (idx % ptrsPerBlk ^ (n + 1)) with
        | none =>
          rw [hleads] at hbelow
          rw [run_bind_error hbelow]
        | some b =>
          rw [hleads] at hbelow
          rw [run_bind_ok hbelow]
          dsimp only
          by_cases hb : b = 0
          · rw [if_pos hb]
            rfl
          · rw [if_neg hb]
            rfl
    · have hchild : childBlock p (idx / ptrsPerBlk ^ (n + 1)) .lookup allocCnt fs = .error boundsPanic := by
        rw [childBlock, run_bind_error (readBlock_out hin)]
      rw [FsInfo.leadsTo_out hp hin, run_bind_error hchild]

theorem mapSlot_lookup_run : mapSlot n p idx .lookup none fs =
    match fs.leadsTo n p idx with
    | none => .error boundsPanic
    | some b => .ok (if b = 0 then ⟨.emptyBlock, p, none, none⟩ else ⟨.writeSuccess, p, some b, none⟩, fs) := by
  cases n with
  | zero =>
    rw [mapSlot, mapLeaf, FsInfo.leadsTo]
    dsimp only
    by_cases hp : p = 0
    · rw [if_pos hp, if_pos hp]
      rfl
    · rw [if_neg hp, if_neg hp]
      rfl
  | succ n =>
    rw [mapSlot, mapRoot, rootBlock]
    by_cases hp : p = 0
    · rw [if_pos hp, hp, FsInfo.leadsTo_zero]
      rfl
    · rw [if_neg hp, run_bind_ok (run_pure _ _)]
      have hwalk : walk .lookup n p idx false none fs = _ := walk_lookup_run hp
      dsimp only
      cases hleads : fs.leadsTo (n + 1) p idx with
      | none =>
        rw [hleads] at hwalk
        rw [run_bind_error hwalk]
      | some b =>
        rw [hleads] at hwalk
        rw [run_bind_ok hwalk]
        dsimp only
        by_cases hb : b = 0
        · rw [if_pos hb, if_pos hb]
          rfl
        · rw [if_neg hb, if_neg hb]
          rfl

theorem readChunk_cases (inode : Inode) {i : UInt32} (hi : i.toNat < fileBlkLimit) : readChunk inode i fs =
    match fs.chunkBlock inode i.toNat with
    | none => .error boundsPanic
    | some b =>
      if b = 0 then .ok (some zero, fs)
      else if fs.InPartition b then .ok (some (fs.sectors b), fs)
      else .error boundsPanic := by
  have hslot : mapSlot (rootHeight (locate i.toNat).1) (inode.root (locate i.toNat).1) (locate i.toNat).2 .lookup none fs =
      _ := mapSlot_lookup_run
  rw [readChunk, readChunkWith, mapFileBlock_eq inode hi, FsInfo.chunkBlock]
  cases hleads : fs.leadsTo (rootHeight (locate i.toNat).1) (inode.root (locate i.toNat).1) (locate i.toNat).2 with
  | none =>
    rw [hleads] at hslot
    rw [map_eq_pure_bind, bind_assoc, run_bind_error hslot]
  | some b =>
    rw [hleads] at hslot
    rw [run_bind_ok (run_map_ok hslot)]
    dsimp only
    by_cases hb : b = 0
    · rw [if_pos hb, if_pos hb]
      rfl
    · rw [if_neg hb, if_neg hb]
      simp only [Rooted.into, Mapped.blkOut, pure_bind]
      by_cases hin : fs.InPartition b
      · rw [run_bind_ok (readBlock_in hin), if_pos hin]
        rfl
      · rw [run_bind_error (readBlock_out hin), if_neg hin]

theorem TreeOk.sectors_eq {static : UInt32 → Prop} {inode : Inode} (hmounted : Mounted static fs)
    (htree : TreeOk static fs inode) (hmem : p ∈ refs fs.entries inode) :
    fs.InPartition p ∧ fs.sectors p = fs.data p := by
  have hread := hmounted.readBlock_data (htree.used p hmem) (htree.notStatic p hmem)
  by_cases hin : fs.InPartition p
  · rw [readBlock_in hin] at hread
    exact ⟨hin, (Prod.mk.inj (Except.ok.inj hread)).1⟩
  · rw [readBlock_out hin] at hread
    cases hread

theorem TreeOk.chunkBlock_eq {static : UInt32 → Prop} {inode : Inode} (hmounted : Mounted static fs)
    (htree : TreeOk static fs inode) (hidx : idx < fileBlkLimit) :
    fs.chunkBlock inode idx = some (mapped fs.entries inode idx) := by
  have hwalk : ∀ n p o, o < ptrsPerBlk ^ n → (∀ b ∈ nodes ptrsPerBlk fs.entries n p, IsNode fs.entries inode b) →
      fs.leadsTo n p o = some (find ptrsPerBlk fs.entries n p o) := by
    intro n
    induction n with
    | zero => exact fun p o _ _ => rfl
    | succ n ih =>
      intro p o ho hbelow
      by_cases hp : p = 0
      · rw [hp, FsInfo.leadsTo_zero, find_zero_ptr]
      · obtain ⟨hin, hdata⟩ := htree.sectors_eq hmounted (isNode_mem_refs (hbelow p (self_mem_nodes hp)))
        rw [FsInfo.leadsTo_in hp hin, find_succ hp, hdata]
        exact ih _ _ (rest_lt ho) fun b hb => hbelow b (nodes_child_subset hp (slot_lt ho) hb)
  obtain ⟨hr, ho⟩ := locate_lt hidx
  exact hwalk _ _ _ ho fun b hb => ⟨_, hr, hb⟩

end Pointers

/-! ### Calls -/

def Machine.chunkPlace (m : Machine) (index inoN : UInt32) : Option Place :=
  match m.fsFromIndex index with
  | none => none
  | some i =>
    if (m.fsEntries i).geo.Real .inode inoN then
      let place := if ((m.fsEntries i).record inoN).type = inodeDirType then (m.mntRoot i inoN).2 else (i, inoN)
      if (m.fsEntries place.1).geo.Real .inode place.2 then some place else none
    else none

/-- The number of the block that a call reads, zero for a hole, unless a pointer leads out of the partition. -/
def Machine.chunkBlock (m : Machine) (place : Place) (n : UInt32) : Option UInt32 :=
  (m.fsEntries place.1).chunkBlock ((m.fsEntries place.1).record place.2) n.toNat

/-- The call returns, and when it returns a count, the bytes it left are those of a block of the inode, or zeros for a
hole. -/
def ReadsOwnChunk (frame : Regs) (s : Sys) : Prop :=
  Runs (sysReadChunk frame) s fun r s' => r ≠ 0 → r ≠ syscallError →
    ∃ place b, s.machine.chunkPlace (frame 0) (frame 4) = some place ∧
      s.machine.chunkBlock place (frame 5) = some b ∧
      (b = 0 ∨ (s.machine.fsEntries place.1).Owner place.2 ∧ b ∈ (s.machine.fsEntries place.1).owns place.2) ∧
      ∀ k < 4096, s'.mem (frame 6 + UInt32.ofNat k) = if b = 0 then 0 else (s.machine.fsEntries place.1).data b k

section Places

variable {static : Slot → UInt32 → Prop} {m : Machine} {index inoN : UInt32} {place : Place}

theorem Machine.live_of_fsFromIndex {i : Slot} (hindex : m.fsFromIndex index = some i) : m.Live i := by
  simp only [fsFromIndex] at hindex
  split_ifs at hindex with hlt hfree
  obtain rfl := Option.some.inj hindex
  by_cases hroot : (⟨index.toNat, hlt⟩ : Slot) = m.rootFs
  · exact .inl hroot
  · exact .inr fun hmount => hfree ⟨hroot, hmount⟩

theorem Machine.chunkPlace_live (hplace : m.chunkPlace index inoN = some place) : m.Live place.1 := by
  rw [chunkPlace] at hplace
  cases hindex : m.fsFromIndex index with
  | none => simp [hindex] at hplace
  | some i =>
    have hlive := live_of_fsFromIndex hindex
    simp only [hindex] at hplace
    split_ifs at hplace with hreal hdir
    · obtain rfl := Option.some.inj hplace
      exact live_mntRoot hlive fun _ => (UInt32.ne_of_lt hreal.1).symm
    · obtain rfl := Option.some.inj hplace
      exact hlive

variable (hcons : ∀ i, m.Live i → Consistent (static i) (m.fsEntries i))

include hcons

theorem chunkInode_run {i : Slot} (hindex : m.fsFromIndex index = some i) (inoN : UInt32) : chunkInode i inoN m =
    .ok ((m.chunkPlace index inoN).map fun place => (place.1, (m.fsEntries place.1).record place.2), m) := by
  have hget : ∀ j n, m.Live j → (m.fsEntries j).geo.Real .inode n →
      onFs j (getInode n) m = .ok (some ((m.fsEntries j).record n), m) := fun j n hlive hreal =>
    onFs_run_read (getInode_run (hcons j hlive).mounted (hcons j hlive).layout hreal)
  have hlive := Machine.live_of_fsFromIndex hindex
  rw [chunkInode, Machine.chunkPlace, hindex]
  dsimp only
  by_cases hreal : (m.fsEntries i).geo.Real .inode inoN
  · rw [run_bind_ok (hget i inoN hlive hreal), if_pos hreal]
    dsimp only
    by_cases hdir : ((m.fsEntries i).record inoN).type = inodeDirType
    · obtain ⟨place, hplace⟩ : ∃ place, (m.mntRoot i inoN).2 = place := ⟨_, rfl⟩
      have hlive' := Machine.live_mntRoot hlive fun _ => (UInt32.ne_of_lt hreal.1).symm
      rw [if_pos hdir, if_pos hdir, run_bind_ok (returnMntRoot_run hplace)]
      rw [hplace] at hlive' ⊢
      dsimp only
      by_cases hroot : (m.fsEntries place.1).geo.Real .inode place.2
      · rw [run_bind_ok (hget place.1 place.2 hlive' hroot), if_pos hroot]
        rfl
      · rw [run_bind_ok (onFs_run_read (getInode_none (perGrp_ne_zero (hcons _ hlive').mounted.sound.geo).2 hroot)), if_neg hroot]
        rfl
    · rw [if_neg hdir, if_neg hdir, if_pos hreal]
      rfl
  · rw [run_bind_ok (onFs_run_read (getInode_none (perGrp_ne_zero (hcons i hlive).mounted.sound.geo).2 hreal)), if_neg hreal]
    rfl

end Places

theorem chunkLen_ne (inode : Inode) (n : UInt32) : chunkLen inode n ≠ 0 ∧ chunkLen inode n ≠ syscallError := by
  rw [chunkLen]
  split_ifs with hrest
  · refine ⟨hrest.2, fun heq => ?_⟩
    have hlt : (inode.sizeLo % 4096).toNat < 4096 := by
      rw [UInt32.toNat_mod]
      exact Nat.mod_lt _ (by decide)
    rw [heq] at hlt
    exact absurd hlt (by decide)
  · exact ⟨by decide, by decide⟩

section Calls

variable {static : Slot → UInt32 → Prop} {s : Sys} {frame : Regs} {place : Place}
  (hcons : ∀ i, s.machine.Live i → Consistent (static i) (s.machine.fsEntries i))

include hcons

theorem sysReadChunk_none (hplace : s.machine.chunkPlace (frame 0) (frame 4) = none) :
    sysReadChunk frame s = .ok (syscallError, s) := by
  rw [sysReadChunk, sysReadChunkWith]
  cases hindex : s.machine.fsFromIndex (frame 0) with
  | none =>
    rw [withFsIndex, run_bind_ok (run_get s), hindex]
    rfl
  | some i =>
    have hinode := chunkInode_run hcons hindex (frame 4)
    rw [hplace] at hinode
    rw [withFsIndex_run hindex, run_bind_ok (onMachine_run_read hinode)]
    rfl

/-- What a call does with an inode: it refuses the buffer, or the chunk is past the end, or it copies the block that the
pointers lead to, where the partition has it. -/
theorem sysReadChunk_some (hplace : s.machine.chunkPlace (frame 0) (frame 4) = some place) : sysReadChunk frame s =
    if outside (frame 6) 4096 = true then .ok (syscallError, s)
    else if blocksFor ((s.machine.fsEntries place.1).record place.2).sizeLo ≤ frame 5 then .ok (0, s)
    else
      match s.machine.chunkBlock place (frame 5) with
      | none => .error boundsPanic
      | some b =>
        if b = 0 ∨ (s.machine.fsEntries place.1).InPartition b then
          (do
            writeUser (frame 6) 4096 (if b = 0 then zero else (s.machine.fsEntries place.1).sectors b)
            pure (chunkLen ((s.machine.fsEntries place.1).record place.2) (frame 5)) : SysM UInt32) s
        else .error boundsPanic := by
  obtain ⟨i, hindex⟩ : ∃ i, s.machine.fsFromIndex (frame 0) = some i := by
    rw [← Option.isSome_iff_exists, Option.isSome_iff_ne_none]
    intro hnone
    rw [Machine.chunkPlace, hnone] at hplace
    cases hplace
  have hinode := chunkInode_run hcons hindex (frame 4)
  rw [hplace] at hinode
  rw [sysReadChunk, sysReadChunkWith, withFsIndex_run hindex, run_bind_ok (onMachine_run_read hinode)]
  dsimp only [Option.map_some]
  by_cases hbuf : outside (frame 6) 4096 = true
  · rw [if_pos hbuf, if_pos hbuf]
    rfl
  rw [if_neg hbuf, if_neg hbuf]
  by_cases hpast : blocksFor ((s.machine.fsEntries place.1).record place.2).sizeLo ≤ frame 5
  · rw [if_pos hpast, if_pos hpast]
    rfl
  rw [if_neg hpast, if_neg hpast]
  have hread : readChunk ((s.machine.fsEntries place.1).record place.2) (frame 5) (s.machine.fsEntries place.1) = _ :=
    readChunk_cases _ (chunk_lt_fileBlkLimit hpast)
  have hcall : onMachine (onFs place.1 (readChunk ((s.machine.fsEntries place.1).record place.2) (frame 5))) s =
      match s.machine.chunkBlock place (frame 5) with
      | none => .error boundsPanic
      | some b =>
        if b = 0 ∨ (s.machine.fsEntries place.1).InPartition b then
          .ok (some (if b = 0 then zero else (s.machine.fsEntries place.1).sectors b), s)
        else .error boundsPanic := by
    rw [Machine.chunkBlock]
    cases hblock : (s.machine.fsEntries place.1).chunkBlock ((s.machine.fsEntries place.1).record place.2) (frame 5).toNat with
    | none =>
      rw [hblock] at hread
      rw [onMachine, zoom, onFs, zoom, hread]
    | some b =>
      rw [hblock] at hread
      dsimp only at hread ⊢
      by_cases hb : b = 0
      · rw [if_pos hb] at hread
        rw [if_pos (.inl hb), if_pos hb]
        exact onMachine_run_read (onFs_run_read hread)
      · rw [if_neg hb] at hread
        by_cases hin : (s.machine.fsEntries place.1).InPartition b
        · rw [if_pos hin] at hread
          rw [if_pos (.inr hin), if_neg hb]
          exact onMachine_run_read (onFs_run_read hread)
        · rw [if_neg hin] at hread
          rw [if_neg (not_or.mpr ⟨hb, hin⟩), onMachine, zoom, onFs, zoom, hread]
  cases hblock : s.machine.chunkBlock place (frame 5) with
  | none =>
    rw [hblock] at hcall
    rw [run_bind_error hcall]
  | some b =>
    rw [hblock] at hcall
    dsimp only at hcall ⊢
    by_cases hok : b = 0 ∨ (s.machine.fsEntries place.1).InPartition b
    · rw [if_pos hok] at hcall ⊢
      rw [run_bind_ok hcall]
    · rw [if_neg hok] at hcall ⊢
      rw [run_bind_error hcall]

end Calls

/-- A call reads from the inode it is given, exactly when it stops before it reads the disk, or the inode is allocated
and has block pointers, or what is in their place happens to lead to a zero. -/
theorem sysReadChunk_own_iff {static : Slot → UInt32 → Prop} {s : Sys}
    (hcons : ∀ i, s.machine.Live i → Consistent (static i) (s.machine.fsEntries i)) (frame : Regs) :
    ReadsOwnChunk frame s ↔
      ∀ place, s.machine.chunkPlace (frame 0) (frame 4) = some place →
        outside (frame 6) 4096 = true ∨
        blocksFor ((s.machine.fsEntries place.1).record place.2).sizeLo ≤ frame 5 ∨
        (s.machine.fsEntries place.1).Owner place.2 ∨ s.machine.chunkBlock place (frame 5) = some 0 := by
  cases hplace : s.machine.chunkPlace (frame 0) (frame 4) with
  | none =>
    refine iff_of_true ⟨syscallError, s, sysReadChunk_none hcons hplace, fun _ h => absurd rfl h⟩ nofun
  | some place =>
    have hrun := sysReadChunk_some hcons hplace
    have hlive := Machine.chunkPlace_live hplace
    simp only [Option.some.injEq, forall_eq']
    by_cases hbuf : outside (frame 6) 4096 = true
    · rw [if_pos hbuf] at hrun
      exact iff_of_true ⟨_, _, hrun, fun _ h => absurd rfl h⟩ (.inl hbuf)
    rw [if_neg hbuf] at hrun
    by_cases hpast : blocksFor ((s.machine.fsEntries place.1).record place.2).sizeLo ≤ frame 5
    · rw [if_pos hpast] at hrun
      exact iff_of_true ⟨_, _, hrun, fun h => absurd rfl h⟩ (.inr (.inl hpast))
    rw [if_neg hpast] at hrun
    rw [or_iff_right hbuf, or_iff_right hpast]
    constructor
    · rintro ⟨r, s', hcall, hread⟩
      rw [hrun] at hcall
      cases hblock : s.machine.chunkBlock place (frame 5) with
      | none =>
        rw [hblock] at hcall
        cases hcall
      | some b =>
        rw [hblock] at hcall
        dsimp only at hcall
        by_cases hok : b = 0 ∨ (s.machine.fsEntries place.1).InPartition b
        · rw [if_pos hok] at hcall
          obtain ⟨rfl, -⟩ := Prod.mk.inj (Except.ok.inj hcall)
          obtain ⟨hne, herror⟩ := chunkLen_ne ((s.machine.fsEntries place.1).record place.2) (frame 5)
          obtain ⟨place', b', hplace', hblock', hown, -⟩ := hread hne herror
          obtain rfl := Option.some.inj (hplace.symm.trans hplace')
          obtain rfl := Option.some.inj (hblock.symm.trans hblock')
          exact hown.symm.imp And.left (congrArg some)
        · rw [if_neg hok] at hcall
          cases hcall
    · intro hgood
      obtain ⟨b, hblock, hown, hin⟩ : ∃ b, s.machine.chunkBlock place (frame 5) = some b ∧
          (b = 0 ∨ (s.machine.fsEntries place.1).Owner place.2 ∧ b ∈ (s.machine.fsEntries place.1).owns place.2) ∧
          (b ≠ 0 → (s.machine.fsEntries place.1).InPartition b ∧
            (s.machine.fsEntries place.1).sectors b = (s.machine.fsEntries place.1).data b) := by
        obtain howner | hhole := hgood
        · have hmounted := (hcons place.1 hlive).mounted
          have htree := ((hcons place.1 hlive).inode place.2 howner).tree
          refine ⟨_, htree.chunkBlock_eq hmounted (chunk_lt_fileBlkLimit hpast), ?_, fun hne => ?_⟩
          · exact or_iff_not_imp_left.mpr fun hne => ⟨howner, mapped_mem_refs (chunk_lt_fileBlkLimit hpast) hne⟩
          · exact htree.sectors_eq hmounted (mapped_mem_refs (chunk_lt_fileBlkLimit hpast) hne)
        · exact ⟨0, hhole, .inl rfl, fun h => absurd rfl h⟩
      rw [hblock] at hrun
      dsimp only at hrun
      rw [if_pos (or_iff_not_imp_left.mpr fun hne => (hin hne).1)] at hrun
      refine ⟨_, _, hrun, fun _ _ => ⟨place, b, hplace, hblock, hown, fun k hk => ?_⟩⟩
      refine (writeUser_mem s (frame 6) hk le_rfl _).trans ?_
      by_cases hb : b = 0
      · rw [if_pos hb, if_pos hb]
        rfl
      · rw [if_neg hb, if_neg hb, (hin hb).2]

def linkToA : Inode :=
  { Inode.zero with
    typeAndPermsLo := 0xA000
    sizeLo := 1
    hardLinkCnt := 1
    dirBlockPtr := fun r => if r = 0 then 97 else 0 }

def linked : Sample where
  inodes := [.zero, smallRoot, linkToA]
  spare := []
  block := smallDisk

def linkedSys : Sys where
  machine := { smallMachine with fsEntries := fun _ => linked.fs }
  mem _ := 0

/-- Reading the first chunk of the link, the kernel looks for block 97 in a partition of 32. -/
theorem inline_link_panics : (∀ i, linkedSys.machine.Live i → Consistent linked.static (linkedSys.machine.fsEntries i)) ∧
    linked.fs.marked .inode 3 = true ∧ linked.fs.target (linked.fs.record 3) = [97] ∧
    LinkOk linked.fs (linked.fs.record 3) ∧
    sysReadChunk (userRegs 0 0 3 0 kernelCeiling) linkedSys = .error boundsPanic := by
  have hok : linked.Ok := by decide
  have hrecord : linked.fs.record 3 = linkToA := Sample.fs_record (by decide)
  have hmark : linked.fs.marked .inode 3 = true := (Sample.fs_marked_iff (by decide)).mpr (by decide)
  have htarget : linked.fs.target (linked.fs.record 3) = [97] := by
    rw [hrecord]
    decide
  have hlink : LinkOk linked.fs (linked.fs.record 3) := by
    refine ⟨?_, fun _ => ?_, fun hblock => ?_, ?_⟩
    · rw [hrecord]
      decide
    · rw [hrecord]
      decide
    · rw [hrecord] at hblock
      exact absurd rfl hblock
    · rw [htarget]
      simp
  have hstop : (match sysReadChunk (userRegs 0 0 3 0 kernelCeiling) linkedSys with
      | .error e => some e
      | .ok _ => none) = some boundsPanic := by decide
  refine ⟨fun _ _ => Sample.consistent hok, hmark, htarget, hlink, ?_⟩
  cases hrun : sysReadChunk (userRegs 0 0 3 0 kernelCeiling) linkedSys with
  | ok result =>
    rw [hrun] at hstop
    cases hstop
  | error e =>
    rw [hrun] at hstop
    exact congrArg Except.error (Option.some.inj hstop)

theorem sysReadChunk_own_smallMachine :
    ReadsOwnChunk (userRegs 0 0 2 0 kernelCeiling) ⟨smallMachine, fun _ => 0⟩ := by
  have hcons : ∀ i, smallMachine.Live i → Consistent smallStatic (smallMachine.fsEntries i) := fun _ _ => smallFs_consistent
  have hplace : smallMachine.chunkPlace 0 2 = some (0, 2) := by decide
  refine (sysReadChunk_own_iff hcons (userRegs 0 0 2 0 kernelCeiling)).mpr fun place h => .inr (.inr (.inl ?_))
  obtain rfl := Option.some.inj (hplace.symm.trans h)
  refine FsInfo.owner_of_dir (show smallFs.marked .inode 2 = true by decide) ?_
  change (smallFs.record 2).type = inodeDirType
  rw [smallFs_record.2.1]
  rfl

end DeprecatOS
