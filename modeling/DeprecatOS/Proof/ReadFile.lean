import DeprecatOS.Syscall
import DeprecatOS.Proof.Append

/-!
# Reading the blocks of a file

A lookup changes nothing, so what reads a file by lookups is a function of the state.
-/

namespace DeprecatOS

open Bytes Bits Fault PointerTree

/-! ### Parts of the state -/

section Parts

variable {α : Type}

theorem Machine.withFs_self (m : Machine) (i : Slot) : m.withFs i (m.fsEntries i) = m := by
  rw [Machine.withFs, Function.update_eq_self]

@[simp]
theorem Machine.withFs_fsEntries_self (m : Machine) (i : Slot) (fs : FsInfo) :
    (m.withFs i fs).fsEntries i = fs := Function.update_self ..

theorem Machine.withFs_fsEntries_of_ne (m : Machine) {i j : Slot} (hne : j ≠ i) (fs : FsInfo) :
    (m.withFs i fs).fsEntries j = m.fsEntries j := Function.update_of_ne hne ..

theorem Machine.withFs_withFs (m : Machine) (i : Slot) (fs fs' : FsInfo) :
    (m.withFs i fs).withFs i fs' = m.withFs i fs' := by
  rw [Machine.withFs, Machine.withFs, Machine.withFs]
  simp only [Function.update_idem]

theorem onFs_eq_ok {prog : FsM α} {m m' : Machine} {i : Slot} {a : α} (hrun : onFs i prog m = .ok (a, m')) :
    ∃ fs', prog (m.fsEntries i) = .ok (a, fs') ∧ m' = m.withFs i fs' := by
  rw [onFs, zoom] at hrun
  cases hprog : prog (m.fsEntries i) with
  | error e =>
    rw [hprog] at hrun
    cases hrun
  | ok result =>
    obtain ⟨b, fs'⟩ := result
    rw [hprog] at hrun
    cases hrun
    exact ⟨fs', rfl, rfl⟩

theorem onFs_run {prog : FsM α} {m : Machine} {i : Slot} {a : α} {fs : FsInfo}
    (hrun : prog (m.fsEntries i) = .ok (a, fs)) : onFs i prog m = .ok (a, m.withFs i fs) := by
  rw [onFs, zoom, hrun]

theorem onFs_run_read {prog : FsM α} {m : Machine} {i : Slot} {a : α}
    (hrun : prog (m.fsEntries i) = .ok (a, m.fsEntries i)) : onFs i prog m = .ok (a, m) := by
  rw [onFs_run hrun, m.withFs_self]

theorem onMachine_run_read {prog : MachineM α} {s : Sys} {a : α}
    (hrun : prog s.machine = .ok (a, s.machine)) : onMachine prog s = .ok (a, s) := by
  rw [onMachine, zoom, hrun]

theorem onFs_runs {prog : FsM α} {m : Machine} {i : Slot} {post : α → FsInfo → Prop}
    (hrun : Runs prog (m.fsEntries i) post) :
    Runs (onFs i prog) m fun a m' => ∃ fs', m' = m.withFs i fs' ∧ post a fs' :=
  Runs.zoom hrun

theorem onMachine_runs {prog : MachineM α} {s : Sys} {post : α → Machine → Prop}
    (hrun : Runs prog s.machine post) :
    Runs (onMachine prog) s fun a s' => ∃ m', s' = { s with machine := m' } ∧ post a m' :=
  Runs.zoom hrun

theorem withFsIndex_run {index : UInt32} {handler : Slot → SysM UInt32} {s : Sys} {i : Slot}
    (hindex : s.machine.fsFromIndex index = some i) : withFsIndex index handler s = handler i s := by
  rw [withFsIndex, run_bind_ok (run_get s)]
  simp only [hindex]

end Parts

/-! ### Lookups -/

section Lookups

variable {static : UInt32 → Prop} {fs : FsInfo} {inode : Inode} (hmounted : Mounted static fs)
  (htree : TreeOk static fs inode) {i : UInt32} (hi : i.toNat < fileBlkLimit)

include hmounted htree hi

theorem mapFileBlock_lookup_run : mapFileBlock inode i .lookup none fs =
    .ok (if mapped fs.entries inode i.toNat = 0 then ⟨.emptyBlock, inode, none, none⟩
      else ⟨.writeSuccess, inode, some (mapped fs.entries inode i.toNat), none⟩, fs) := by
  obtain ⟨call, fs', hrun, rfl, rfl⟩ := mapFileBlock_lookup_spec hmounted htree hi none
  exact hrun

theorem readFileBlock_run (hne : mapped fs.entries inode i.toNat ≠ 0) : readFileBlock inode i fs =
    .ok (some (mapped fs.entries inode i.toNat, fs.data (mapped fs.entries inode i.toNat)), fs) := by
  have hmem := mapped_mem_refs hi hne
  have hrun := mapFileBlock_lookup_run hmounted htree hi
  rw [if_neg hne] at hrun
  rw [readFileBlock, run_bind_ok hrun, if_pos rfl]
  simp only [Mapped.blkOut, pure_bind]
  rw [run_bind_ok (hmounted.readBlock_data (htree.used _ hmem) (htree.notStatic _ hmem))]
  rfl

theorem readChunk_run : readChunk inode i fs =
    .ok (some (if mapped fs.entries inode i.toNat = 0 then zero
      else fs.data (mapped fs.entries inode i.toNat)), fs) := by
  rw [readChunk, readChunkWith, run_bind_ok (mapFileBlock_lookup_run hmounted htree hi)]
  by_cases hne : mapped fs.entries inode i.toNat = 0
  · rw [if_pos hne, if_pos hne]
    rfl
  · have hmem := mapped_mem_refs hi hne
    rw [if_neg hne, if_neg hne]
    simp only [Mapped.blkOut, pure_bind]
    rw [run_bind_ok (hmounted.readBlock_data (htree.used _ hmem) (htree.notStatic _ hmem))]
    rfl

end Lookups

end DeprecatOS
