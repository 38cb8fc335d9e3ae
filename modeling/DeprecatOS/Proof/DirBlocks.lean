import DeprecatOS.Proof.ReadFile
import DeprecatOS.Proof.Records

/-!
# The blocks of a directory

The loops over a directory read its blocks in order and stop at the first one where they find what they look for.
So a loop is a search in the list of the entries of the directory.
-/

namespace DeprecatOS

open Bytes Bits Fault PointerTree

variable {static : UInt32 → Prop} {fs fs' : FsInfo} {inode inode' : Inode}

/-! ### Blocks as buffers -/

theorem Inode.dirBlocks_lt (inode : Inode) : inode.dirBlocks < 1048576 := by
  have hlt := inode.sizeLo.toNat_lt
  rw [Inode.dirBlocks, blockSize]
  omega

theorem Inode.lt_fileBlkLimit {i : Nat} (hi : i < inode.dirBlocks) : i < fileBlkLimit := by
  have hlt := inode.dirBlocks_lt
  rw [fileBlkLimit]
  omega

theorem FsInfo.fileBlock_apply {i k : Nat} (hne : mapped fs.entries inode i ≠ 0) (hk : k < blockSize) :
    fs.fileBlock inode i k = fs.data (mapped fs.entries inode i) k := by
  have hdiv : (blockSize * i + k) / blockSize = i := by
    rw [blockSize] at *
    omega
  have hmod : (blockSize * i + k) % blockSize = k := by
    rw [blockSize] at *
    omega
  rw [FsInfo.fileBlock, if_pos hk, FsInfo.byte, hdiv, if_neg hne, hmod]

theorem data_block (hdir : DirOk fs inode) {i : Nat} (hi : i < inode.dirBlocks) :
    BlockOk (fs.data (mapped fs.entries inode i)) ∧
      blockEntries (fs.data (mapped fs.entries inode i)) = blockEntries (fs.fileBlock inode i) :=
  (hdir.block i hi).congr fun _ hk => (FsInfo.fileBlock_apply (hdir.mapped i hi) hk).symm

/-! ### The entries of some of the blocks -/

def FsInfo.entriesFrom (fs : FsInfo) (inode : Inode) (i cnt : Nat) : List DirEntry :=
  (List.range' i cnt).flatMap fun i => blockEntries (fs.fileBlock inode i)

theorem FsInfo.dirEntries_eq (fs : FsInfo) (inode : Inode) :
    fs.dirEntries inode = fs.entriesFrom inode 0 inode.dirBlocks := by
  rw [FsInfo.dirEntries, List.range_eq_range']
  rfl

theorem FsInfo.entriesFrom_zero (fs : FsInfo) (inode : Inode) (i : Nat) : fs.entriesFrom inode i 0 = [] := rfl

theorem FsInfo.entriesFrom_succ (fs : FsInfo) (inode : Inode) (i cnt : Nat) :
    fs.entriesFrom inode i (cnt + 1) = blockEntries (fs.fileBlock inode i) ++ fs.entriesFrom inode (i + 1) cnt := by
  rw [FsInfo.entriesFrom, List.range'_succ, List.flatMap_cons]
  rfl

theorem FsInfo.entriesFrom_add (fs : FsInfo) (inode : Inode) (i cnt cnt' : Nat) :
    fs.entriesFrom inode i (cnt + cnt') = fs.entriesFrom inode i cnt ++ fs.entriesFrom inode (i + cnt) cnt' := by
  rw [FsInfo.entriesFrom, ← List.range'_append_1, List.flatMap_append]
  rfl

theorem FsInfo.dirEntries_split (fs : FsInfo) {i : Nat} (hi : i < inode.dirBlocks) :
    fs.dirEntries inode = fs.entriesFrom inode 0 i ++
      (blockEntries (fs.fileBlock inode i) ++ fs.entriesFrom inode (i + 1) (inode.dirBlocks - (i + 1))) := by
  have hsum : inode.dirBlocks = i + (inode.dirBlocks - (i + 1) + 1) := by omega
  rw [FsInfo.dirEntries_eq, hsum, FsInfo.entriesFrom_add, FsInfo.entriesFrom_succ, Nat.zero_add]
  congr 3
  omega

theorem FsInfo.mem_entriesFrom {e : DirEntry} {i cnt : Nat} :
    e ∈ fs.entriesFrom inode i cnt ↔
      ∃ j, (i ≤ j ∧ j < i + cnt) ∧ e ∈ blockEntries (fs.fileBlock inode j) := by
  rw [FsInfo.entriesFrom, List.mem_flatMap]
  simp only [List.mem_range'_1]

theorem FsInfo.entriesFrom_congr {i cnt : Nat}
    (hsame : ∀ j, i ≤ j → j < i + cnt → blockEntries (fs'.fileBlock inode' j) = blockEntries (fs.fileBlock inode j)) :
    fs'.entriesFrom inode' i cnt = fs.entriesFrom inode i cnt := by
  refine List.flatMap_congr fun j hj => ?_
  obtain ⟨hlow, hhigh⟩ := List.mem_range'_1.mp hj
  exact hsame j hlow hhigh

theorem Searchable.block {name : Buf} (hsearch : Searchable name (fs.dirEntries inode)) {i : Nat}
    (hi : i < inode.dirBlocks) : Searchable name (blockEntries (fs.fileBlock inode i)) := by
  intro e he
  refine hsearch e ?_
  rw [FsInfo.dirEntries_split fs hi]
  exact List.mem_append_right _ (List.mem_append_left _ he)

theorem AsciiNames.block (hascii : AsciiNames (fs.dirEntries inode)) {i : Nat} (hi : i < inode.dirBlocks) :
    AsciiNames (blockEntries (fs.fileBlock inode i)) := by
  intro e he
  refine hascii e ?_
  rw [FsInfo.dirEntries_split fs hi]
  exact List.mem_append_right _ (List.mem_append_left _ he)

/-! ### Loops over the blocks -/

section Scan

variable (hmounted : Mounted static fs) (htree : TreeOk static fs inode) (hdir : DirOk fs inode)

include hmounted htree hdir

theorem scanDirBlocks_from {β γ : Type} (loop : Nat → UInt32 → FsM β) (visit : Buf → Option γ)
    (finish : UInt32 → γ → FsM β) (done : β) (hzero : ∀ i, loop 0 i = pure done)
    (hstep : ∀ cnt i blk block, readFileBlock inode i fs = .ok (some (blk, block), fs) →
      loop (cnt + 1) i fs = (visit block).elim (loop cnt (i + 1)) (finish blk) fs)
    (cnt : Nat) (i : UInt32) (hcnt : i.toNat + cnt ≤ inode.dirBlocks) :
    (loop cnt i fs = .ok (done, fs) ∧
      ∀ j, i.toNat ≤ j → j < i.toNat + cnt → visit (fs.data (mapped fs.entries inode j)) = none) ∨
    ∃ j c, i.toNat ≤ j ∧ j < i.toNat + cnt ∧ visit (fs.data (mapped fs.entries inode j)) = some c ∧
      (∀ j', i.toNat ≤ j' → j' < j → visit (fs.data (mapped fs.entries inode j')) = none) ∧
      loop cnt i fs = finish (mapped fs.entries inode j) c fs := by
  induction cnt generalizing i with
  | zero =>
    refine .inl ⟨?_, fun j hlow hhigh => by omega⟩
    rw [hzero]
    rfl
  | succ cnt ih =>
    have hi : i.toNat < inode.dirBlocks := by omega
    have hlimit := Inode.lt_fileBlkLimit hi
    have hnext : (i + 1).toNat = i.toNat + 1 := by
      have hlt := inode.dirBlocks_lt
      exact toNat_add_one (by omega)
    rw [hstep cnt i _ _ (readFileBlock_run hmounted htree hlimit (hdir.mapped _ hi))]
    cases hvisit : visit (fs.data (mapped fs.entries inode i.toNat)) with
    | some c => exact .inr ⟨i.toNat, c, le_rfl, by omega, hvisit, fun j' hlow hhigh => by omega, rfl⟩
    | none =>
      have hrest := ih (i + 1) (by omega)
      rw [hnext] at hrest
      obtain ⟨hrun, hnone⟩ | ⟨j, c, hlow, hhigh, hfound, hnone, hrun⟩ := hrest
      · refine .inl ⟨hrun, fun j hlow hhigh => ?_⟩
        obtain rfl | hlt := Nat.eq_or_lt_of_le hlow
        · exact hvisit
        · exact hnone j hlt (by omega)
      · refine .inr ⟨j, c, by omega, by omega, hfound, fun j' hlow' hhigh' => ?_, hrun⟩
        obtain rfl | hlt := Nat.eq_or_lt_of_le hlow'
        · exact hvisit
        · exact hnone j' hlt hhigh'

theorem scanDirBlocks {β γ : Type} (loop : Nat → UInt32 → FsM β) (visit : Buf → Option γ)
    (finish : UInt32 → γ → FsM β) (done : β) (hzero : ∀ i, loop 0 i = pure done)
    (hstep : ∀ cnt i blk block, readFileBlock inode i fs = .ok (some (blk, block), fs) →
      loop (cnt + 1) i fs = (visit block).elim (loop cnt (i + 1)) (finish blk) fs) :
    (loop (inode.sizeLo / 4096).toNat 0 fs = .ok (done, fs) ∧
      ∀ j < inode.dirBlocks, visit (fs.data (mapped fs.entries inode j)) = none) ∨
    ∃ j c, j < inode.dirBlocks ∧ visit (fs.data (mapped fs.entries inode j)) = some c ∧
      (∀ j' < j, visit (fs.data (mapped fs.entries inode j')) = none) ∧
      loop (inode.sizeLo / 4096).toNat 0 fs = finish (mapped fs.entries inode j) c fs := by
  have hcnt : (inode.sizeLo / 4096).toNat = inode.dirBlocks := UInt32.toNat_div ..
  have hscan := scanDirBlocks_from hmounted htree hdir loop visit finish done hzero hstep inode.dirBlocks 0
  simp only [UInt32.toNat_zero, Nat.zero_add, le_refl, Nat.zero_le, true_implies, true_and] at hscan
  rwa [hcnt]

theorem nameIn_run {name : Buf} (hsearch : Searchable name (fs.dirEntries inode)) : nameIn inode name fs =
    .ok ((findEntry (fs.dirEntries inode) (nameOf name)).map DirEntry.inode, fs) := by
  have hblock : ∀ j < inode.dirBlocks, nameInBlock (fs.data (mapped fs.entries inode j)) name blockSize 0 =
      (findEntry (blockEntries (fs.fileBlock inode j)) (nameOf name)).map DirEntry.inode := by
    intro j hj
    obtain ⟨hblock, hentries⟩ := data_block hdir hj
    rw [nameInBlock_eq hblock (by rw [hentries]; exact hsearch.block hj), hentries]
  have hnone : ∀ j cnt, j + cnt ≤ inode.dirBlocks → (∀ k, j ≤ k → k < j + cnt →
      nameInBlock (fs.data (mapped fs.entries inode k)) name blockSize 0 = none) →
      findEntry (fs.entriesFrom inode j cnt) (nameOf name) = none := by
    intro j cnt hcnt hall
    rw [findEntry, List.find?_eq_none]
    intro e he
    obtain ⟨k, ⟨hlow, hhigh⟩, he⟩ := FsInfo.mem_entriesFrom.mp he
    have hk := hall k hlow hhigh
    rw [hblock k (by omega), Option.map_eq_none_iff, findEntry, List.find?_eq_none] at hk
    exact hk e he
  rw [nameIn]
  obtain ⟨hrun, hall⟩ | ⟨j, c, hj, hfound, hbefore, hrun⟩ :=
    scanDirBlocks hmounted htree hdir (nameInBlocks inode name) (fun block => nameInBlock block name blockSize 0)
      (fun _ c => pure (some c)) none (fun _ => rfl) (fun cnt i blk block hread => by
        rw [nameInBlocks, run_bind_ok hread]
        dsimp only
        cases nameInBlock block name blockSize 0 <;> rfl)
  · rw [hrun, FsInfo.dirEntries_eq, hnone 0 _ (by omega) fun k _ hk => hall k (by omega)]
    rfl
  · rw [hrun, FsInfo.dirEntries_split fs hj, findEntry, List.find?_append, ← findEntry,
      hnone 0 j (by omega) fun k _ hk => hbefore k (by omega), Option.none_or, List.find?_append, ← findEntry]
    rw [hblock j hj, Option.map_eq_some_iff] at hfound
    obtain ⟨e, he, rfl⟩ := hfound
    rw [he]
    rfl

theorem nameIn_eightBit {name : Buf} (hname : ¬ SevenBit name) : nameIn inode name fs = .ok (none, fs) := by
  rw [nameIn]
  obtain ⟨hrun, -⟩ | ⟨j, found, hj, hfound, -⟩ :=
    scanDirBlocks hmounted htree hdir (nameInBlocks inode name) (fun block => nameInBlock block name blockSize 0)
      (fun _ c => pure (some c)) none (fun _ => rfl) (fun cnt i blk block hread => by
        rw [nameInBlocks, run_bind_ok hread]
        dsimp only
        cases nameInBlock block name blockSize 0 <;> rfl)
  · exact hrun
  · rw [nameInBlock_eightBit (data_block hdir hj).1 hname] at hfound
    cases hfound

theorem dirIsEmpty_run (hascii : AsciiNames (fs.dirEntries inode)) : dirIsEmpty inode fs =
    .ok ((fs.dirEntries inode).all fun e => e.name = dot ∨ e.name = dotDot, fs) := by
  have hblock : ∀ j < inode.dirBlocks, blockIsEmpty (fs.data (mapped fs.entries inode j)) blockSize 0 =
      (blockEntries (fs.fileBlock inode j)).all fun e => e.name = dot ∨ e.name = dotDot := by
    intro j hj
    obtain ⟨hblock, hentries⟩ := data_block hdir hj
    rw [blockIsEmpty_eq hblock (by rw [hentries]; exact hascii.block hj), hentries]
  rw [dirIsEmpty]
  obtain ⟨hrun, hall⟩ | ⟨j, c, hj, hfound, -, hrun⟩ :=
    scanDirBlocks hmounted htree hdir (blocksAreEmpty inode)
      (fun block => if blockIsEmpty block blockSize 0 then none else some ()) (fun _ _ => pure false) true
      (fun _ => rfl) (fun cnt i blk block hread => by
        rw [blocksAreEmpty, run_bind_ok hread]
        dsimp only
        cases blockIsEmpty block blockSize 0 <;> rfl)
  · rw [hrun]
    congr 2
    symm
    rw [List.all_eq_true, FsInfo.dirEntries_eq]
    intro e he
    obtain ⟨k, ⟨-, hk⟩, he⟩ := FsInfo.mem_entriesFrom.mp he
    have hk := hall k (by omega)
    have hempty : blockIsEmpty (fs.data (mapped fs.entries inode k)) blockSize 0 = true := by simpa using hk
    rw [hblock k (by omega), List.all_eq_true] at hempty
    exact hempty e he
  · rw [hrun, FsInfo.dirEntries_split fs hj, List.all_append, List.all_append, ← hblock j hj]
    split_ifs at hfound with hempty
    rw [Bool.eq_false_iff.mpr hempty, Bool.false_and, Bool.and_false]
    rfl

end Scan

/-! ### Directories that did not change -/

theorem SameFile.sameBody {n : UInt32} (hsame : SameFile fs fs' n) : SameBody fs fs' n :=
  ⟨by rw [hsame.record]; exact .refl _, hsame.holes, hsame.bytes⟩

theorem SameBody.trans {fs'' : FsInfo} {n : UInt32} (hfirst : SameBody fs fs' n) (hsecond : SameBody fs' fs'' n)
    (howner : fs.Owner n → fs'.Owner n) : SameBody fs fs'' n where
  record := hfirst.record.trans hsecond.record
  holes ho j hj := (hsecond.holes (howner ho) j hj).trans (hfirst.holes ho j hj)
  bytes ho k hk := by
    rw [← hfirst.bytes ho k hk]
    exact hsecond.bytes (howner ho) k (by rwa [hfirst.record.sizeLo_eq])

section SameBody

variable {n : UInt32} (hsame : SameBody fs fs' n) (howner : fs.Owner n)

include hsame howner

theorem SameBody.fileBlock_eq {i : Nat} (hi : i < (fs.record n).dirBlocks) :
    fs'.fileBlock (fs'.record n) i = fs.fileBlock (fs.record n) i := by
  funext k
  rw [FsInfo.fileBlock, FsInfo.fileBlock]
  split_ifs with hk
  · refine hsame.bytes howner _ ?_
    rw [Inode.dirBlocks] at hi
    rw [blockSize] at *
    omega
  · rfl

omit howner in
theorem SameBody.dirBlocks_eq : (fs'.record n).dirBlocks = (fs.record n).dirBlocks := by
  rw [Inode.dirBlocks, Inode.dirBlocks, hsame.record.sizeLo_eq]

theorem SameBody.dirEntries_eq : fs'.dirEntries (fs'.record n) = fs.dirEntries (fs.record n) := by
  rw [FsInfo.dirEntries_eq, FsInfo.dirEntries_eq, hsame.dirBlocks_eq]
  exact FsInfo.entriesFrom_congr fun j _ hj => by rw [hsame.fileBlock_eq howner (by omega)]

theorem SameBody.dir (hdir : DirOk fs (fs.record n)) :
    DirOk fs' (fs'.record n) ∧ fs'.dirEntries (fs'.record n) = fs.dirEntries (fs.record n) := by
  refine ⟨⟨?_, fun i hi => ?_, fun i hi => ?_⟩, hsame.dirEntries_eq howner⟩
  · rw [hsame.record.sizeLo_eq]
    exact hdir.aligned
  · rw [hsame.dirBlocks_eq] at hi
    exact mt (hsame.holes howner i (Inode.lt_fileBlkLimit hi)).mp (hdir.mapped i hi)
  · rw [hsame.dirBlocks_eq] at hi
    rw [hsame.fileBlock_eq howner hi]
    exact hdir.block i hi

end SameBody

end DeprecatOS
