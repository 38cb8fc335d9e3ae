import DeprecatOS.Proof.FileContents
import DeprecatOS.Proof.FreeSpace
import DeprecatOS.Proof.Sample

/-!
# What calls on a file take and give back

A `write_inode` that fails, at whichever of its allocations, has given back every block it took. A
`replace_inode` ends with the new contents or with an empty file. A `truncate_inode` keeps the blocks on
the way to the file blocks that stay and releases the others.
-/

namespace DeprecatOS

open Bytes Bits Fault PointerTree

variable {static : UInt32 → Prop} {fs fs' : FsInfo} {inode : Inode} {n fSize : UInt32}

/-! ### Writing -/

theorem writeInode_failure_untouched (hmounted : Mounted static fs) (hsize : inode.sizeLo.toNat ≤ maxSize) (buf : Buf) :
    Runs (writeInode buf inode) fs fun result fs' => result.1 = false → Untouched fs fs' := by
  refine (writeInode_spec hmounted buf hsize).mono fun result fs' hresult hfailed => ?_
  obtain ⟨-, -, hnothing⟩ | ⟨hsuccess, -⟩ := hresult
  · apply Frame.untouched hmounted (hnothing.frame.mono fun b hb => absurd hb List.not_mem_nil)
    intro b
    rw [hnothing.used]
    simp
  · rw [hsuccess] at hfailed
    cases hfailed

/-- The first block is allocated and given back, because there is none for the second. -/
theorem writeInode_failure_untouched_crowdedFs : (crowdedFs 1).marked .block 31 = false ∧
    ∃ inode fs', writeInode zero twoBlockFile (crowdedFs 1) = .ok ((false, inode), fs') ∧
      Untouched (crowdedFs 1) fs' := by
  have hfails : (writeInode zero twoBlockFile (crowdedFs 1)).toOption.map (fun done => done.1.1) = some false := by
    decide +kernel
  have hsize : twoBlockFile.sizeLo.toNat ≤ maxSize := by decide
  obtain ⟨⟨ok, inode⟩, fs', hrun, huntouched⟩ := writeInode_failure_untouched (crowdedFs_mounted 1) hsize zero
  rw [hrun] at hfails
  obtain rfl : ok = false := Option.some.inj hfails
  exact ⟨by decide +kernel, inode, fs', hrun, huntouched rfl⟩

/-! ### Replacing -/

/-- `replace_inode` ends in one of two states: the file is the buffer, or it is empty and its blocks are free. -/
theorem replaceInode_two_outcomes (hcons : Consistent static fs) (hmark : fs.marked .inode n = true)
    (htype : (fs.record n).type = inodeFileType) (hsize : fSize.toNat ≤ maxSize) (now : UInt32) (buf : Buf) :
    Runs (replaceInode now n buf fSize) fs fun result fs' =>
      Consistent static fs' ∧ (∀ m, fs.marked .inode m = true → m ≠ n → SameFile fs fs' m) ∧
        ((result = some (fs'.record n) ∧
            readContents (fs'.record n) fs' = .ok ((List.range fSize.toNat).map buf, fs') ∧
            fs'.freeBlocks + (fs'.owns n).length = fs.freeBlocks + (fs.owns n).length) ∨
          (result = none ∧ readContents (fs'.record n) fs' = .ok ([], fs') ∧ (fs'.record n).diskSectors = 0 ∧
            (∀ r < 15, (fs'.record n).root r = 0) ∧ ∀ b, fs'.Used b ↔ fs.Used b ∧ b ∉ fs.owns n)) := by
  have howner := FsInfo.owner_of_file hmark htype
  refine (replaceInode_spec hcons howner hsize now buf).mono fun result fs' hresult => ?_
  have hall : ∀ size, Replaced static fs fs' n buf size → Consistent static fs' ∧
      (∀ m, fs.marked .inode m = true → m ≠ n → SameFile fs fs' m) ∧ InodeOk static fs' (fs'.record n) ∧
      readContents (fs'.record n) fs' = .ok ((List.range size.toNat).map buf, fs') := by
    intro size hreplaced
    have hcons' := hreplaced.edited.consistent
    have howner' : fs'.Owner n :=
      FsInfo.owner_of_file (hreplaced.edited.mark.trans hmark) (hreplaced.type.trans htype)
    have hok := hcons'.inode n howner'
    refine ⟨hcons', fun m hm hne => hreplaced.edited.others m (FsInfo.real_of_marked hm) hne, hok, ?_⟩
    rw [← hreplaced.size]
    exact readContents_eq hcons'.mounted hok.tree rfl hreplaced.bytes
  obtain ⟨rfl, hreplaced⟩ | ⟨rfl, hreplaced⟩ := hresult
  · obtain ⟨hcons', hothers, hok, hread⟩ := hall 0 hreplaced
    obtain ⟨hsectors, hroot, hrefs⟩ := hok.empty hreplaced.size
    refine ⟨hcons', hothers, .inr ⟨rfl, hread, hsectors, hroot, fun b => ?_⟩⟩
    rw [hreplaced.used, FsInfo.owns, FsInfo.owns, hrefs]
    simp
  · obtain ⟨hcons', hothers, hok, hread⟩ := hall fSize hreplaced
    refine ⟨hcons', hothers, .inl ⟨rfl, hread, ?_⟩⟩
    have htree := (hcons.inode n howner).tree
    exact freeBlocks_exchange hcons.mounted.sound hcons'.mounted.sound hreplaced.edited.geo htree.nodup hok.tree.nodup
      htree.used hreplaced.fresh hreplaced.used

theorem replaceInode_two_outcomes_smallFs :
    ∃ inode fs', replaceInode 0 3 (cstr [104, 105]) 2 smallFs = .ok (some inode, fs') ∧
      readContents inode fs' = .ok ([104, 105], fs') ∧ fs'.freeBlocks + (fs'.owns 3).length = 26 := by
  have hfile := smallFs_record.2.2
  have hsome : (replaceInode 0 3 (cstr [104, 105]) 2 smallFs).toOption.map (fun done => done.1.isSome) = some true := by
    decide +kernel
  have hmark : smallFs.marked .inode 3 = true := by decide
  have htype : (smallFs.record 3).type = inodeFileType := by
    rw [hfile]
    decide
  have hsize : (2 : UInt32).toNat ≤ maxSize := by decide
  obtain ⟨result, fs', hrun, -, -, houtcome⟩ := replaceInode_two_outcomes smallFs_consistent hmark htype hsize 0
    (cstr [104, 105])
  rw [hrun] at hsome
  obtain ⟨rfl, hread, hfree⟩ | ⟨rfl, -⟩ := houtcome
  · refine ⟨_, fs', hrun, hread, ?_⟩
    rw [hfree, smallFs_owns (by decide)]
    decide
  · cases hsome

/-! ### Truncating -/

def pathTo (c : Store UInt32) (inode : Inode) (j : Nat) : List UInt32 :=
  path ptrsPerBlk c (rootHeight (locate j).1) (inode.root (locate j).1) (locate j).2

theorem TreeOk.mem_refs_iff (htree : TreeOk static fs inode) {b : UInt32} : b ∈ refs fs.entries inode ↔
    ∃ j < fileBlkLimit, mapped fs.entries inode j ≠ 0 ∧ b ∈ pathTo fs.entries inode j := by
  constructor
  · intro hb
    obtain ⟨r, hr, hmem⟩ := mem_forest.mp hb
    obtain ⟨o, ho, hfind, hpath⟩ := (mem_blocks_iff_path (htree.full r hr)).mp hmem
    obtain ⟨hlimit, hlocate⟩ := locate_indexOf hr ho
    refine ⟨_, hlimit, ?_, ?_⟩
    · rwa [mapped_indexOf _ _ hr ho]
    · rwa [pathTo, hlocate]
  · rintro ⟨j, hj, hmapped, hpath⟩
    obtain ⟨hr, ho⟩ := locate_lt hj
    exact mem_forest.mpr ⟨_, hr, (mem_blocks_iff_path (htree.full _ hr)).mpr ⟨_, ho, hmapped, hpath⟩⟩

theorem Within.pathTo_eq {c c' : Store UInt32} {inode' : Inode} (hwithin : Within c c' inode inode') {j : Nat}
    (hj : j < fileBlkLimit) (hmapped : mapped c inode j ≠ 0) :
    mapped c' inode' j = mapped c inode j ∧ pathTo c' inode' j = pathTo c inode j := by
  obtain ⟨hr, ho⟩ := locate_lt hj
  exact (hwithin _ hr).find_eq ho hmapped

section Truncate

variable {newSize : UInt32}

theorem Shortened.mem_owns_iff (howner' : fs'.Owner n)
    (hshort : Shortened static fs fs' n newSize inode) {b : UInt32} : b ∈ fs'.owns n ↔ ∃ j < sizeBlocks newSize,
      mapped fs.entries (fs.record n) j ≠ 0 ∧ b ∈ pathTo fs.entries (fs.record n) j := by
  have hok := hshort.edited.consistent.inode n howner'
  rw [FsInfo.owns, hok.tree.mem_refs_iff, hshort.record]
  constructor
  · rintro ⟨j, hj, hmapped, hpath⟩
    obtain ⟨hsame, hpath'⟩ := hshort.within.pathTo_eq hj hmapped
    have hlow : j < sizeBlocks newSize := by
      by_contra hpast
      have hzero := hok.short j hj
      rw [hshort.record, hshort.size] at hzero
      exact hmapped (hzero (Nat.le_of_not_lt hpast))
    exact ⟨j, hlow, hsame ▸ hmapped, hpath' ▸ hpath⟩
  · rintro ⟨j, hj, hmapped, hpath⟩
    have hmapped' : mapped fs'.entries inode j ≠ 0 := by rwa [hshort.mapped_eq j hj]
    obtain ⟨-, hpath'⟩ := hshort.within.pathTo_eq (lt_fileBlkLimit hj) hmapped'
    exact ⟨j, lt_fileBlkLimit hj, hmapped', hpath' ▸ hpath⟩

theorem Shortened.byte_eq (hshort : Shortened static fs fs' n newSize inode) {k : Nat}
    (hk : k < blockSize * sizeBlocks newSize) :
    fs'.byte inode k = if k < newSize.toNat then fs.byte (fs.record n) k else 0 := by
  have hmod : (newSize % 4096).toNat = newSize.toNat % 4096 := UInt32.toNat_mod _ _
  rw [blockSize, sizeBlocks] at hk
  by_cases hfull : k / 4096 < newSize.toNat / 4096
  · rw [(hshort.kept _ hfull).byte_eq, if_pos (by omega)]
  have hquot : k / 4096 = newSize.toNat / 4096 := by omega
  have hoff : newSize % 4096 ≠ 0 := by
    intro hzero
    rw [hzero] at hmod
    change 0 = _ at hmod
    omega
  have hmapped := hshort.mapped_eq (newSize.toNat / 4096) (by rw [sizeBlocks]; omega)
  have hdiv : k / blockSize = newSize.toNat / 4096 := hquot
  rw [FsInfo.byte, FsInfo.byte, hdiv, hmapped]
  by_cases hhole : mapped fs.entries (fs.record n) (newSize.toNat / 4096) = 0
  · rw [if_pos hhole, if_pos hhole, ite_self]
  · rw [if_neg hhole, if_neg hhole, hshort.tail hoff hhole]
    have hlt : newSize.toNat % 4096 ≤ k % blockSize ↔ ¬ k < newSize.toNat := by
      rw [blockSize]
      omega
    by_cases hbelow : k < newSize.toNat
    · rw [if_pos hbelow, if_neg (fun h => hlt.mp h hbelow)]
    · rw [if_neg hbelow, if_pos (hlt.mpr hbelow)]

/-- `truncate_inode` keeps a beginning of the file and releases the blocks that it no longer needs. -/
theorem truncateInode_keeps_beginning (hcons : Consistent static fs) (hmark : fs.marked .inode n = true)
    (htype : (fs.record n).type = inodeFileType) (hsize : (fs.record n).sizeLo.toNat ≤ maxSize) (now newSize : UInt32) :
    ∃ old, readContents (fs.record n) fs = .ok (old, fs) ∧
      Runs (truncateInode now n newSize) fs fun result fs' =>
        (old.length < newSize.toNat → result = none ∧ fs' = fs) ∧
        (newSize.toNat ≤ old.length → ∃ inode, result = some inode ∧ fs'.record n = inode ∧
          readContents inode fs' = .ok (old.take newSize.toNat, fs') ∧
          (∀ k, newSize.toNat ≤ k → k < blockSize * sizeBlocks newSize →
            mapped fs'.entries inode (k / blockSize) ≠ 0 →
              fs'.disk (mapped fs'.entries inode (k / blockSize)) (k % blockSize) = 0) ∧
          (∀ j < fileBlkLimit, sizeBlocks newSize ≤ j → mapped fs'.entries inode j = 0) ∧
          (∀ b, b ∈ fs'.owns n ↔ ∃ j < sizeBlocks newSize,
            mapped fs.entries (fs.record n) j ≠ 0 ∧ b ∈ pathTo fs.entries (fs.record n) j) ∧
          (∀ b, fs'.Used b ↔ (fs.Used b ∧ b ∉ fs.owns n) ∨ b ∈ fs'.owns n) ∧
          inode.diskSectors.toNat = 8 * (fs'.owns n).length) := by
  have howner := FsInfo.owner_of_file hmark htype
  refine ⟨_, readContents_run hcons.mounted (hcons.inode n howner).tree, ?_⟩
  rw [List.length_map, List.length_range]
  refine (truncateInode_spec hcons howner hsize now newSize).mono fun result fs' hresult => ?_
  obtain ⟨hlarger, rfl, rfl⟩ | ⟨hsmaller, inode, rfl, hshort⟩ := hresult
  · have hlt := UInt32.lt_iff_toNat_lt.mp hlarger
    exact ⟨fun _ => ⟨rfl, rfl⟩, fun hle => absurd hle (Nat.not_le_of_lt hlt)⟩
  have hle : newSize.toNat ≤ (fs.record n).sizeLo.toNat := UInt32.le_iff_toNat_le.mp (UInt32.not_lt.mp hsmaller)
  refine ⟨fun hlt => absurd hlt (Nat.not_lt_of_le hle), fun _ => ⟨inode, rfl, hshort.record, ?_⟩⟩
  have hcons' := hshort.edited.consistent
  have howner' : fs'.Owner n := by
    apply FsInfo.owner_of_file (hshort.edited.mark.trans hmark)
    rw [hshort.record, hshort.type, htype]
  have hok := hcons'.inode n howner'
  rw [hshort.record] at hok
  have hcover : newSize.toNat ≤ blockSize * sizeBlocks newSize := by
    rw [blockSize, sizeBlocks]
    omega
  refine ⟨?_, fun k hlow hhigh hmapped => ?_, fun j hj hpast => ?_, fun b => ?_, hshort.used, ?_⟩
  · rw [← List.map_take, List.take_range, Nat.min_eq_left hle]
    refine readContents_eq hcons'.mounted hok.tree (congrArg UInt32.toNat hshort.size) fun k hk => ?_
    rw [hshort.byte_eq (Nat.lt_of_lt_of_le hk hcover), if_pos hk]
  · have hbyte := hshort.byte_eq hhigh
    rw [if_neg (Nat.not_lt_of_le hlow), FsInfo.byte, if_neg hmapped] at hbyte
    have hlimit : k / blockSize < fileBlkLimit := lt_fileBlkLimit (Nat.div_lt_of_lt_mul hhigh)
    rwa [hcons'.mounted.data_eq (hok.tree.notStatic _ (mapped_mem_refs hlimit hmapped))] at hbyte
  · exact hok.short j hj (by rwa [hshort.size])
  · exact hshort.mem_owns_iff howner'
  · rw [FsInfo.owns, hshort.record]
    exact hok.sectors

end Truncate

def lettersFile : Inode :=
  { smallFile with
    sizeLo := 5000
    diskSectors := 16
    dirBlockPtr := fun r => if r = 0 then 6 else if r = 1 then 7 else 0 }

def letters : Sample where
  inodes := [.zero, smallRoot, lettersFile]
  spare := []
  block b := if b = 5 then smallDisk 5 else fun k => 97 + UInt8.ofNat (k % 26)

theorem truncateInode_keeps_beginning_letters :
    ∃ inode fs', truncateInode 0 3 3 letters.fs = .ok (some inode, fs') ∧
      readContents inode fs' = .ok ([97, 98, 99], fs') ∧ inode.diskSectors.toNat = 8 * (fs'.owns 3).length := by
  have hok : letters.Ok := by decide +kernel
  have hcons := Sample.consistent hok
  have hrecord : letters.fs.record 3 = lettersFile := Sample.fs_record (by decide)
  have hmark : letters.fs.marked .inode 3 = true := (Sample.fs_marked_iff (by decide)).mpr (by decide)
  have htype : (letters.fs.record 3).type = inodeFileType := by
    rw [hrecord]
    decide
  have hsize : (letters.fs.record 3).sizeLo.toNat ≤ maxSize := by
    rw [hrecord]
    decide
  obtain ⟨old, hold, result, fs', hrun, -, hkeeps⟩ := truncateInode_keeps_beginning hcons hmark htype hsize 0 3
  have howner := FsInfo.owner_of_file hmark htype
  have hcontents := readContents_run hcons.mounted (hcons.inode 3 howner).tree
  rw [hold, hrecord] at hcontents
  have hinj : ∀ {bytes : List UInt8}, (.ok (old, letters.fs) : Except Stop _) = .ok (bytes, letters.fs) → old = bytes :=
    fun h => (Prod.mk.inj (Except.ok.inj h)).1
  rw [hinj hcontents] at hkeeps
  have hle : (3 : UInt32).toNat ≤ lettersFile.sizeLo.toNat := by decide
  obtain ⟨inode, rfl, -, hread, -, -, -, -, hsectors⟩ := hkeeps (by rwa [List.length_map, List.length_range])
  have htake : ((List.range lettersFile.sizeLo.toNat).map (letters.fs.byte lettersFile)).take (3 : UInt32).toNat =
      [97, 98, 99] := by
    rw [← List.map_take, List.take_range, Nat.min_eq_left hle]
    decide +kernel
  rw [htake] at hread
  exact ⟨inode, fs', hrun, hread, hsectors⟩

end DeprecatOS
