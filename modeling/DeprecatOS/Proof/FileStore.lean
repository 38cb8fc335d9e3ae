import DeprecatOS.Proof.FileSpace

/-!
# The files as byte strings

What the operations on inodes are for: a store that keeps a byte string for each number in use. Blocks, holes and
bitmaps are not seen there. Every call, made in any state that calls lead to, has its effect on the store.
-/

namespace DeprecatOS

open Bytes Fault

variable {static : UInt32 → Prop} {fs fs' : FsInfo} {n : UInt32} {x : Option (List UInt8)}

/-! ### The abstract store -/

abbrev FileStore := UInt32 → Option (List UInt8)

def given (buf : Buf) (size : UInt32) : List UInt8 := (List.range size.toNat).map buf

namespace InodeOp

/-- The call, and whether it succeeds. -/
def call : InodeOp → FsM Bool
  | put now buf fSize isDir => Option.isSome <$> putInode now buf fSize isDir
  | append now junk inodeN buf fSize => Option.isSome <$> appendToInode now junk inodeN buf fSize
  | truncate now inodeN newSize => Option.isSome <$> truncateInode now inodeN newSize
  | replace now inodeN buf fSize => Option.isSome <$> replaceInode now inodeN buf fSize
  | delete now inodeN => deleteInode now inodeN

/-- Of the calls that fail only a replacement changes the store: the file is empty then. -/
def Effect (files files' : FileStore) : InodeOp → Bool → Prop
  | put _ buf fSize isDir, true =>
    ∃ n, files n = none ∧ files' = if isDir then files else Function.update files n (some (given buf fSize))
  | append _ _ n buf fSize, true =>
    ∃ old, files n = some old ∧ files' = Function.update files n (some (old ++ given buf fSize))
  | truncate _ n newSize, true => ∃ old, files n = some old ∧ newSize.toNat ≤ old.length ∧
      files' = Function.update files n (some (old.take newSize.toNat))
  | truncate _ n newSize, false => (∃ old, files n = some old ∧ old.length < newSize.toNat) ∧ files' = files
  | replace _ n buf fSize, true => files' = Function.update files n (some (given buf fSize))
  | replace _ n _ _, false => files' = Function.update files n (some [])
  | delete _ n, ok => ok = true ∧ files' = Function.update files n none
  | _, false => files' = files

end InodeOp

/-! ### What the filesystem stores -/

def FsInfo.IsFile (fs : FsInfo) (n : UInt32) : Prop := fs.marked .inode n = true ∧ (fs.record n).type = inodeFileType

instance (fs : FsInfo) (n : UInt32) : Decidable (fs.IsFile n) := inferInstanceAs (Decidable (_ ∧ _))

def FsInfo.files (fs : FsInfo) : FileStore := fun n =>
  if fs.IsFile n then some ((List.range (fs.record n).sizeLo.toNat).map (fs.byte (fs.record n))) else none

theorem SameFile.files_eq (hsame : SameFile fs fs' n) (hmark : fs'.marked .inode n = fs.marked .inode n) :
    fs'.files n = fs.files n := by
  by_cases hfile : fs.IsFile n
  · have hfile' : fs'.IsFile n := ⟨hmark.trans hfile.1, by rw [hsame.record]; exact hfile.2⟩
    have howner := FsInfo.owner_of_file hfile.1 hfile.2
    rw [FsInfo.files, FsInfo.files, if_pos hfile, if_pos hfile', hsame.record]
    congr 1
    apply List.map_congr_left
    intro k hk
    rw [← hsame.bytes howner k (List.mem_range.mp hk), hsame.record]
  · have hfile' : ¬ fs'.IsFile n := by
      rw [FsInfo.IsFile, hmark, hsame.record]
      exact hfile
    rw [FsInfo.files, FsInfo.files, if_neg hfile, if_neg hfile']

theorem files_eq_none (hfree : fs.marked .inode n = false) : fs.files n = none :=
  if_neg fun hfile => by simp [hfile.1] at hfree

theorem ChangedOnly.files_eq (hchanged : ChangedOnly static fs fs' n) (hn : fs'.files n = x) :
    fs'.files = Function.update fs.files n x := by
  funext m
  obtain rfl | hne := eq_or_ne m n
  · rw [Function.update_self, hn]
  · rw [Function.update_of_ne hne]
    cases hmark : fs.marked .inode m with
    | false => rw [files_eq_none hmark, files_eq_none ((hchanged.marks m hne).trans hmark)]
    | true => exact (hchanged.others m (FsInfo.real_of_marked hmark) hne).files_eq (hchanged.marks m hne)

theorem Kept.files_eq (hkept : Kept static fs fs') : fs'.files = fs.files := by
  funext m
  have hmark : fs'.marked .inode m = fs.marked .inode m := congrFun hkept.marks m
  cases hused : fs.marked .inode m with
  | false => rw [files_eq_none hused, files_eq_none (hmark.trans hused)]
  | true => exact (hkept.files m (FsInfo.real_of_marked hused)).files_eq hmark

theorem files_eq_given {buf : Buf} {size : UInt32} (hfile : fs.IsFile n) (hsize : (fs.record n).sizeLo = size)
    (hbytes : ∀ k < size.toNat, fs.byte (fs.record n) k = buf k) : fs.files n = some (given buf size) := by
  rw [FsInfo.files, if_pos hfile, hsize, given]
  congr 1
  exact List.map_congr_left fun k hk => hbytes k (List.mem_range.mp hk)

/-! ### The calls -/

theorem Put.files_eq {inode : Inode} {buf : Buf} {size : UInt32} {isDir : Bool}
    (hput : Put static fs fs' n inode buf size isDir) :
    fs'.files = if isDir then fs.files else Function.update fs.files n (some (given buf size)) := by
  have hrecord := hput.allotted.record
  have htype := hput.type
  cases isDir with
  | true =>
    have hnone : fs'.files n = none := if_neg fun hfile => by
      have htype' := hfile.2
      rw [hrecord, htype] at htype'
      exact absurd htype' (by decide)
    rw [hput.allotted.changed.files_eq hnone, if_pos rfl, ← files_eq_none hput.allotted.free, Function.update_eq_self]
  | false =>
    apply hput.allotted.changed.files_eq
    refine files_eq_given ⟨hput.allotted.mark, by rw [hrecord, htype]; rfl⟩ (by rw [hrecord, hput.size]) fun k hk => ?_
    have hblock : k / blockSize < sizeBlocks size := by
      rw [sizeBlocks, blockSize]
      omega
    have hchunk := hput.content _ hblock
    rw [hrecord, FsInfo.byte, if_neg hchunk.ne_zero, hchunk.data _ (Nat.mod_lt k (by decide)), Nat.div_add_mod, if_pos hk]

theorem Extended.files_eq {buf : Buf} {size : UInt32} {inode : Inode} (hextended : Extended static fs fs' n buf size inode)
    (hfile : fs.IsFile n) : ∃ old, fs.files n = some old ∧
      fs'.files = Function.update fs.files n (some (old ++ given buf size)) := by
  have hrecord := hextended.record
  have hfile' : fs'.IsFile n :=
    ⟨hextended.edited.mark.trans hfile.1, by rw [hrecord, hextended.type]; exact hfile.2⟩
  have hbytes := hextended.bytes
  rw [hextended.size] at hbytes
  refine ⟨_, if_pos hfile, hextended.edited.files_eq ?_⟩
  rw [FsInfo.files, if_pos hfile', hrecord, hextended.size, List.range_add, List.map_append, List.map_map, given]
  congr 2
  · apply List.map_congr_left
    intro k hk
    have hk := List.mem_range.mp hk
    rw [hbytes k (by omega), if_pos hk]
  · apply List.map_congr_left
    intro k hk
    have hk := List.mem_range.mp hk
    rw [Function.comp_apply, hbytes _ (by omega), if_neg (by omega), Nat.add_sub_cancel_left]

theorem Shortened.files_eq {size : UInt32} {inode : Inode} (hshort : Shortened static fs fs' n size inode)
    (hfile : fs.IsFile n) (hle : size.toNat ≤ (fs.record n).sizeLo.toNat) : ∃ old, fs.files n = some old ∧
      size.toNat ≤ old.length ∧ fs'.files = Function.update fs.files n (some (old.take size.toNat)) := by
  have hrecord := hshort.record
  have hfile' : fs'.IsFile n := ⟨hshort.edited.mark.trans hfile.1, by rw [hrecord, hshort.type]; exact hfile.2⟩
  refine ⟨_, if_pos hfile, by simpa using hle, hshort.edited.files_eq ?_⟩
  rw [FsInfo.files, if_pos hfile', hrecord, hshort.size, ← List.map_take, List.take_range, Nat.min_eq_left hle]
  congr 1
  apply List.map_congr_left
  intro k hk
  have hk := List.mem_range.mp hk
  rw [hshort.byte_eq (by rw [blockSize, sizeBlocks]; omega), if_pos hk]

theorem Replaced.files_eq {buf : Buf} {size : UInt32} (hreplaced : Replaced static fs fs' n buf size)
    (hfile : fs.IsFile n) : fs'.files = Function.update fs.files n (some (given buf size)) := by
  apply hreplaced.edited.files_eq
  refine files_eq_given ⟨hreplaced.edited.mark.trans hfile.1, hreplaced.type.trans hfile.2⟩ hreplaced.size fun k hk => ?_
  exact hreplaced.bytes k (by rw [hreplaced.size]; exact hk)

theorem InodeOp.call_effect {op : InodeOp} (hcons : Consistent static fs) (hallowed : op.Allowed fs) :
    Runs op.call fs fun ok fs' => Effect fs.files fs'.files op ok := by
  obtain ⟨htarget, hsize⟩ := hallowed
  cases op with
  | put now buf fSize isDir =>
    obtain ⟨result, fs', hrun, hput⟩ := putInode_spec hcons hsize now buf isDir
    refine .of_eq (run_map_ok hrun) ?_
    obtain ⟨rfl, hkept⟩ | ⟨n, inode, rfl, hput⟩ := hput
    · exact hkept.files_eq
    · exact ⟨n, files_eq_none hput.allotted.free, hput.files_eq⟩
  | append now junk inodeN buf fSize =>
    have hfile := htarget inodeN rfl
    obtain ⟨result, fs', hrun, happend⟩ :=
      appendToInode_spec hcons (FsInfo.owner_of_file hfile.1 hfile.2) hsize now junk buf
    refine .of_eq (run_map_ok hrun) ?_
    obtain ⟨rfl, hkept⟩ | ⟨inode, rfl, hextended⟩ := happend
    · exact hkept.files_eq
    · exact hextended.files_eq hfile
  | truncate now inodeN newSize =>
    have hfile := htarget inodeN rfl
    obtain ⟨result, fs', hrun, htruncate⟩ :=
      truncateInode_spec hcons (FsInfo.owner_of_file hfile.1 hfile.2) hsize now newSize
    refine .of_eq (run_map_ok hrun) ?_
    obtain ⟨hlarger, rfl, rfl⟩ | ⟨hsmaller, inode, rfl, hshort⟩ := htruncate
    · exact ⟨⟨_, if_pos hfile, by simpa using UInt32.lt_iff_toNat_lt.mp hlarger⟩, rfl⟩
    · exact hshort.files_eq hfile (UInt32.le_iff_toNat_le.mp (UInt32.not_lt.mp hsmaller))
  | replace now inodeN buf fSize =>
    have hfile := htarget inodeN rfl
    obtain ⟨result, fs', hrun, hreplace⟩ :=
      replaceInode_spec hcons (FsInfo.owner_of_file hfile.1 hfile.2) hsize now buf
    refine .of_eq (run_map_ok hrun) ?_
    obtain ⟨rfl, hreplaced⟩ | ⟨rfl, hreplaced⟩ := hreplace
    · exact hreplaced.files_eq hfile
    · exact hreplaced.files_eq hfile
  | delete now inodeN =>
    refine (deleteInode_spec hcons (htarget inodeN rfl).1 hsize now).mono fun ok fs' hdeleted => ?_
    exact ⟨hdeleted.1, hdeleted.2.changed.files_eq (files_eq_none hdeleted.2.mark)⟩

/-- In every state that operations on regular files reach, the next call does to the byte strings what it is for. -/
theorem inode_runs_store_bytes {s : FsInfo} (hcons : Consistent static fs)
    (hreach : Reach InodeOp.Allowed InodeOp.exec fs s) {op : InodeOp} (hallowed : op.Allowed s) :
    Runs op.call s fun ok s' => InodeOp.Effect s.files s'.files op ok := by
  have hcons' : Consistent static s := hreach.invariant hcons fun mid op hmid hallowed =>
    (InodeOp.exec_spec hmid hallowed).mono fun _ _ hpreserves => hpreserves.1
  exact InodeOp.call_effect hcons' hallowed

/-- "hi" is appended to the empty file, and then cut to its first byte. -/
theorem inode_runs_store_bytes_smallFs :
    ∃ s s', (InodeOp.append 0 zero 3 (cstr [104, 105]) 2).exec smallFs = .ok ((), s) ∧ s.files 3 = some [104, 105] ∧
      (InodeOp.truncate 0 3 1).call s = .ok (true, s') ∧ s'.files = Function.update s.files 3 (some [104]) := by
  have happend : (InodeOp.append 0 zero 3 (cstr [104, 105]) 2).Allowed smallFs := by
    refine ⟨fun n hn => ?_, ?_⟩
    · obtain rfl : 3 = n := Option.some.inj hn
      rw [smallFs_record.2.2]
      exact ⟨by decide, by decide⟩
    · change (smallFs.record 3).sizeLo.toNat + 2 ≤ maxSize
      rw [smallFs_record.2.2]
      decide
  have heval : ((InodeOp.append 0 zero 3 (cstr [104, 105]) 2).exec smallFs).toOption.map (fun done =>
      (done.2.marked .inode 3, (done.2.record 3).type, (done.2.record 3).sizeLo, done.2.files 3)) =
      some (true, inodeFileType, 2, some [104, 105]) := by
    decide +kernel
  have hsucceeds : ((InodeOp.append 0 zero 3 (cstr [104, 105]) 2).exec smallFs).toOption.map (fun done =>
      ((InodeOp.truncate 0 3 1).call done.2).toOption.map Prod.fst) = some (some true) := by
    decide +kernel
  obtain ⟨⟨⟨⟩, s⟩, hrun, hresult⟩ := eq_ok_of_toOption heval
  rw [hrun] at hsucceeds
  simp only [Prod.mk.injEq] at hresult
  obtain ⟨hmark, htype, hsize, hfiles⟩ := hresult
  have htruncate : (InodeOp.truncate 0 3 1).Allowed s := by
    refine ⟨fun n hn => ?_, ?_⟩
    · obtain rfl : 3 = n := Option.some.inj hn
      exact ⟨hmark, htype⟩
    · change (s.record 3).sizeLo.toNat ≤ maxSize
      rw [hsize]
      decide
  obtain ⟨ok, s', hcall, heffect⟩ :=
    inode_runs_store_bytes smallFs_consistent (.tail .refl ⟨_, _, happend, hrun⟩) htruncate
  have hok : ((InodeOp.truncate 0 3 1).call s).toOption.map Prod.fst = some true := Option.some.inj hsucceeds
  rw [hcall] at hok
  obtain rfl : ok = true := Option.some.inj hok
  obtain ⟨old, hold, -, hfiles'⟩ := heffect
  obtain rfl : [104, 105] = old := Option.some.inj (hfiles.symm.trans hold)
  exact ⟨s, s', hrun, hfiles, hcall, hfiles'⟩

end DeprecatOS
