import DeprecatOS.LookupPath
import DeprecatOS.Proof.DirEntries
import DeprecatOS.Proof.Operations

/-!
# Directories are finite maps

The entries of a directory with distinct names are a finite map from names to inode numbers. `dir_insert` adds a pair
to it, `dir_remove` takes one away, and both searches, that of `name_in` and that of `lookup`, evaluate it.
-/

namespace DeprecatOS

open Bytes Bits Fault PointerTree

variable {static : UInt32 → Prop} {fs fs' : FsInfo} {d : UInt32} {inode : Inode}

/-! ### The map -/

def FsInfo.pairs (fs : FsInfo) (d : UInt32) : Set (Name × UInt32) :=
  { p | ∃ e ∈ fs.dirEntries (fs.record d), (e.name, e.inode) = p }

/-- A well-formed directory of a consistent filesystem, with distinct names and inode numbers that exist. -/
structure GoodDir (static : UInt32 → Prop) (fs : FsInfo) (d : UInt32) : Prop where
  consistent : Consistent static fs
  allocated : fs.marked .inode d = true
  type : (fs.record d).type = inodeDirType
  dir : DirOk fs (fs.record d)
  names : ∀ e ∈ fs.dirEntries (fs.record d), NameOk e.name
  distinct : ((fs.dirEntries (fs.record d)).map DirEntry.name).Nodup
  real : ∀ e ∈ fs.dirEntries (fs.record d), fs.geo.Real .inode e.inode

theorem FsInfo.owner_of_dir (hmark : fs.marked .inode d = true) (htype : (fs.record d).type = inodeDirType) :
    fs.Owner d := by
  refine ⟨hmark, fun hinline => ?_⟩
  rw [Inode.Inline, htype] at hinline
  exact absurd hinline.1 (by decide)

theorem GoodDir.owner (hgood : GoodDir static fs d) : fs.Owner d := FsInfo.owner_of_dir hgood.allocated hgood.type

theorem GoodDir.ascii (hgood : GoodDir static fs d) : AsciiNames (fs.dirEntries (fs.record d)) := fun e he =>
  (hgood.names e he).2.2

theorem findEntry_some {es : List DirEntry} {name : Name} {e : DirEntry} (hfind : findEntry es name = some e) :
    e ∈ es ∧ e.name = name := by
  rw [findEntry] at hfind
  exact ⟨List.mem_of_find?_eq_some hfind, by simpa using List.find?_some hfind⟩

theorem findEntry_eq_some_iff {es : List DirEntry} (hdistinct : (es.map DirEntry.name).Nodup) {name : Name}
    {n : UInt32} : (findEntry es name).map DirEntry.inode = some n ↔ ∃ e ∈ es, (e.name, e.inode) = (name, n) := by
  constructor
  · intro hfind
    obtain ⟨e, he, rfl⟩ := Option.map_eq_some_iff.mp hfind
    obtain ⟨hmem, rfl⟩ := findEntry_some he
    exact ⟨e, hmem, rfl⟩
  · rintro ⟨e, he, heq⟩
    obtain ⟨rfl, rfl⟩ := Prod.mk.inj heq
    cases hfind : findEntry es e.name with
    | none => simpa using List.find?_eq_none.mp hfind e he
    | some e' =>
      obtain ⟨hmem, hname⟩ := findEntry_some hfind
      rw [List.inj_on_of_nodup_map hdistinct hmem he hname]
      rfl

theorem findEntry_eq_none_iff {es : List DirEntry} {name : Name} :
    findEntry es name = none ↔ ∀ e ∈ es, e.name ≠ name := by
  rw [findEntry, List.find?_eq_none]
  simp only [decide_eq_true_eq]

/-! ### Both searches -/

theorem lookupInBlocks_run (hmounted : Mounted static fs) (htree : TreeOk static fs inode) (hdir : DirOk fs inode)
    (name : Buf) : lookupInBlocks inode name (blocksFor inode.sizeLo).toNat 0 fs = nameIn inode name fs := by
  have hblocks : (blocksFor inode.sizeLo).toNat = (inode.sizeLo / 4096).toNat := by
    have haligned := hdir.aligned
    have hlt := inode.sizeLo.toNat_lt
    rw [blockSize] at haligned
    rw [blocksFor, UInt32.toNat_div, UInt32.toNat_add, UInt32.toNat_div]
    change (inode.sizeLo.toNat + 4095) % 4294967296 / 4096 = inode.sizeLo.toNat / 4096
    omega
  -- the two loops do the same on every block
  have hloops : ∀ cnt (i : UInt32), i.toNat + cnt ≤ inode.dirBlocks →
      lookupInBlocks inode name cnt i fs = nameInBlocks inode name cnt i fs := by
    intro cnt
    induction cnt with
    | zero => intros; rfl
    | succ cnt ih =>
      intro i hcnt
      have hi : i.toNat < inode.dirBlocks := by omega
      have hnext : (i + 1).toNat = i.toNat + 1 := by
        have hlt := inode.dirBlocks_lt
        exact toNat_add_one (by omega)
      have hread := readFileBlock_run hmounted htree (Inode.lt_fileBlkLimit hi) (hdir.mapped _ hi)
      rw [lookupInBlocks, nameInBlocks, run_bind_ok hread, run_bind_ok hread]
      dsimp only
      rw [lookup_eq (data_block hdir hi).1]
      cases nameInBlock _ name blockSize 0 with
      | some n => rfl
      | none => exact ih (i + 1) (by omega)
  have hcnt : (inode.sizeLo / 4096).toNat = inode.dirBlocks := UInt32.toNat_div ..
  rw [hblocks, nameIn, hloops _ 0 (by rw [hcnt]; exact (Nat.zero_add _).le)]

theorem GoodDir.search (hgood : GoodDir static fs d) (name : Buf) :
    ∃ found, nameIn (fs.record d) name fs = .ok (found, fs) ∧
      lookupInBlocks (fs.record d) name (blocksFor (fs.record d).sizeLo).toNat 0 fs = .ok (found, fs) ∧
      ∀ n, found = some n ↔ (nameOf name, n) ∈ fs.pairs d := by
  have hmounted := hgood.consistent.mounted
  have htree := (hgood.consistent.inode d hgood.owner).tree
  have hrun := nameIn_run hmounted htree hgood.dir (hgood.ascii.searchable name)
  refine ⟨_, hrun, ?_, fun n => findEntry_eq_some_iff hgood.distinct⟩
  rw [lookupInBlocks_run hmounted htree hgood.dir name, hrun]

/-! ### Both changes -/

theorem GoodDir.kept (hgood : GoodDir static fs d) (hkept : Kept static fs fs') :
    GoodDir static fs' d ∧ fs'.pairs d = fs.pairs d := by
  have hreal := FsInfo.real_of_marked hgood.allocated
  have hsame := hkept.files d hreal
  obtain ⟨hdir, hentries⟩ := hsame.sameBody.dir hgood.owner hgood.dir
  refine ⟨⟨hkept.consistent, ?_, ?_, hdir, ?_, ?_, ?_⟩, ?_⟩
  · rw [hkept.marks]
    exact hgood.allocated
  · rw [hsame.record]
    exact hgood.type
  · rw [hentries]
    exact hgood.names
  · rw [hentries]
    exact hgood.distinct
  · rw [hentries, hkept.geo]
    exact hgood.real
  · rw [FsInfo.pairs, FsInfo.pairs, hentries]

theorem Inserts.perm {es es' : List DirEntry} {e : DirEntry} (hinserts : Inserts es es' e) : es'.Perm (e :: es) := by
  obtain ⟨before, after, rfl, rfl⟩ := hinserts
  exact List.perm_middle

theorem GoodDir.inserted (hgood : GoodDir static fs d) {e : DirEntry} (hinserted : Inserted static fs fs' d e)
    (hname : NameOk e.name) (hreal : fs.geo.Real .inode e.inode)
    (habsent : ∀ n, (e.name, n) ∉ fs.pairs d) :
    GoodDir static fs' d ∧ fs'.pairs d = fs.pairs d ∪ {(e.name, e.inode)} := by
  have hperm := hinserted.entries.perm
  have hmem : ∀ e', e' ∈ fs'.dirEntries (fs'.record d) ↔ e' = e ∨ e' ∈ fs.dirEntries (fs.record d) := fun e' => by
    rw [hperm.mem_iff, List.mem_cons]
  refine ⟨⟨hinserted.consistent, ?_, ?_, hinserted.dir, ?_, ?_, ?_⟩, ?_⟩
  · rw [hinserted.marks]
    exact hgood.allocated
  · rw [hinserted.type]
    exact hgood.type
  · intro e' he'
    obtain rfl | he' := (hmem e').mp he'
    · exact hname
    · exact hgood.names e' he'
  · rw [(hperm.map DirEntry.name).nodup_iff, List.map_cons, List.nodup_cons]
    refine ⟨fun hin => ?_, hgood.distinct⟩
    obtain ⟨e', he', heq⟩ := List.mem_map.mp hin
    exact habsent e'.inode ⟨e', he', by rw [heq]⟩
  · intro e' he'
    rw [hinserted.geo]
    obtain rfl | he' := (hmem e').mp he'
    · exact hreal
    · exact hgood.real e' he'
  · ext p
    constructor
    · rintro ⟨e', he', rfl⟩
      obtain rfl | he' := (hmem e').mp he'
      · exact .inr rfl
      · exact .inl ⟨e', he', rfl⟩
    · rintro (⟨e', he', rfl⟩ | rfl)
      · exact ⟨e', (hmem e').mpr (.inr he'), rfl⟩
      · exact ⟨e, (hmem e).mpr (.inl rfl), rfl⟩

theorem GoodDir.removed (hgood : GoodDir static fs d) {e : DirEntry} (hremoved : Removed static fs fs' d e) :
    GoodDir static fs' d ∧ (e.name, e.inode) ∈ fs.pairs d ∧ fs'.pairs d = fs.pairs d \ {(e.name, e.inode)} := by
  obtain ⟨before, after, hold, hnew, -⟩ := hremoved.entries
  have hperm : (fs.dirEntries (fs.record d)).Perm (e :: fs'.dirEntries (fs'.record d)) := by
    rw [hold, hnew]
    exact List.perm_middle
  have hsub : ∀ e' ∈ fs'.dirEntries (fs'.record d), e' ∈ fs.dirEntries (fs.record d) := fun e' he' =>
    hperm.mem_iff.mpr (List.mem_cons_of_mem e he')
  have hdistinct := hgood.distinct
  rw [(hperm.map DirEntry.name).nodup_iff, List.map_cons, List.nodup_cons] at hdistinct
  refine ⟨⟨hremoved.consistent, ?_, ?_, hremoved.dir, fun e' he' => hgood.names e' (hsub e' he'), hdistinct.2,
    fun e' he' => ?_⟩, ⟨e, hperm.mem_iff.mpr List.mem_cons_self, rfl⟩, ?_⟩
  · rw [hremoved.marks]
    exact hgood.allocated
  · rw [hremoved.type]
    exact hgood.type
  · rw [hremoved.geo]
    exact hgood.real e' (hsub e' he')
  · ext p
    constructor
    · rintro ⟨e', he', rfl⟩
      refine ⟨⟨e', hsub e' he', rfl⟩, fun heq => hdistinct.1 ?_⟩
      rw [← (Prod.mk.inj heq).1]
      exact List.mem_map_of_mem he'
    · rintro ⟨⟨e', he', rfl⟩, hne⟩
      obtain rfl | he' := List.mem_cons.mp (hperm.mem_iff.mp he')
      · exact absurd rfl hne
      · exact ⟨e', he', rfl⟩

/-! ### Runs -/

inductive EntryCall where
  | insert (now : UInt32) (fs : Slot) (parentN : UInt32) (name : Buf) (childN : UInt32)
  | remove (now : UInt32) (fs : Slot) (parentN : UInt32) (name : Buf)

/-- The inode number of the entry that a call made or removed, or nothing when it returned false. -/
def EntryCall.exec : EntryCall → MachineM (Option UInt32)
  | .insert now fs parentN name childN => do
      if ← dirInsert now fs parentN name childN then pure (some childN) else pure none
  | .remove now fs parentN name => dirRemove now fs parentN name

/-- The call is about directory `d` in slot `i`. An insertion is of an absent name, into a directory that can grow,
and its first argument is a filesystem. -/
def EntryCall.Allowed (i : Slot) (d : UInt32) (m : Machine) : EntryCall → Prop
  | .insert _ fs parentN name _ => (m.mntRoot fs parentN).2 = (i, d) ∧ NameOk (nameOf name) ∧
      (∀ n, (nameOf name, n) ∉ (m.fsEntries i).pairs d) ∧ ((m.fsEntries i).record d).sizeLo.toNat < maxSize ∧
      ∃ static, Consistent static (m.fsEntries fs)
  | .remove _ fs parentN _ => (m.mntRoot fs parentN).2 = (i, d)

def EntryCall.Effect (pairs : Set (Name × UInt32)) (result : Option UInt32) (pairs' : Set (Name × UInt32)) :
    EntryCall → Prop
  | .insert _ _ _ name childN => (result = some childN ∧ pairs' = pairs ∪ {(nameOf name, childN)}) ∨
      (result = none ∧ pairs' = pairs)
  | .remove _ _ _ name =>
    (∃ n, result = some n ∧ (nameOf name, n) ∈ pairs ∧ pairs' = pairs \ {(nameOf name, n)}) ∨
    (result = none ∧ pairs' = pairs ∧ ∀ n, (nameOf name, n) ∉ pairs)

section Runs

variable {m m' : Machine} {i : Slot}

theorem returnMntRoot_run {fs : Slot} {n : UInt32} (hresolve : (m.mntRoot fs n).2 = (i, d)) :
    returnMntRoot fs n m = .ok (((m.mntRoot fs n).1, i, d), m) := by
  rw [← hresolve]
  rfl

theorem dirInsert_spec (hgood : GoodDir static (m.fsEntries i) d) {now : UInt32} {fs : Slot} {parentN childN : UInt32}
    {name : Buf} (hallowed : (EntryCall.insert now fs parentN name childN).Allowed i d m) :
    Runs (dirInsert now fs parentN name childN) m fun ok m' => GoodDir static (m'.fsEntries i) d ∧
      (m'.fsEntries i).pairs d =
        if ok then (m.fsEntries i).pairs d ∪ {(nameOf name, childN)} else (m.fsEntries i).pairs d := by
  obtain ⟨hresolve, hname, habsent, hsize, static', hcons⟩ := hallowed
  have hlen : ¬ (nameLength name = 0 ∨ nameLen ≤ nameLength name) := by
    rw [← length_nameOf]
    have := hname.1
    have := hname.2.1
    omega
  have hshort : nameLength name < 256 := Nat.lt_of_not_le fun h => hlen (.inr h)
  rw [dirInsert]
  dsimp only
  rw [if_neg hlen]
  by_cases hreal : (m.fsEntries fs).geo.Real .inode childN
  · refine Runs.bind_eq (onFs_run_read (getInode_run hcons.mounted hcons.layout hreal)) ?_
    dsimp only
    refine Runs.bind_eq (returnMntRoot_run hresolve) ?_
    dsimp only
    by_cases hfs : i = fs
    · subst hfs
      rw [if_neg (not_not.mpr rfl)]
      refine (onFs_runs (insertEntry_spec hgood.consistent hgood.owner hgood.dir hgood.type hsize hreal name
        hshort now)).mono fun ok m' hdone => ?_
      obtain ⟨fs', rfl, ⟨rfl, hkept⟩ | ⟨rfl, hinserted⟩⟩ := hdone
      · rw [m.withFs_fsEntries_self]
        exact hgood.kept hkept
      · rw [m.withFs_fsEntries_self]
        exact hgood.inserted hinserted hname hreal habsent
    · rw [if_pos hfs]
      exact Runs.pure ⟨hgood, rfl⟩
  · refine Runs.bind_eq (onFs_run_read (getInode_none (perGrp_ne_zero hcons.mounted.sound.geo).2 hreal)) ?_
    exact Runs.pure ⟨hgood, rfl⟩

theorem dirRemove_spec (hgood : GoodDir static (m.fsEntries i) d) {fs : Slot} {parentN : UInt32} (name : Buf)
    (hresolve : (m.mntRoot fs parentN).2 = (i, d)) (now : UInt32) :
    Runs (dirRemove now fs parentN name) m fun result m' => GoodDir static (m'.fsEntries i) d ∧
      (EntryCall.remove now fs parentN name).Effect ((m.fsEntries i).pairs d) result ((m'.fsEntries i).pairs d) := by
  have habsent : findEntry ((m.fsEntries i).dirEntries ((m.fsEntries i).record d)) (nameOf name) = none →
      ∀ n, (nameOf name, n) ∉ (m.fsEntries i).pairs d := by
    rintro hnone n ⟨e, he, heq⟩
    exact findEntry_eq_none_iff.mp hnone e he (Prod.mk.inj heq).1
  rw [dirRemove]
  dsimp only
  split_ifs with hlen
  · refine Runs.pure ⟨hgood, .inr ⟨rfl, rfl, habsent (findEntry_eq_none_iff.mpr fun e he heq => ?_)⟩⟩
    have hok := hgood.names e he
    rw [heq, NameOk, length_nameOf] at hok
    omega
  · refine Runs.bind_eq (returnMntRoot_run hresolve) ?_
    refine (onFs_runs (removeEntry_spec hgood.consistent hgood.owner hgood.dir hgood.type (hgood.ascii.searchable name)
      (fun e he _ => hgood.real e he) now)).mono fun result m' hdone => ?_
    obtain ⟨fs', rfl, ⟨rfl, rfl, hnone⟩ | ⟨e, rfl, hname, hremoved⟩⟩ := hdone
    · rw [m.withFs_self]
      exact ⟨hgood, .inr ⟨rfl, rfl, habsent hnone⟩⟩
    · rw [m.withFs_fsEntries_self]
      obtain ⟨hgood', hmem, hpairs⟩ := hgood.removed hremoved
      rw [hname] at hmem hpairs
      exact ⟨hgood', .inl ⟨e.inode, rfl, hmem, hpairs⟩⟩

theorem EntryCall.exec_spec (hgood : GoodDir static (m.fsEntries i) d) {call : EntryCall}
    (hallowed : call.Allowed i d m) :
    Runs call.exec m fun result m' => GoodDir static (m'.fsEntries i) d ∧
      call.Effect ((m.fsEntries i).pairs d) result ((m'.fsEntries i).pairs d) := by
  cases call with
  | insert now fs parentN name childN =>
    refine (dirInsert_spec hgood hallowed).bind fun ok m' hdone => ?_
    obtain ⟨hgood', hpairs⟩ := hdone
    cases ok with
    | false => exact Runs.pure ⟨hgood', .inr ⟨rfl, hpairs⟩⟩
    | true => exact Runs.pure ⟨hgood', .inl ⟨rfl, hpairs⟩⟩
  | remove now fs parentN name => exact dirRemove_spec hgood name hallowed now

/-- After any run of insertions and removals the directory is well formed, both searches evaluate its map, and each
further call changes the map as it should or fails and leaves it alone. -/
theorem directory_refines_map (hgood : GoodDir static (m.fsEntries i) d)
    (hreach : Reach (EntryCall.Allowed i d) EntryCall.exec m m') :
    GoodDir static (m'.fsEntries i) d ∧
      (∀ name : Buf, ∃ found,
        nameIn ((m'.fsEntries i).record d) name (m'.fsEntries i) = .ok (found, m'.fsEntries i) ∧
        lookupInBlocks ((m'.fsEntries i).record d) name (blocksFor ((m'.fsEntries i).record d).sizeLo).toNat 0
          (m'.fsEntries i) = .ok (found, m'.fsEntries i) ∧
        ∀ n, found = some n ↔ (nameOf name, n) ∈ (m'.fsEntries i).pairs d) ∧
      ∀ call, EntryCall.Allowed i d m' call → Runs call.exec m' fun result m'' =>
        GoodDir static (m''.fsEntries i) d ∧
          call.Effect ((m'.fsEntries i).pairs d) result ((m''.fsEntries i).pairs d) := by
  have hgood' : GoodDir static (m'.fsEntries i) d :=
    hreach.invariant (motive := fun m => GoodDir static (m.fsEntries i) d) hgood fun s call hs hallowed =>
      (EntryCall.exec_spec hs hallowed).mono fun _ _ hdone => hdone.1
  exact ⟨hgood', hgood'.search, fun call hallowed => EntryCall.exec_spec hgood' hallowed⟩

end Runs

/-! ### The small filesystem -/

theorem smallFs_dirOk : DirOk smallFs smallRoot := by decide

theorem smallFs_dirEntries : smallFs.dirEntries smallRoot = [⟨dot, 2, 2⟩, ⟨dotDot, 2, 2⟩, ⟨[102], 3, 1⟩] := by
  decide

theorem smallFs_goodDir : GoodDir smallStatic smallFs 2 := by
  have hrecord := smallFs_record.2.1
  refine ⟨smallFs_consistent, by decide, ?_, ?_, ?_, ?_, ?_⟩
  · rw [hrecord]
    decide
  · rw [hrecord]
    exact smallFs_dirOk
  · rw [hrecord, smallFs_dirEntries]
    decide
  · rw [hrecord, smallFs_dirEntries]
    decide
  · rw [hrecord, smallFs_dirEntries]
    simp only [List.forall_mem_cons, List.not_mem_nil, false_implies, implies_true, and_true]
    exact ⟨by decide, by decide, by decide⟩

theorem directory_refines_map_smallMachine :
    GoodDir smallStatic smallFs 2 ∧ (EntryCall.remove 0 0 2 (cstr [102])).Allowed 0 2 smallMachine ∧
      Runs (EntryCall.remove 0 0 2 (cstr [102])).exec smallMachine fun result m' =>
        GoodDir smallStatic (m'.fsEntries 0) 2 ∧
          (EntryCall.remove 0 0 2 (cstr [102])).Effect (smallFs.pairs 2) result ((m'.fsEntries 0).pairs 2) := by
  have hallowed : (EntryCall.remove 0 0 2 (cstr [102])).Allowed 0 2 smallMachine :=
    (by decide : (smallMachine.mntRoot 0 2).2 = (0, 2))
  exact ⟨smallFs_goodDir, hallowed, (directory_refines_map smallFs_goodDir .refl).2.2 _ hallowed⟩

def strayBlock : Buf :=
  smallRecord (smallRecord (smallRecord zero 0 2 12 1 2 46 0) 12 2 12 2 2 46 46) 24 99 4072 1 1 102 0

def strayMachine : Machine := { smallMachine with fsEntries := fun _ => smallFs.put 5 strayBlock }

def removeStray : Option (Option UInt32 × List DirEntry) :=
  match dirRemove 0 0 2 (cstr [102]) strayMachine with
  | .ok (result, m) => some (result, (m.fsEntries 0).dirEntries ((m.fsEntries 0).record 2))
  | .error _ => none

/-- `dir_remove` returns false after it has removed an entry whose inode does not exist. -/
theorem dirRemove_fails_after_removing :
    Consistent smallStatic (strayMachine.fsEntries 0) ∧ (strayMachine.fsEntries 0).marked .inode 2 = true ∧
      ((strayMachine.fsEntries 0).record 2).type = inodeDirType ∧
      DirOk (strayMachine.fsEntries 0) ((strayMachine.fsEntries 0).record 2) ∧
      (strayMachine.fsEntries 0).dirEntries ((strayMachine.fsEntries 0).record 2) =
        [⟨dot, 2, 2⟩, ⟨dotDot, 2, 2⟩, ⟨[102], 99, 1⟩] ∧
      removeStray = some (none, [⟨dot, 2, 2⟩, ⟨dotDot, 2, 2⟩]) := by
  have hrecord := smallFs_record.2.1
  have howner : smallFs.Owner 2 := smallFs_goodDir.owner
  have hok := smallFs_consistent.inode 2 howner
  have hmapped : mapped smallFs.entries (smallFs.record 2) 0 = 5 := by
    rw [hrecord]
    decide
  have hwrite := hok.tree.writeBlock_spec smallFs_mounted (show 0 < fileBlkLimit by decide)
    (by rw [hmapped]; decide) strayBlock
  rw [hmapped] at hwrite
  have hwrote := hwrite.of_run (writeBlock_run (smallFs_mounted.holds (by decide)) strayBlock)
  exact ⟨(hwrote.settled smallFs_consistent howner).consistent, by decide +kernel, by decide +kernel,
    by decide +kernel, by decide +kernel, by decide +kernel⟩

end DeprecatOS
