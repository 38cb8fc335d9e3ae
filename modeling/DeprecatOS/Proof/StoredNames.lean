import DeprecatOS.Proof.MakeFile

/-!
# Names that are found again

`comp_name` compares the bytes of a record, which are unsigned, with the characters of a string, which are signed. A name
with a character of eight bits can be stored, but no search ever finds it. With characters of seven bits a new entry is
found and removed again, unless the directory had the largest size there is and its size went round to zero.
-/

namespace DeprecatOS

open Bytes Bits Fault PointerTree

variable {static : UInt32 → Prop} {fs fs' : FsInfo} {inode : Inode} {d c : UInt32} {name : Buf}

/-- A directory that can be searched and changed: an allocated inode of that type, of whole blocks of records, and no
stored name has a zero in it. -/
structure WellFormedDir (static : UInt32 → Prop) (fs : FsInfo) (d : UInt32) : Prop where
  consistent : Consistent static fs
  mark : fs.marked .inode d = true
  type : (fs.record d).type = inodeDirType
  dir : DirOk fs (fs.record d)
  named : ∀ e ∈ fs.dirEntries (fs.record d), ∀ c ∈ e.name, 0 < c

/-- There is a record with room for the name, or the size of the directory can be increased. -/
def FsInfo.Fits (fs : FsInfo) (d : UInt32) (len : Nat) : Prop :=
  fs.HasRoom (fs.record d) len ∨ (fs.record d).sizeLo.toNat < maxSize

def FsInfo.Refuses (fs : FsInfo) (d : UInt32) (len : Nat) : Prop :=
  ¬ fs.HasRoom (fs.record d) len ∧ fs.freeBlocks < missingAt fs.entries (fs.record d) (fs.record d).dirBlocks

theorem WellFormedDir.owner (hdir : WellFormedDir static fs d) : fs.Owner d := FsInfo.owner_of_dir hdir.mark hdir.type

theorem WellFormedDir.tree (hdir : WellFormedDir static fs d) : TreeOk static fs (fs.record d) :=
  (hdir.consistent.inode d hdir.owner).tree

theorem WellFormedDir.searchable (hdir : WellFormedDir static fs d) (hseven : SevenBit name) :
    Searchable name (fs.dirEntries (fs.record d)) :=
  fun e he => ⟨hdir.named e he, .inr hseven⟩

section Inserted

variable {e : DirEntry} (hdir : WellFormedDir static fs d) (hseven : SevenBit name)
  (habsent : nameIn (fs.record d) name fs = .ok (none, fs)) (hinserted : Inserted static fs fs' d e)
  (hname : e.name = nameOf name)

include hdir hseven habsent

theorem WellFormedDir.not_named : ∀ e ∈ fs.dirEntries (fs.record d), e.name ≠ nameOf name := by
  rw [nameIn_run hdir.consistent.mounted hdir.tree hdir.dir (hdir.searchable hseven)] at habsent
  have hnone : (findEntry (fs.dirEntries (fs.record d)) (nameOf name)).map DirEntry.inode = none := by
    injection habsent with hpair
    exact (Prod.mk.inj hpair).1
  exact findEntry_eq_none_iff.mp (Option.map_eq_none_iff.mp hnone)

omit hseven habsent in
theorem WellFormedDir.inserted (hinserted : Inserted static fs fs' d e) (hpos : ∀ c ∈ e.name, 0 < c) :
    WellFormedDir static fs' d where
  consistent := hinserted.consistent
  mark := by rw [hinserted.marks, hdir.mark]
  type := hinserted.type.trans hdir.type
  dir := hinserted.dir
  named := by
    intro e' he'
    obtain rfl | he' := List.mem_cons.mp (hinserted.entries.perm.mem_iff.mp he')
    · exact hpos
    · exact hdir.named e' he'

include hinserted hname

theorem WellFormedDir.nameIn_inserted (hdir' : WellFormedDir static fs' d) :
    nameIn (fs'.record d) name fs' = .ok (some e.inode, fs') := by
  rw [nameIn_run hdir'.consistent.mounted hdir'.tree hdir'.dir (hdir'.searchable hseven)]
  obtain ⟨before, after, hold, hnew⟩ := hinserted.entries
  have hfind : findEntry (fs'.dirEntries (fs'.record d)) (nameOf name) = some e := by
    rw [hnew, findEntry, List.find?_append, List.find?_eq_none.mpr, Option.none_or, List.find?_cons_of_pos]
    · simpa using hname
    · intro e' he'
      have hne := hdir.not_named hseven habsent e' (by rw [hold]; exact List.mem_append_left _ he')
      simpa using hne
  rw [hfind]
  rfl

theorem WellFormedDir.removeEntry_inserted (hdir' : WellFormedDir static fs' d) (hc : fs'.geo.Real .inode e.inode)
    (now : UInt32) :
    Runs (removeEntry now d name) fs' fun result fs'' => result = some e.inode ∧
      fs''.dirEntries (fs''.record d) = fs.dirEntries (fs.record d) := by
  obtain ⟨before, after, hold, hnew⟩ := hinserted.entries
  have hnot := hdir.not_named hseven habsent
  rw [hold] at hnot
  have honly : ∀ e' ∈ fs'.dirEntries (fs'.record d), e'.name = nameOf name → e' = e := by
    intro e' he' heq
    obtain h | h := List.mem_cons.mp (hinserted.entries.perm.mem_iff.mp he')
    · exact h
    · rw [hold] at h
      exact absurd heq (hnot e' h)
  refine (removeEntry_spec hdir'.consistent hdir'.owner hdir'.dir hdir'.type (hdir'.searchable hseven)
    (fun e' he' heq => by rwa [honly e' he' heq]) now).mono fun result fs'' hresult => ?_
  obtain ⟨-, -, hnone⟩ | ⟨e', rfl, heq, hremoved⟩ := hresult
  · refine absurd hname (findEntry_eq_none_iff.mp hnone e ?_)
    rw [hnew]
    exact List.mem_append_right _ List.mem_cons_self
  · obtain ⟨before', after', hsplit, hrest, -⟩ := hremoved.entries
    have hsame : e' = e := by
      refine honly e' ?_ heq
      rw [hsplit]
      exact List.mem_append_right _ List.mem_cons_self
    subst hsame
    have hnotMem : ∀ {part : List DirEntry}, (∀ x ∈ part, x ∈ before ++ after) → e' ∉ part := fun hsub hmem =>
      hnot e' (hsub e' hmem) hname
    rw [hnew] at hsplit
    obtain ⟨rfl, -, rfl⟩ := (List.append_cons_inj_of_notMem (hnotMem fun x hx => List.mem_append_left _ hx)
      (hnotMem fun x hx => List.mem_append_right _ hx)).mp hsplit
    exact ⟨rfl, hrest.trans hold.symm⟩

end Inserted

/-! ### A directory of the largest size -/

/-- Directory `d` changed but for its type, and of the other inodes at most the link counts and the times. -/
structure DirChanged (static : UInt32 → Prop) (fs fs' : FsInfo) (d : UInt32) : Prop where
  mounted : Mounted static fs'
  geo : fs'.geo = fs.geo
  marks : fs'.marked .inode = fs.marked .inode
  others : ∀ m, fs.geo.Real .inode m → m ≠ d → SameBody fs fs' m
  tree : ∀ m, fs'.Owner m → TreeOk static fs' (fs'.record m)
  type : (fs'.record d).type = (fs.record d).type

theorem Inserted.dirChanged {e : DirEntry} (hinserted : Inserted static fs fs' d e) : DirChanged static fs fs' d :=
  ⟨hinserted.consistent.mounted, hinserted.geo, hinserted.marks, hinserted.others,
    fun m hm => (hinserted.consistent.inode m hm).tree, hinserted.type⟩

structure Wrapped (static : UInt32 → Prop) (fs fs' : FsInfo) (d : UInt32) : Prop
    extends DirChanged static fs fs' d where
  size : (fs'.record d).sizeLo = 0

theorem growDir_wraps (hcons : Consistent static fs) (howner : fs.Owner d) (hsize : (fs.record d).sizeLo.toNat = maxSize)
    (hc : fs.geo.Real .inode c) {len : Nat} (hlen : len < 256) (now : UInt32)
    (hfree : missingAt fs.entries (fs.record d) (fs.record d).dirBlocks ≤ fs.freeBlocks) (hdir : DirOk fs (fs.record d)) :
    Runs (growDir now d c (fs.record d) (fs.record c) name len) fs fun ok fs' =>
      ok = true ∧ Wrapped static fs fs' d := by
  have hroom : ¬ maxFileSize < (fs.record d).sizeLo.toNat + align4 (8 + len) := by
    rw [hsize, maxSize, align4, maxFileSize]
    omega
  have hlimit : (blocksFor (fs.record d).sizeLo).toNat < fileBlkLimit := by
    rw [hdir.blocksFor_eq]
    exact Inode.dirBlocks_lt_limit _
  have htree := (hcons.inode d howner).tree
  rw [growDir, if_neg hroom]
  refine (mapFileBlock_alloc_within hcons.mounted htree hlimit (some 0)).with_run.bind fun call fs₀ hcall => ?_
  obtain ⟨hrun, ⟨rfl, -⟩ | ⟨diskBlk, adds, hstatus, hblkOut, hdisk, -, hgrew, -⟩, hwithin⟩ := hcall
  · exact absurd ((mapFileBlock_grow_enough hcons howner hdir hrun).mpr hfree) (show Status.blockError ≠ .writeSuccess by decide)
  rw [if_pos hstatus]
  simp only [Mapped.blkOut, hblkOut, pure_bind]
  refine (hgrew.writeBlock_spec htree hlimit hdisk hwithin _).bind fun _ fs₁ hplaced => ?_
  obtain ⟨body, hbody⟩ : ∃ body, body = call.inode.extended (call.allocCnt.getD 0) 4096 now := ⟨_, rfl⟩
  have hroot : body.root = call.inode.root := by rw [hbody, Inode.root_extended]
  have hfields : body.sizeLo = 0 ∧ body.type = (fs.record d).type ∧ body.hardLinkCnt = (fs.record d).hardLinkCnt := by
    have hsame := hplaced.reshaped.fields
    have hsizes : call.inode.clearPtrs.sizeLo = (fs.record d).sizeLo := by rw [hsame]; rfl
    have htypes : call.inode.clearPtrs.type = (fs.record d).type := by rw [hsame]; rfl
    have hcounts : call.inode.clearPtrs.hardLinkCnt = (fs.record d).hardLinkCnt := by rw [hsame]; rfl
    refine ⟨?_, ?_, ?_⟩
    · rw [hbody]
      change call.inode.clearPtrs.sizeLo + 4096 = 0
      rw [hsizes, ← UInt32.toNat_inj, UInt32.toNat_add, hsize]
      rfl
    · rw [hbody, Inode.type_extended]
      exact htypes
    · rw [hbody, Inode.hardLinkCnt_extended]
      exact hcounts
  have htrade := hplaced.reshaped.trade
  rw [← refs_of_root hroot] at htrade
  have hstamp := htrade.stampLinks_spec hcons howner hc hfields.2.2 (· + 1) now
  refine (Runs.of_prog_eq (?_ : _ = stampLinks (· + 1) now d c body (fs.record c) fs₁) hstamp).mono
    fun ok fs₂ hstamped => ?_
  · simp only [stampLinks, hbody, Inode.extended]
  obtain ⟨hok, hstamped, -⟩ := hstamped
  have hrework := hstamped.rework
  have hold : ∀ b, b ∈ fs.owns d ↔ fs.Owner d ∧ b ∈ fs.owns d := fun b => (and_iff_right howner).symm
  refine ⟨hok, ⟨hrework.mounted, hrework.geo, hstamped.marks.trans htrade.frame.inodes,
    fun m hm hne => hrework.sameBody hcons hold hm hne, fun m hm => ?_, ?_⟩, ?_⟩
  · by_cases heq : m = d
    · subst heq
      have htree₁ : TreeOk static fs₁ body := hplaced.reshaped.tree.of_root hroot
      obtain ⟨htree₂, -⟩ := htree₁.of_data (fun b hb => (hstamped.used b).mpr (htree₁.used b hb)) fun b hb =>
        hstamped.data b (htree₁.notStatic b (isNode_mem_refs hb))
      exact htree₂.of_root hstamped.record.root_eq
    · exact (hrework.other hcons hold ((hrework.owner_iff heq).mp hm) heq).2.2.1.tree
  · rw [hstamped.record.type_eq, hfields.2.1]
  · rw [hstamped.record.sizeLo_eq, hfields.1]

theorem nameIn_empty (hsize : inode.sizeLo = 0) : nameIn inode name fs = .ok (none, fs) := by
  rw [nameIn, hsize]
  rfl

section Insert

variable (hdir : WellFormedDir static fs d) (hc : fs.geo.Real .inode c) {len : Nat} (hlen : len < 256)

include hdir hc hlen

theorem WellFormedDir.insertEntry_cases (hrefuses : ¬ fs.Refuses d len) (name : Buf) (now : UInt32) :
    Runs (insertEntry now d name len c (fs.record c)) fs fun ok fs' => ok = true ∧
      ((fs.Fits d len → Inserted static fs fs' d ⟨(List.range len).map name, c, entryType (fs.record c)⟩) ∧
        (¬ fs.Fits d len → Wrapped static fs fs' d)) := by
  by_cases hroom : fs.HasRoom (fs.record d) len
  · refine (insertEntry_room hdir.consistent hdir.owner hdir.dir hdir.type hc hlen hroom).mono fun ok fs' hdone => ?_
    exact ⟨hdone.1, fun _ => hdone.2, fun hnot => absurd (.inl hroom) hnot⟩
  have hfree : missingAt fs.entries (fs.record d) (fs.record d).dirBlocks ≤ fs.freeBlocks :=
    Nat.le_of_not_lt fun hlt => hrefuses ⟨hroom, hlt⟩
  by_cases hsize : (fs.record d).sizeLo.toNat < maxSize
  · refine (insertEntry_spec hdir.consistent hdir.owner hdir.dir hdir.type hsize hc name hlen now).with_run.mono
      fun ok fs' hdone => ?_
    obtain ⟨hrun, ⟨rfl, -⟩ | ⟨rfl, hinserted⟩⟩ := hdone
    · have hshort := (insertEntry_false hdir.consistent hdir.owner hdir.dir hdir.type hc hlen hrun).2
      exact absurd hfree (Nat.not_le_of_lt hshort)
    · exact ⟨rfl, fun _ => hinserted, fun hnot => absurd (.inr hsize) hnot⟩
  · have hmax : (fs.record d).sizeLo.toNat = maxSize := Nat.le_antisymm hdir.dir.sizeLo_le (Nat.le_of_not_lt hsize)
    rw [insertEntry]
    refine Runs.bind_eq (getInode_run hdir.consistent.mounted hdir.consistent.layout (FsInfo.real_of_marked hdir.mark)) ?_
    dsimp only
    rw [if_neg (not_not.mpr hdir.type)]
    refine (insertInBlocks_room hdir.consistent hdir.owner hdir.dir hc name hlen now).bind fun result fs' hresult => ?_
    obtain ⟨rfl, rfl, -⟩ | ⟨i, hi, p, hp, hroomAt, -⟩ := hresult
    · refine (growDir_wraps hdir.consistent hdir.owner hmax hc hlen now hfree hdir.dir).mono fun ok fs'' hdone => ?_
      exact ⟨hdone.1, fun hfits => absurd hfits (not_or.mpr ⟨hroom, hsize⟩), fun _ => hdone.2⟩
    · exact absurd ((hasRoom_iff hdir.dir len).mpr ⟨i, hi, p, hp, hroomAt⟩) hroom

theorem WellFormedDir.insertEntry_refused (hrefuses : fs.Refuses d len) {now : UInt32} :
    insertEntry now d name len c (fs.record c) fs ≠ .ok (true, fs') := by
  intro hrun
  obtain ⟨ok, fs₁, hfull, rfl, -⟩ :=
    insertEntry_full hdir.consistent hdir.owner hdir.dir hdir.type hc hlen hrefuses.1 hrefuses.2
  rw [hfull] at hrun
  cases hrun

end Insert

/-! ### Calls -/

section Calls

variable {m m' : Machine} {fs i : Slot} {parentN now : UInt32}

/-- The name is found with the inode that was inserted, and can be removed again: that leaves the entries from before. -/
structure FoundAgain (m m' : Machine) (fs i : Slot) (parentN d c : UInt32) (name : Buf) : Prop where
  found : nameIn ((m'.fsEntries i).record d) name (m'.fsEntries i) = .ok (some c, m'.fsEntries i)
  removed : ∀ now, Runs (dirRemove now fs parentN name) m' fun result m'' => result = some c ∧
    (m''.fsEntries i).dirEntries ((m''.fsEntries i).record d) = (m.fsEntries i).dirEntries ((m.fsEntries i).record d)

section Insert

variable (hdir : WellFormedDir static (m.fsEntries i) d) (hresolve : (m.mntRoot fs parentN).2 = (i, d))
  (hname : ¬ (nameLength name = 0 ∨ nameLen ≤ nameLength name))

include hdir hresolve hname

theorem dirInsert_eq_true (hc : (m.fsEntries fs).geo.Real .inode c)
    (hrun : dirInsert now fs parentN name c m = .ok (true, m')) : fs = i ∧ ∃ info,
      insertEntry now d name (nameLength name) c ((m.fsEntries i).record c) (m.fsEntries i) = .ok (true, info) ∧
        m' = m.withFs i info := by
  by_cases hfs : fs = i
  · subst hfs
    rw [dirInsert_run hdir.consistent hname hc hresolve] at hrun
    exact ⟨rfl, onFs_eq_ok hrun⟩
  · rw [dirInsert] at hrun
    dsimp only at hrun
    rw [if_neg hname] at hrun
    obtain ⟨found, mid, hget, hnext⟩ := run_bind_eq_ok hrun
    obtain ⟨rfl, -⟩ := onFs_getInode_eq_ok hget
    obtain _ | child := found
    · cases hnext
    dsimp only at hnext
    rw [run_bind_ok (returnMntRoot_run hresolve)] at hnext
    dsimp only at hnext
    rw [if_pos (Ne.symm hfs)] at hnext
    cases hnext

theorem FoundAgain.of_inserted (hseven : SevenBit name)
    (habsent : nameIn ((m.fsEntries i).record d) name (m.fsEntries i) = .ok (none, m.fsEntries i))
    (hc : (m.fsEntries i).geo.Real .inode c) {info : FsInfo} {type : UInt8}
    (hinserted : Inserted static (m.fsEntries i) info d ⟨nameOf name, c, type⟩) :
    FoundAgain m (m.withFs i info) fs i parentN d c name := by
  have hpos : ∀ x ∈ nameOf name, 0 < x := by
    intro x hx
    obtain ⟨k, hk, rfl⟩ := List.mem_map.mp hx
    exact UInt8.pos_iff_ne_zero.mpr (ne_zero_of_lt_scanName name (Nat.zero_le k) (List.mem_range.mp hk))
  have hdir' := hdir.inserted hinserted hpos
  refine ⟨?_, fun now => ?_⟩
  · rw [Machine.withFs_fsEntries_self]
    exact hdir.nameIn_inserted hseven habsent hinserted rfl hdir'
  · have hresolve' : ((m.withFs i info).mntRoot fs parentN).2 = (i, d) := by
      rwa [Machine.mntRoot_withFs hinserted.geo]
    rw [dirRemove]
    dsimp only
    rw [if_neg hname]
    refine Runs.bind_eq (returnMntRoot_run hresolve') ?_
    have hremove := hdir.removeEntry_inserted hseven habsent hinserted rfl hdir' (by rwa [hinserted.geo]) now
    rw [← Machine.withFs_fsEntries_self m i info] at hremove
    refine (onFs_runs hremove).mono fun result m'' hdone => ?_
    obtain ⟨last, rfl, hresult, hentries⟩ := hdone
    refine ⟨hresult, ?_⟩
    rw [Machine.withFs_fsEntries_self]
    exact hentries

theorem dirInsert_cases (hc : (m.fsEntries fs).geo.Real .inode c)
    (hrun : dirInsert now fs parentN name c m = .ok (true, m')) : fs = i ∧ ∃ info, m' = m.withFs i info ∧
      ((m.fsEntries i).Fits d (nameLength name) →
        Inserted static (m.fsEntries i) info d ⟨nameOf name, c, entryType ((m.fsEntries i).record c)⟩) ∧
      (¬ (m.fsEntries i).Fits d (nameLength name) → Wrapped static (m.fsEntries i) info d) := by
  have hlen : nameLength name < 256 := Nat.lt_of_not_le fun h => hname (.inr h)
  obtain ⟨rfl, info, hinsert, rfl⟩ := dirInsert_eq_true hdir hresolve hname hc hrun
  have hrefuses : ¬ (m.fsEntries fs).Refuses d (nameLength name) := fun hrefuses =>
    hdir.insertEntry_refused hc hlen hrefuses hinsert
  have hdone := (hdir.insertEntry_cases hc hlen hrefuses name now).of_run hinsert
  exact ⟨rfl, info, rfl, hdone.2⟩

theorem dirInsert_accepted (hc : (m.fsEntries i).geo.Real .inode c) (hfs : fs = i)
    (hrefuses : ¬ (m.fsEntries i).Refuses d (nameLength name)) :
    ∃ info, dirInsert now fs parentN name c m = .ok (true, m.withFs i info) ∧
      ((m.fsEntries i).Fits d (nameLength name) →
        Inserted static (m.fsEntries i) info d ⟨nameOf name, c, entryType ((m.fsEntries i).record c)⟩) ∧
      (¬ (m.fsEntries i).Fits d (nameLength name) → Wrapped static (m.fsEntries i) info d) := by
  subst hfs
  have hlen : nameLength name < 256 := Nat.lt_of_not_le fun h => hname (.inr h)
  obtain ⟨ok, info, hrun, rfl, hresult⟩ := hdir.insertEntry_cases hc hlen hrefuses name now
  refine ⟨info, ?_, hresult⟩
  rw [dirInsert_run hdir.consistent hname hc hresolve, onFs_run hrun]

theorem dirInsert_found_iff (habsent : nameIn ((m.fsEntries i).record d) name (m.fsEntries i) = .ok (none, m.fsEntries i))
    (hc : (m.fsEntries fs).marked .inode c = true) :
    (∀ m', dirInsert now fs parentN name c m = .ok (true, m') → FoundAgain m m' fs i parentN d c name) ↔
      (SevenBit name ∧ (m.fsEntries i).Fits d (nameLength name)) ∨ fs ≠ i ∨
        (m.fsEntries i).Refuses d (nameLength name) := by
  have hlen : nameLength name < 256 := Nat.lt_of_not_le fun h => hname (.inr h)
  have hreal := FsInfo.real_of_marked hc
  constructor
  · intro hall
    by_contra hnot
    obtain ⟨hbad, hrest⟩ := not_or.mp hnot
    obtain ⟨hfs, hrefuses⟩ := not_or.mp hrest
    obtain rfl := not_not.mp hfs
    obtain ⟨info, hcall, hfits, hwraps⟩ := dirInsert_accepted hdir hresolve hname hreal rfl hrefuses
    have hfound := (hall _ hcall).found
    rw [Machine.withFs_fsEntries_self] at hfound
    by_cases hfit : (m.fsEntries fs).Fits d (nameLength name)
    · have hinserted := hfits hfit
      have htree := (hinserted.consistent.inode d (FsInfo.owner_of_dir (by rw [hinserted.marks, hdir.mark])
        (hinserted.type.trans hdir.type))).tree
      rw [nameIn_eightBit hinserted.consistent.mounted htree hinserted.dir fun hseven => hbad ⟨hseven, hfit⟩] at hfound
      cases hfound
    · rw [nameIn_empty (hwraps hfit).size] at hfound
      cases hfound
  · intro hgood m' hrun
    obtain ⟨hseven, hfit⟩ | hfs | hrefuses := hgood
    · obtain ⟨rfl, info, rfl, hfits, -⟩ := dirInsert_cases hdir hresolve hname hreal hrun
      exact .of_inserted hdir hresolve hname hseven habsent hreal (hfits hfit)
    · exact absurd (dirInsert_eq_true hdir hresolve hname hreal hrun).1 hfs
    · obtain ⟨rfl, info, hinsert, -⟩ := dirInsert_eq_true hdir hresolve hname hreal hrun
      exact absurd hinsert (hdir.insertEntry_refused hreal hlen hrefuses)

end Insert

theorem WellFormedDir.allotted {info info' : FsInfo} {n : UInt32} (hdir : WellFormedDir static info d)
    (hallotted : Allotted static info info' n inode) :
    WellFormedDir static info' d ∧ info'.dirEntries (info'.record d) = info.dirEntries (info.record d) ∧
      ∀ len, info'.Fits d len ↔ info.Fits d len := by
  obtain ⟨hne, hsame, -, hdirOk, htype⟩ := hallotted.keeps_dir hdir.mark hdir.type hdir.dir
  have hchanged := hallotted.changed
  have hentries := hsame.dirEntries_eq hdir.owner
  refine ⟨⟨hchanged.consistent, (hchanged.marks d hne).trans hdir.mark, htype, hdirOk, ?_⟩, hentries, fun len => ?_⟩
  · rw [hentries]
    exact hdir.named
  · rw [FsInfo.Fits, FsInfo.Fits, hsame.hasRoom_iff hdir.owner, hsame.record.sizeLo_eq]

section Make

variable (hdir : WellFormedDir static (m.fsEntries i) d) (hresolve : (m.mntRoot fs parentN).2 = (i, d))

include hdir hresolve

theorem makeFile_cases (hroot : m.RootUnmounted) (hparent : parentN ≠ 0) {slot : Slot} {n : UInt32}
    (hrun : makeFile now fs parentN name m = .ok (some (slot, n), m')) :
    ¬ (nameLength name = 0 ∨ nameLen ≤ nameLength name) ∧
      nameIn ((m.fsEntries i).record d) name (m.fsEntries i) = .ok (none, m.fsEntries i) ∧ slot = i ∧
      ∃ info inode info', m' = m.withFs i info' ∧ Put static (m.fsEntries i) info n inode zero 0 false ∧
        ((m.fsEntries i).Fits d (nameLength name) →
          Inserted static info info' d ⟨nameOf name, n, entryType (info.record n)⟩) ∧
        (¬ (m.fsEntries i).Fits d (nameLength name) → Wrapped static info info' d) := by
  rw [makeFile] at hrun
  obtain ⟨found, mid, hchecks, hnext⟩ := run_bind_eq_ok hrun
  obtain ⟨hsame, hfound⟩ := makeIn_eq_ok hchecks
  rw [hsame] at hchecks hnext
  obtain _ | ⟨i', d'⟩ := found
  · cases hnext
  obtain ⟨rfl, rfl⟩ : i' = i ∧ d' = d := Prod.mk.inj ((hfound _ rfl).trans hresolve)
  obtain ⟨hname, habsent⟩ := makeIn_some hresolve hdir.consistent hdir.mark hdir.type hchecks
  dsimp only at hnext
  obtain ⟨put, mid₁, hputRun, hrest⟩ := run_bind_eq_ok hnext
  obtain ⟨info, halloc, rfl⟩ := onFs_eq_ok hputRun
  obtain ⟨rfl, -⟩ | ⟨n', inode, rfl, hput⟩ := (putInode_spec hdir.consistent (by decide) now _ false).of_run halloc
  · cases hrest
  dsimp only at hrest
  obtain ⟨ok, mid₂, hinsertRun, hlast⟩ := run_bind_eq_ok hrest
  cases ok with
  | false =>
    obtain ⟨_, _, -, hend⟩ := run_bind_eq_ok hlast
    cases hend
  | true =>
    cases hlast
    obtain ⟨hdir₁, -, hfit₁⟩ := hdir.allotted hput.allotted
    have hself := Machine.withFs_fsEntries_self m slot info
    have hresolve₁ : ((m.withFs slot info).mntRoot slot d').2 = (slot, d') := by
      rw [Machine.mntRoot_withFs hput.allotted.changed.geo]
      exact hroot.mntRoot_again hparent hresolve
    have hdir₁ : WellFormedDir static ((m.withFs slot info).fsEntries slot) d' := by rwa [hself]
    obtain ⟨-, info', hm', hresult⟩ := dirInsert_cases hdir₁ hresolve₁ hname
      (by rw [hself]; exact FsInfo.real_of_marked hput.allotted.mark) hinsertRun
    rw [hself, hfit₁] at hresult
    rw [Machine.withFs_withFs] at hm'
    exact ⟨hname, habsent, rfl, info, inode, info', hm', hput, hresult⟩

end Make

def FsInfo.DistinctNames (fs : FsInfo) (d : UInt32) : Prop := ((fs.dirEntries (fs.record d)).map DirEntry.name).Nodup

/-- An inserted name is found again and can be removed, exactly when it has characters of seven bits and the directory
does not grow past the largest size. A file that is made so has its name alone. -/
theorem inserted_names_found (hdir : WellFormedDir static (m.fsEntries i) d)
    (hresolve : (m.mntRoot fs parentN).2 = (i, d)) (hname : ¬ (nameLength name = 0 ∨ nameLen ≤ nameLength name))
    (c now : UInt32) :
    (nameIn ((m.fsEntries i).record d) name (m.fsEntries i) = .ok (none, m.fsEntries i) →
      (m.fsEntries fs).marked .inode c = true →
        ((∀ m', dirInsert now fs parentN name c m = .ok (true, m') → FoundAgain m m' fs i parentN d c name) ↔
          (SevenBit name ∧ (m.fsEntries i).Fits d (nameLength name)) ∨ fs ≠ i ∨
            (m.fsEntries i).Refuses d (nameLength name))) ∧
    (m.RootUnmounted → parentN ≠ 0 → SevenBit name → (m.fsEntries i).Fits d (nameLength name) →
      (m.fsEntries i).DistinctNames d → ∀ made m', makeFile now fs parentN name m = .ok (some made, m') →
        (m'.fsEntries i).DistinctNames d) := by
  constructor
  · intro habsent hc
    exact dirInsert_found_iff hdir hresolve hname habsent hc
  · rintro hroot hparent hseven hfit hdistinct ⟨slot, n⟩ m' hrun
    obtain ⟨-, habsent, rfl, info, inode, info', rfl, hput, hfits, -⟩ :=
      makeFile_cases hdir hresolve hroot hparent hrun
    have hperm := (hfits hfit).entries.perm
    rw [(hdir.allotted hput.allotted).2.1] at hperm
    rw [Machine.withFs_fsEntries_self, FsInfo.DistinctNames, (hperm.map DirEntry.name).nodup_iff, List.map_cons,
      List.nodup_cons]
    refine ⟨fun hmem => ?_, hdistinct⟩
    obtain ⟨e, he, heq⟩ := List.mem_map.mp hmem
    exact hdir.not_named hseven habsent e he heq

end Calls

theorem smallFs_wellFormedDir : WellFormedDir smallStatic smallFs 2 where
  consistent := smallFs_consistent
  mark := by decide
  type := by
    rw [smallFs_record.2.1]
    rfl
  dir := by
    rw [smallFs_record.2.1]
    exact smallFs_dirOk
  named e he c hc := ((smallFs_goodDir.names e he).2.2 c hc).1

theorem smallFs_absent {name : Buf} (hnone : (nameIn smallRoot name smallFs).toOption.map Prod.fst = some none) :
    nameIn (smallFs.record 2) name smallFs = .ok (none, smallFs) := by
  obtain ⟨⟨found, fs'⟩, hrun, rfl⟩ := eq_ok_of_toOption hnone
  rw [smallFs_record.2.1, hrun, nameIn_read hrun]

/-- The name that is the character 128 is stored and not found, and two files can have it. -/
theorem eightBit_name_lost : WellFormedDir smallStatic smallFs 2 ∧
    nameIn (smallFs.record 2) (cstr [128]) smallFs = .ok (none, smallFs) ∧ smallFs.marked .inode 3 = true ∧
    (∃ m', dirInsert 0 0 2 (cstr [128]) 3 smallMachine = .ok (true, m') ∧
      (∃ fs', nameIn ((m'.fsEntries 0).record 2) (cstr [128]) (m'.fsEntries 0) = .ok (none, fs')) ∧
      ∃ m'', dirRemove 0 0 2 (cstr [128]) m' = .ok (none, m'')) ∧
    ∃ first m₁ second m₂, makeFile 0 0 2 (cstr [128]) smallMachine = .ok (some first, m₁) ∧
      makeFile 0 0 2 (cstr [128]) m₁ = .ok (some second, m₂) ∧ ¬ (m₂.fsEntries 0).DistinctNames 2 := by
  have hinsert : (dirInsert 0 0 2 (cstr [128]) 3 smallMachine).toOption.map (fun done => (done.1,
      (nameIn ((done.2.fsEntries 0).record 2) (cstr [128]) (done.2.fsEntries 0)).toOption.map Prod.fst,
      (dirRemove 0 0 2 (cstr [128]) done.2).toOption.map Prod.fst)) = some (true, some none, some none) := by
    decide +kernel
  have hmake : (makeFile 0 0 2 (cstr [128]) smallMachine).toOption.map (fun done => (done.1.isSome,
      (makeFile 0 0 2 (cstr [128]) done.2).toOption.map (fun last => (last.1.isSome,
        ((last.2.fsEntries 0).dirEntries ((last.2.fsEntries 0).record 2)).map DirEntry.name)))) =
      some (true, some (true, [dot, dotDot, [102], [128], [128]])) := by
    decide +kernel
  refine ⟨smallFs_wellFormedDir, smallFs_absent (by decide +kernel), by decide +kernel, ?_, ?_⟩
  · obtain ⟨⟨ok, m'⟩, hrun, hrest⟩ := eq_ok_of_toOption hinsert
    obtain ⟨rfl, hlater⟩ := Prod.mk.inj hrest
    obtain ⟨hfound, hremoved⟩ := Prod.mk.inj hlater
    obtain ⟨⟨found, fs'⟩, hfind, rfl⟩ := eq_ok_of_toOption hfound
    obtain ⟨⟨removed, m''⟩, hremove, rfl⟩ := eq_ok_of_toOption hremoved
    exact ⟨m', hrun, ⟨fs', hfind⟩, m'', hremove⟩
  · obtain ⟨⟨made, m₁⟩, hrun, hrest⟩ := eq_ok_of_toOption hmake
    obtain ⟨hfirst, hsecond⟩ := Prod.mk.inj hrest
    obtain ⟨first, rfl⟩ := Option.isSome_iff_exists.mp hfirst
    obtain ⟨⟨again, m₂⟩, hrun₂, hlast⟩ := eq_ok_of_toOption hsecond
    obtain ⟨hagain, hnames⟩ := Prod.mk.inj hlast
    obtain ⟨second, rfl⟩ := Option.isSome_iff_exists.mp hagain
    refine ⟨first, m₁, second, m₂, hrun, hrun₂, ?_⟩
    rw [FsInfo.DistinctNames, hnames]
    decide

theorem inserted_names_found_smallMachine :
    (∃ m', dirInsert 0 0 2 (cstr [97]) 3 smallMachine = .ok (true, m') ∧
      FoundAgain smallMachine m' 0 0 2 2 3 (cstr [97])) ∧
    ∃ made m', makeFile 0 0 2 (cstr [97]) smallMachine = .ok (some made, m') ∧ (m'.fsEntries 0).DistinctNames 2 := by
  have hinsert : (dirInsert 0 0 2 (cstr [97]) 3 smallMachine).toOption.map Prod.fst = some true := by decide +kernel
  have hmake : (makeFile 0 0 2 (cstr [97]) smallMachine).toOption.map (fun done => done.1.isSome) = some true := by
    decide +kernel
  have hseven : SevenBit (cstr [97]) := by decide
  have hfit : smallFs.Fits 2 (nameLength (cstr [97])) := by
    right
    rw [smallFs_record.2.1]
    decide
  have hdistinct : smallFs.DistinctNames 2 := by
    rw [FsInfo.DistinctNames, smallFs_record.2.1, smallFs_dirEntries]
    decide
  have hdir : WellFormedDir smallStatic (smallMachine.fsEntries 0) 2 := smallFs_wellFormedDir
  have hresolve : (smallMachine.mntRoot 0 2).2 = (0, 2) := by decide
  have hname : ¬ (nameLength (cstr [97]) = 0 ∨ nameLen ≤ nameLength (cstr [97])) := by decide
  obtain ⟨hfound, halone⟩ := inserted_names_found hdir hresolve hname 3 0
  constructor
  · obtain ⟨⟨ok, m'⟩, hrun, rfl⟩ := eq_ok_of_toOption hinsert
    exact ⟨m', hrun, (hfound (smallFs_absent (by decide +kernel)) (by decide +kernel)).mpr (.inl ⟨hseven, hfit⟩) m' hrun⟩
  · obtain ⟨⟨made, m'⟩, hrun, hsome⟩ := eq_ok_of_toOption hmake
    obtain ⟨made, rfl⟩ := Option.isSome_iff_exists.mp hsome
    exact ⟨made, m', hrun, halone rfl (by decide) hseven hfit hdistinct made m' hrun⟩

end DeprecatOS
