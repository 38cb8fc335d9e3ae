import DeprecatOS.Proof.LookupPath
import DeprecatOS.Proof.StoredNames

/-!
# The name space after an entry was made

A new inode that is no directory, and an entry for it in one directory: the filesystem is as well formed as before, and
its name space has one name more. A walk over a path meets the name unless it has a slash in it: then the name is never
a component of a path.
-/

namespace DeprecatOS

open Bytes Bits Fault PointerTree NameSpace

variable {static : UInt32 → Prop} {fs fs' : FsInfo} {d n k : UInt32} {name : Name}

/-! ### Links that did not change -/

theorem Inode.load32_store_root (inode : Inode) (buf : Buf) (off : Nat) {r : Nat} (hr : r < 15) :
    load32 (inode.store buf off) (off + 40 + 4 * r) = inode.root r := by
  have hload := load_store_self inode buf off
  rw [Inode.root]
  split_ifs with hdirect hsingly hdoubly htriply
  · exact congrFun (congrArg Inode.dirBlockPtr hload) ⟨r, hdirect⟩
  · have hptr := congrArg Inode.singlyIndirBlockPtr hload
    rw [hsingly]
    exact hptr
  · have hptr := congrArg Inode.doublyIndirBlockPtr hload
    rw [hdoubly]
    exact hptr
  · have hptr := congrArg Inode.triplyIndirBlockPtr hload
    rw [htriply]
    exact hptr
  · omega

theorem Inode.store_byte_eq (inode : Inode) (buf buf' : Buf) {k : Nat} (hk : k < 60)
    (hroot : ∀ r < 15, inode.root r = load32 buf' (40 + 4 * r)) : inode.store buf 0 (40 + k) = buf' (40 + k) := by
  have hword : load32 (inode.store buf 0) (40 + 4 * (k / 4)) = load32 buf' (40 + 4 * (k / 4)) := by
    rw [← hroot (k / 4) (by omega), ← inode.load32_store_root buf 0 (show k / 4 < 15 by omega), Nat.zero_add]
  have hbyte := byte_eq_of_load32 hword (show k % 4 < 4 by omega)
  rwa [show 40 + 4 * (k / 4) + k % 4 = 40 + k by omega] at hbyte

theorem Inode.Relinked.diskSectors_eq {inode inode' : Inode} (hrelinked : inode.Relinked inode') :
    inode'.diskSectors = inode.diskSectors := by
  obtain ⟨_, _, rfl⟩ := hrelinked
  rfl

theorem SameBody.target_eq (hsame : SameBody fs fs' k) (hmark : fs.marked .inode k = true) (hlink : LinkOk fs (fs.record k)) :
    fs'.target (fs'.record k) = fs.target (fs.record k) := by
  rw [FsInfo.target, FsInfo.target, hsame.record.sizeLo_eq, hsame.record.diskSectors_eq]
  apply List.map_congr_left
  intro j hj
  have hj := List.mem_range.mp hj
  by_cases hinline : (fs.record k).diskSectors = 0
  · rw [if_pos hinline, if_pos hinline]
    have hshort := hlink.short hinline
    rw [maxSymlinkLen] at hshort
    refine Inode.store_byte_eq _ _ _ (by omega) fun r hr => ?_
    rw [hsame.record.root_eq, ← (fs.record k).load32_store_root zero 0 hr, Nat.zero_add]
  · rw [if_neg hinline, if_neg hinline]
    exact hsame.bytes ⟨hmark, fun h => hinline h.2⟩ j hj

theorem SameBody.linkOk (hsame : SameBody fs fs' k) (hmark : fs.marked .inode k = true) (hlink : LinkOk fs (fs.record k)) :
    LinkOk fs' (fs'.record k) := by
  have hsectors := hsame.record.diskSectors_eq
  refine ⟨?_, fun hinline => ?_, fun hblock => ?_, ?_⟩
  · rw [hsame.record.sizeLo_eq]
    exact hlink.pos
  · rw [hsame.record.sizeLo_eq]
    exact hlink.short (hsectors ▸ hinline)
  · rw [hsectors] at hblock
    obtain ⟨hsize, hmapped⟩ := hlink.block hblock
    rw [hsame.record.sizeLo_eq]
    exact ⟨hsize, mt (hsame.holes ⟨hmark, fun h => hblock h.2⟩ 0 (by decide)).mp hmapped⟩
  · rw [hsame.target_eq hmark hlink]
    exact hlink.text

/-! ### One filesystem -/

/-- There is a new inode `n`, which is no directory, and directory `d` has no new entries but those by this name for it.
Of the other inodes at most the link counts and the times changed. -/
structure Gained (static : UInt32 → Prop) (fs fs' : FsInfo) (d n : UInt32) (name : Name) : Prop where
  mounted : Mounted static fs'
  tree : ∀ k, fs'.Owner k → TreeOk static fs' (fs'.record k)
  geo : fs'.geo = fs.geo
  fresh : fs.marked .inode n = false
  marks : ∀ k, fs'.marked .inode k = true ↔ fs.marked .inode k = true ∨ k = n
  others : ∀ k, fs.marked .inode k = true → k ≠ d → SameBody fs fs' k
  isDir : fs.IsDir d
  type : (fs'.record d).type = (fs.record d).type
  dir : DirOk fs' (fs'.record d)
  entries : ∀ e ∈ fs'.dirEntries (fs'.record d),
    (e.name = name ∧ e.inode = n) ∨ e ∈ fs.dirEntries (fs.record d)
  leaf : (fs'.record n).type ≠ inodeDirType
  link : (fs'.record n).type = inodeSymlinkType → LinkOk fs' (fs'.record n)

namespace Gained

variable (hgained : Gained static fs fs' d n name)

include hgained

theorem type_eq (hmark : fs.marked .inode k = true) : (fs'.record k).type = (fs.record k).type := by
  by_cases hk : k = d
  · rw [hk]
    exact hgained.type
  · exact (hgained.others k hmark hk).record.type_eq

theorem isDir_iff : fs'.IsDir k ↔ fs.IsDir k := by
  constructor
  · rintro ⟨hmark, htype⟩
    obtain hold | rfl := (hgained.marks k).mp hmark
    · exact ⟨hold, (hgained.type_eq hold).symm.trans htype⟩
    · exact absurd htype hgained.leaf
  · rintro ⟨hmark, htype⟩
    exact ⟨(hgained.marks k).mpr (.inl hmark), (hgained.type_eq hmark).trans htype⟩

theorem sameDir (hdir : fs.IsDir k) (hk : k ≠ d) (hok : DirOk fs (fs.record k)) :
    DirOk fs' (fs'.record k) ∧ fs'.dirEntries (fs'.record k) = fs.dirEntries (fs.record k) :=
  (hgained.others k hdir.1 hk).dir (FsInfo.owner_of_dir hdir.1 hdir.2) hok

theorem ne_of_link (htype : (fs.record k).type = inodeSymlinkType) : k ≠ d := by
  rintro rfl
  rw [hgained.isDir.2] at htype
  exact absurd htype (by decide)

theorem readable (hread : ReadableFs static fs) (hname : ∀ c ∈ name, 0 < c) : ReadableFs static fs' where
  mounted := hgained.mounted
  layout := hread.layout.of_geo hgained.geo
  tree := hgained.tree
  root := hgained.isDir_iff.mpr hread.root
  dir k hk := by
    have hold := hgained.isDir_iff.mp hk
    by_cases heq : k = d
    · rw [heq]
      exact hgained.dir
    · exact (hgained.sameDir hold heq (hread.dir k hold)).1
  named k hk e he := by
    have hold := hgained.isDir_iff.mp hk
    by_cases heq : k = d
    · subst heq
      obtain ⟨hnew, -⟩ | he := hgained.entries e he
      · rwa [hnew]
      · exact hread.named k hold e he
    · rw [(hgained.sameDir hold heq (hread.dir k hold)).2] at he
      exact hread.named k hold e he
  entry k hk e he := by
    have hold := hgained.isDir_iff.mp hk
    rw [hgained.marks]
    by_cases heq : k = d
    · subst heq
      obtain ⟨-, hnew⟩ | he := hgained.entries e he
      · exact .inr hnew
      · exact .inl (hread.entry k hold e he)
    · rw [(hgained.sameDir hold heq (hread.dir k hold)).2] at he
      exact .inl (hread.entry k hold e he)
  link k hmark htype := by
    obtain hold | rfl := (hgained.marks k).mp hmark
    · have htype' : (fs.record k).type = inodeSymlinkType := (hgained.type_eq hold).symm.trans htype
      exact (hgained.others k hold (hgained.ne_of_link htype')).linkOk hold (hread.link k hold htype')
    · exact hgained.link htype

theorem space_link (hread : ReadableFs static fs) (hmark : fs.marked .inode k = true) :
    fs'.space.link k = fs.space.link k := by
  simp only [FsInfo.space, hgained.type_eq hmark]
  split_ifs with htype
  · rw [(hgained.others k hmark (hgained.ne_of_link htype)).target_eq hmark (hread.link k hmark htype)]
  · rfl

theorem space_child (hread : ReadableFs static fs) (hmark : fs.marked .inode k = true) (hk : k ≠ d) (c : Name) :
    fs'.space.child k c = fs.space.child k c := by
  simp only [FsInfo.space, hgained.type_eq hmark]
  split_ifs with hbad
  · rfl
  rw [not_or, not_not] at hbad
  rw [FsInfo.child, FsInfo.child, (hgained.sameDir ⟨hmark, hbad.2⟩ hk (hread.dir k ⟨hmark, hbad.2⟩)).2]

theorem space_child_self (habsent : ∀ e ∈ fs.dirEntries (fs.record d), e.name ≠ name) {e : DirEntry}
    (hinserts : Inserts (fs.dirEntries (fs.record d)) (fs'.dirEntries (fs'.record d)) e) (hname : e.name = name)
    (c : Name) : fs'.space.child d c =
      if c = name ∧ c.length < nameLen then some e.inode else fs.space.child d c := by
  simp only [FsInfo.space, hgained.type]
  by_cases hlong : nameLen ≤ c.length
  · have hnot : ¬ (c = name ∧ c.length < nameLen) := fun h => Nat.not_le_of_lt h.2 hlong
    rw [if_neg hnot, if_pos (.inl hlong), if_pos (.inl hlong)]
  have hbad : ¬ (nameLen ≤ c.length ∨ (fs.record d).type ≠ inodeDirType) := by
    rw [not_or, not_not]
    exact ⟨hlong, hgained.isDir.2⟩
  obtain ⟨before, after, hfirst, hsecond⟩ := hinserts
  rw [if_neg hbad, if_neg hbad, FsInfo.child, FsInfo.child, hsecond, findEntry, List.find?_append]
  split_ifs with hc
  · have hnone : before.find? (fun e' => e'.name = c) = none := by
      rw [List.find?_eq_none]
      intro e' he'
      have hne := habsent e' (by rw [hfirst]; exact List.mem_append_left _ he')
      simpa [hc.1] using hne
    rw [hnone, Option.none_or, List.find?_cons_of_pos (by simp [hname, hc.1])]
    rfl
  · have hne : ¬ e.name = c := fun heq => hc ⟨heq.symm.trans hname, Nat.lt_of_not_le hlong⟩
    rw [List.find?_cons_of_neg (by simpa using hne), hfirst, findEntry, List.find?_append]

end Gained

theorem Allotted.gained {mid : FsInfo} {inode : Inode} (hallotted : Allotted static fs mid n inode) (hisDir : fs.IsDir d)
    (hchanged : DirChanged static mid fs' d) (hdir : DirOk fs' (fs'.record d))
    (hentries : ∀ e ∈ fs'.dirEntries (fs'.record d), (e.name = name ∧ e.inode = n) ∨ e ∈ fs.dirEntries (fs.record d))
    (hleaf : inode.type ≠ inodeDirType) (hlink : inode.type = inodeSymlinkType → LinkOk mid inode) :
    Gained static fs fs' d n name := by
  have hne : ∀ k, fs.marked .inode k = true → k ≠ n := by
    rintro k hmark rfl
    rw [hallotted.free] at hmark
    cases hmark
  have hfirst := hallotted.changed
  have hnew := hchanged.others n (FsInfo.real_of_marked hallotted.mark) (hne d hisDir.1).symm
  refine ⟨hchanged.mounted, hchanged.tree, hchanged.geo.trans hfirst.geo, hallotted.free, fun k => ?_,
    fun k hmark hk => ?_, hisDir, ?_, hdir, hentries, ?_, fun htype => ?_⟩
  · rw [hchanged.marks]
    by_cases hk : k = n
    · rw [hk]
      exact iff_of_true hallotted.mark (.inr rfl)
    · rw [hfirst.marks k hk, or_iff_left hk]
  · have hreal := FsInfo.real_of_marked hmark
    have hsame := hfirst.others k hreal (hne k hmark)
    refine hsame.sameBody.trans (hchanged.others k (by rwa [hfirst.geo]) hk) fun howner => ⟨?_, ?_⟩
    · rw [hfirst.marks k (hne k hmark)]
      exact hmark
    · rw [hsame.record]
      exact howner.2
  · rw [hchanged.type, (hfirst.others d (FsInfo.real_of_marked hisDir.1) (hne d hisDir.1)).record]
  · rw [hnew.record.type_eq, hallotted.record]
    exact hleaf
  · rw [hnew.record.type_eq, hallotted.record] at htype
    exact hnew.linkOk hallotted.mark (by rw [hallotted.record]; exact hlink htype)

theorem Wrapped.empty (hwrapped : Wrapped static fs fs' d) :
    DirOk fs' (fs'.record d) ∧ fs'.dirEntries (fs'.record d) = [] := by
  have hblocks : (fs'.record d).dirBlocks = 0 := by
    rw [Inode.dirBlocks, hwrapped.size]
    rfl
  refine ⟨⟨?_, fun i hi => ?_, fun i hi => ?_⟩, ?_⟩
  · rw [hwrapped.size]
    exact dvd_zero _
  · rw [hblocks] at hi
    cases hi
  · rw [hblocks] at hi
    cases hi
  · rw [FsInfo.dirEntries_eq, hblocks, FsInfo.entriesFrom_zero]

/-! ### All filesystems -/

section Machine

variable {static : Slot → UInt32 → Prop} {m m' : Machine} {i : Slot} {info : FsInfo} {place next : Place}

theorem Machine.withFs_visible_child (hgeo : info.geo = (m.fsEntries i).geo) (place : Place) (c : Name) :
    (m.withFs i info).visible.child place c =
      if c.all (· < 128) then
        (((m.withFs i info).fsEntries (m.mntRoot place.1 place.2).2.1).space.child (m.mntRoot place.1 place.2).2.2 c).map
          fun n => (m.mntMountpoint (m.mntRoot place.1 place.2).2.1 n).2
      else none := by
  simp only [visible, space, mntRoot_withFs hgeo, mntMountpoint_withFs hgeo]

section Gained

variable (hread : m.Readable static) (hlive : m.Live i) (hgained : Gained (static i) (m.fsEntries i) info d n name)

include hread hlive hgained

theorem Gained.machine_readable (hname : ∀ c ∈ name, 0 < c) : (m.withFs i info).Readable static where
  fs j hj := by
    have hlive' : m.Live j := by
      rw [Machine.Live, Machine.mountpoint_withFs hgained.geo] at hj
      exact hj
    by_cases heq : j = i
    · subst heq
      rw [Machine.withFs_fsEntries_self]
      exact hgained.readable (hread.fs j hlive) hname
    · rw [Machine.withFs_fsEntries_of_ne _ heq]
      exact hread.fs j hlive'
  root := by
    rw [Machine.mountpoint_withFs hgained.geo]
    exact hread.root
  mountpoint j hj := by
    rw [Machine.mountpoint_withFs hgained.geo] at hj ⊢
    have hdir := hread.mountpoint j hj
    change ((m.withFs i info).fsEntries m.rootFs).IsDir _
    by_cases heq : m.rootFs = i
    · rw [heq] at hdir ⊢
      rw [Machine.withFs_fsEntries_self]
      exact hgained.isDir_iff.mpr hdir
    · rwa [Machine.withFs_fsEntries_of_ne _ heq]

omit hlive in
theorem Gained.visible_child (hvalid : m.Valid place) (hne : (m.mntRoot place.1 place.2).2 ≠ (i, d)) (c : Name) :
    (m.withFs i info).visible.child place c = m.visible.child place c := by
  have hdir := hread.valid_mntRoot hvalid
  have hsame : ((m.withFs i info).fsEntries (m.mntRoot place.1 place.2).2.1).space.child (m.mntRoot place.1 place.2).2.2 c =
      (m.fsEntries (m.mntRoot place.1 place.2).2.1).space.child (m.mntRoot place.1 place.2).2.2 c := by
    by_cases heq : (m.mntRoot place.1 place.2).2.1 = i
    · have hother : (m.mntRoot place.1 place.2).2.2 ≠ d := fun h => hne (Prod.ext heq h)
      obtain ⟨hat, hmark⟩ := hdir
      rw [heq] at hat hmark ⊢
      rw [Machine.withFs_fsEntries_self]
      exact hgained.space_child (hread.fs i hat) hmark hother c
    · rw [Machine.withFs_fsEntries_of_ne _ heq]
  rw [Machine.withFs_visible_child hgained.geo, hsame]
  rfl

omit hlive in
theorem Gained.visible_link (hvalid : m.Valid place) : (m.withFs i info).visible.link place = m.visible.link place := by
  change ((m.withFs i info).fsEntries place.1).space.link place.2 = (m.fsEntries place.1).space.link place.2
  by_cases heq : place.1 = i
  · obtain ⟨hat, hmark⟩ := hvalid
    rw [heq] at hat hmark ⊢
    rw [Machine.withFs_fsEntries_self]
    exact hgained.space_link (hread.fs i hat) hmark
  · rw [Machine.withFs_fsEntries_of_ne _ heq]

theorem Gained.adds (hname : NameOk name) (habsent : ∀ e ∈ (m.fsEntries i).dirEntries ((m.fsEntries i).record d), e.name ≠ name)
    {e : DirEntry} (hinserts : Inserts ((m.fsEntries i).dirEntries ((m.fsEntries i).record d))
      (info.dirEntries (info.record d)) e) (hentry : e.name = name ∧ e.inode = n) :
    m.visible.Adds (m.withFs i info).visible m.Valid
      (fun place => m.Valid place ∧ (m.mntRoot place.1 place.2).2 = (i, d)) name (i, n) := by
  have hseven : name.all (· < 128) = true := List.all_eq_true.mpr fun c hc => decide_eq_true (hname.2.2 c hc).2
  have hself := hgained.space_child_self habsent hinserts hentry.1
  have hat : ∀ place c, (m.mntRoot place.1 place.2).2 = (i, d) → (m.withFs i info).visible.child place c =
      if c.all (· < 128) then (info.space.child d c).map fun n => (m.mntMountpoint i n).2 else none := by
    intro place c heq
    rw [Machine.withFs_visible_child hgained.geo, heq, Machine.withFs_fsEntries_self]
  refine ⟨rfl, fun place c hvalid hold => ?_, fun place hplace => ?_, fun place hplace => ?_, fun place hvalid =>
    hgained.visible_link hread hvalid, hread.valid_root, fun place c next => hread.valid_child⟩
  · by_cases heq : (m.mntRoot place.1 place.2).2 = (i, d)
    · have hc : ¬ (c = name ∧ c.length < nameLen) := fun h => hold ⟨⟨hvalid, heq⟩, h.1⟩
      rw [hat place c heq, hself, if_neg hc]
      simp only [Machine.visible, Machine.space, heq]
    · exact hgained.visible_child hread hvalid heq c
  · have hroot : n ≠ rootInodeN := by
      rintro rfl
      have hfresh := hgained.fresh
      rw [(hread.fs i hlive).root.1] at hfresh
      cases hfresh
    rw [hat place name hplace.2, if_pos hseven, hself, if_pos ⟨rfl, hname.2.1⟩, hentry.2, Option.map_some,
      Machine.mntMountpoint, if_pos (.inr hroot)]
  · simp only [Machine.visible, Machine.space, hplace.2]
    rw [if_pos hseven, Option.map_eq_none_iff]
    simp only [FsInfo.space]
    split_ifs
    · rfl
    · rw [FsInfo.child, findEntry_eq_none_iff.mpr habsent]
      rfl

theorem Gained.visible_valid (honly : ∀ e ∈ info.dirEntries (info.record d), slash ∉ e.name →
      e ∈ (m.fsEntries i).dirEntries ((m.fsEntries i).record d)) {c : Name} (hvalid : m.Valid place) (hsep : slash ∉ c)
    (hchild : (m.withFs i info).visible.child place c = some next) : m.Valid next := by
  by_cases heq : (m.mntRoot place.1 place.2).2 = (i, d)
  · rw [Machine.withFs_visible_child hgained.geo, heq, Machine.withFs_fsEntries_self] at hchild
    split_ifs at hchild
    obtain ⟨k, hk, rfl⟩ := Option.map_eq_some_iff.mp hchild
    simp only [FsInfo.space] at hk
    split_ifs at hk
    obtain ⟨e, he, rfl⟩ := Option.map_eq_some_iff.mp hk
    obtain ⟨hmem, rfl⟩ := findEntry_some he
    have hmark := (hread.fs i hlive).entry d hgained.isDir e (honly e hmem hsep)
    have hplace : m.Valid (i, e.inode) := ⟨hlive, hmark⟩
    exact hread.valid_mntMountpoint hplace
  · rw [hgained.visible_child hread hvalid heq] at hchild
    exact hread.valid_child hvalid hchild

end Gained

/-! ### Making a file -/

/-- What a call of `make_file` that succeeds leaves: a new inode that is a file, and an entry for it; or the directory
has no entries any more. -/
theorem makeFile_gained (hread : m.Readable static) (hcons : Consistent (static i) (m.fsEntries i)) (hvalid : m.Valid place)
    (hresolve : (m.mntRoot place.1 place.2).2 = (i, d)) (hisDir : (m.fsEntries i).IsDir d) (hlive : m.Live i) {file : Buf}
    (hseven : SevenBit file) {now : UInt32} {made : Slot × UInt32}
    (hrun : makeFile now place.1 place.2 file m = .ok (some made, m')) :
    ∃ n info, made = (i, n) ∧ m' = m.withFs i info ∧ NameOk (nameOf file) ∧
      (∀ e ∈ (m.fsEntries i).dirEntries ((m.fsEntries i).record d), e.name ≠ nameOf file) ∧
      Gained (static i) (m.fsEntries i) info d n (nameOf file) ∧ (info.record n).type = inodeFileType ∧
      ((m.fsEntries i).Fits d (nameLength file) →
        ∃ type, Inserts ((m.fsEntries i).dirEntries ((m.fsEntries i).record d)) (info.dirEntries (info.record d))
          ⟨nameOf file, n, type⟩) ∧
      (¬ (m.fsEntries i).Fits d (nameLength file) → info.dirEntries (info.record d) = []) := by
  have hfs := hread.fs i hlive
  have hdir : WellFormedDir (static i) (m.fsEntries i) d :=
    ⟨hcons, hisDir.1, hisDir.2, hfs.dir d hisDir, hfs.named d hisDir⟩
  have hparent : place.2 ≠ 0 := (UInt32.ne_of_lt (FsInfo.real_of_marked hvalid.2).1).symm
  obtain ⟨slot, n⟩ := made
  obtain ⟨hname, habsent, rfl, mid, inode, info, rfl, hput, hfits, hwraps⟩ :=
    makeFile_cases hdir hresolve hread.root hparent hrun
  rw [not_or, Nat.not_le] at hname
  have hok : NameOk (nameOf file) := by
    rw [NameOk, length_nameOf]
    refine ⟨Nat.pos_of_ne_zero hname.1, hname.2, fun c hc => ⟨?_, hseven c hc⟩⟩
    obtain ⟨k, hk, rfl⟩ := List.mem_map.mp hc
    exact UInt8.pos_iff_ne_zero.mpr (ne_zero_of_lt_scanName file (Nat.zero_le k) (List.mem_range.mp hk))
  have hmid := (hdir.allotted hput.allotted).2.1
  have hfile : inode.type = inodeFileType := hput.type
  have hchanged : DirChanged (static slot) mid info d := by
    by_cases hfit : (m.fsEntries slot).Fits d (nameLength file)
    · exact (hfits hfit).dirChanged
    · exact (hwraps hfit).toDirChanged
  have hdirs : DirOk info (info.record d) ∧ ∀ e ∈ info.dirEntries (info.record d),
      (e.name = nameOf file ∧ e.inode = n) ∨ e ∈ (m.fsEntries slot).dirEntries ((m.fsEntries slot).record d) := by
    by_cases hfit : (m.fsEntries slot).Fits d (nameLength file)
    · refine ⟨(hfits hfit).dir, fun e he => ?_⟩
      obtain rfl | hold := List.mem_cons.mp ((hfits hfit).entries.perm.mem_iff.mp he)
      · exact .inl ⟨rfl, rfl⟩
      · rw [hmid] at hold
        exact .inr hold
    · obtain ⟨hok, hnil⟩ := (hwraps hfit).empty
      refine ⟨hok, fun e he => ?_⟩
      rw [hnil] at he
      cases he
  have hgained := hput.allotted.gained hisDir hchanged hdirs.1 hdirs.2 (by rw [hfile]; decide)
    (fun h => absurd (hfile.symm.trans h) (by decide))
  refine ⟨n, info, rfl, rfl, hok, hdir.not_named hseven habsent, hgained, ?_, fun hfit => ?_, fun hfit => ?_⟩
  · have hne : n ≠ d := by
      rintro rfl
      have hmark := hisDir.1
      rw [hput.allotted.free] at hmark
      cases hmark
    rw [(hchanged.others n (FsInfo.real_of_marked hput.allotted.mark) hne).record.type_eq, hput.allotted.record, hfile]
  · have hentries := (hfits hfit).entries
    rw [hmid] at hentries
    exact ⟨_, hentries⟩
  · exact (hwraps hfit).empty.2

def Machine.LeadsTo (m : Machine) (path : Buf) (place : Place) : Prop :=
  path 0 = slash ∧ m.visible.walk slash true m.visible.root [] ((textOf path).splitOn slash) = .found place

theorem Machine.LeadsTo.valid {path : Buf} (hleads : m.LeadsTo path place) (hread : m.Readable static) : m.Valid place :=
  Space.walk_found_valid (fun _ _ _ hvalid _ => hread.valid_child hvalid) hread.valid_root
    (fun _ hc => notMem_of_mem_splitOn slash hc) hleads.2

theorem Machine.LeadsTo.append_head {path path' : Buf} {rest : Text} (hleads : m.LeadsTo path place)
    (htext : textOf path' = textOf path ++ rest) (hlen : (textOf path').length < pathLen) : path' 0 = slash := by
  have hlen' : (textOf path).length < pathLen := by
    rw [htext, List.length_append] at hlen
    omega
  rw [textOf, List.length_map, List.length_range] at hlen hlen'
  have hholds := holdsText_textOf hlen
  obtain ⟨-, hhead⟩ := holdsText_path hleads.1 hlen'
  rw [List.intercalate_splitOn] at hhead
  obtain ⟨more, hmore⟩ := List.head?_eq_some_iff.mp hhead
  rw [hholds.chars 0 (Nat.zero_le _), htext, hmore]
  rfl

/-- A file that was made is found by its path, exactly when its name has no slash and its directory does not grow past
the largest size. -/
theorem made_file_reached (hread : m.Readable static) (hcons : ∀ i, m.Live i → Consistent (static i) (m.fsEntries i))
    {path path' : Buf} (hleads : m.LeadsTo path place) (hdir : ((m.fsEntries place.1).record place.2).type = inodeDirType)
    {file : Buf} (hseven : SevenBit file) {now : UInt32} {made : Slot × UInt32}
    (hrun : makeFile now place.1 place.2 file m = .ok (some made, m'))
    (htext : textOf path' = textOf path ++ slash :: nameOf file) (hlen : (textOf path').length < pathLen)
    (stack : Buf) (follow : Bool) :
    lookupPath stack path' follow m' = .ok (some made, m') ↔
      slash ∉ nameOf file ∧
        (m.fsEntries (m.mntRoot place.1 place.2).2.1).Fits (m.mntRoot place.1 place.2).2.2 (nameLength file) := by
  have hvalid := hleads.valid hread
  have hisDir := hread.isDir_mntRoot ⟨hvalid.2, hdir⟩
  have hlive := (hread.valid_mntRoot hvalid).1
  obtain ⟨⟨i, d⟩, hresolve⟩ : ∃ dir : Place, (m.mntRoot place.1 place.2).2 = dir := ⟨_, rfl⟩
  rw [hresolve] at hisDir hlive ⊢
  obtain ⟨n, info, rfl, rfl, hname, habsent, hgained, htype, hfits, hwraps⟩ :=
    makeFile_gained hread (hcons i hlive) hvalid hresolve hisDir hlive hseven hrun
  have hread' := hgained.machine_readable hread hlive fun c hc => (hname.2.2 c hc).1
  have hhead := hleads.append_head htext hlen
  have hsep : ∀ c ∈ (textOf path').splitOn slash, slash ∉ c := fun c hc => notMem_of_mem_splitOn slash hc
  constructor
  · intro hlookup
    by_contra hbad
    have honly : ∀ e ∈ info.dirEntries (info.record d), slash ∉ e.name →
        e ∈ (m.fsEntries i).dirEntries ((m.fsEntries i).record d) := by
      intro e he hslash
      by_cases hfit : (m.fsEntries i).Fits d (nameLength file)
      · obtain ⟨hnew, -⟩ | hold := hgained.entries e he
        · exact absurd ⟨hnew ▸ hslash, hfit⟩ hbad
        · exact hold
      · rw [hwraps hfit] at he
        cases he
    rw [lookupPath_run hread' follow stack hhead hlen] at hlookup
    have hfound := Space.resolve_of_resolveWithin (Prod.mk.inj (Except.ok.inj hlookup)).1
    have hroot : m.Valid (m.withFs i info).visible.root := hread.valid_root
    have hchild : ∀ place c next, m.Valid place → slash ∉ c → (m.withFs i info).visible.child place c = some next →
        m.Valid next := fun _ _ _ hvalid hc => hgained.visible_valid hread hlive honly hvalid hc
    have hplace : m.Valid (i, n) := Space.resolve_valid hroot hchild hroot hsep hfound
    exact Bool.false_ne_true (hgained.fresh.symm.trans hplace.2)
  · rintro ⟨hslash, hfit⟩
    obtain ⟨type, hinserts⟩ := hfits hfit
    have hadds := hgained.adds hread hlive hname habsent hinserts ⟨rfl, rfl⟩
    have hcomps : (textOf path').splitOn slash = (textOf path).splitOn slash ++ [nameOf file] := by
      rw [htext, List.splitOn_append_cons_self, List.splitOn_eq_singleton hslash]
    have hlink : (m.withFs i info).visible.link (i, n) = none := by
      change (((m.withFs i info).fsEntries i).space.link n) = none
      rw [Machine.withFs_fsEntries_self]
      simp only [FsInfo.space]
      rw [htype, if_neg (by decide)]
    have hwalk : (m.withFs i info).visible.walk slash follow (m.withFs i info).visible.root []
        ((textOf path').splitOn slash) = .found (i, n) := by
      rw [hcomps, hadds.walk_new (List.ne_nil_of_length_pos hname.1) hleads.2 ⟨hvalid, hresolve⟩, hlink]
      split_ifs
      · rfl
      · rfl
    rw [lookupPath_run hread' follow stack hhead hlen, Space.resolveWithin_found hwalk]

end Machine

theorem smallMachine_leadsTo : smallMachine.LeadsTo (cstr [slash]) (0, 2) := by
  have htext : (textOf (cstr [slash])).splitOn slash = [[], []] := by decide
  refine ⟨rfl, ?_⟩
  rw [htext]
  rfl

/-- The name `a/b` is stored, and its path looks for `b` in `a`. -/
theorem slash_name_unreachable : smallMachine.LeadsTo (cstr [slash]) (0, 2) ∧ SevenBit (cstr [97, slash, 98]) ∧
    ∃ made m', makeFile 0 0 2 (cstr [97, slash, 98]) smallMachine = .ok (some made, m') ∧
      ∃ m'', lookupPath zero (cstr [slash, slash, 97, slash, 98]) true m' = .ok (none, m'') := by
  have hmake : (makeFile 0 0 2 (cstr [97, slash, 98]) smallMachine).toOption.map (fun done => (done.1.isSome,
      (lookupPath zero (cstr [slash, slash, 97, slash, 98]) true done.2).toOption.map Prod.fst)) =
      some (true, some none) := by decide +kernel
  refine ⟨smallMachine_leadsTo, by decide, ?_⟩
  obtain ⟨⟨made, m'⟩, hrun, hrest⟩ := eq_ok_of_toOption hmake
  obtain ⟨hsome, hlookup⟩ := Prod.mk.inj hrest
  obtain ⟨made, rfl⟩ := Option.isSome_iff_exists.mp hsome
  obtain ⟨⟨found, m''⟩, hfind, rfl⟩ := eq_ok_of_toOption hlookup
  exact ⟨made, m', hrun, m'', hfind⟩

theorem made_file_reached_smallMachine : ∃ made m', makeFile 0 0 2 (cstr [97]) smallMachine = .ok (some made, m') ∧
    lookupPath zero (cstr [slash, slash, 97]) true m' = .ok (some made, m') := by
  have hmount : ∀ i, (smallMachine.fsEntries i).mountpoint = 0 := fun _ => rfl
  have hcons : ∀ i, smallMachine.Live i → Consistent smallStatic (smallMachine.fsEntries i) := fun i hlive => by
    obtain rfl := hlive.resolve_right fun hne => hne (hmount i)
    exact smallFs_consistent
  have hmake : (makeFile 0 0 2 (cstr [97]) smallMachine).toOption.map (fun done => done.1.isSome) = some true := by
    decide +kernel
  have hdir : ((smallMachine.fsEntries 0).record 2).type = inodeDirType := by
    change (smallFs.record 2).type = _
    rw [smallFs_record.2.1]
    rfl
  have hfit : (smallMachine.fsEntries (smallMachine.mntRoot 0 2).2.1).Fits (smallMachine.mntRoot 0 2).2.2
      (nameLength (cstr [97])) := by
    right
    change (smallFs.record 2).sizeLo.toNat < maxSize
    rw [smallFs_record.2.1]
    decide
  obtain ⟨⟨made, m'⟩, hrun, hsome⟩ := eq_ok_of_toOption hmake
  obtain ⟨made, rfl⟩ := Option.isSome_iff_exists.mp hsome
  refine ⟨made, m', hrun, ?_⟩
  exact (made_file_reached (smallFs_goodFs.machine hmount) hcons smallMachine_leadsTo hdir (by decide) hrun (by decide)
    (by decide) zero true).mpr ⟨by decide, hfit⟩

end DeprecatOS
