import DeprecatOS.Proof.StoredNames

/-!
# Unlinking

What `unlink_inode` and `unlink_dir` leave of a filesystem when they succeed. An entry is gone from the directory, an
inode may be released with all its blocks, and every other inode is what it was but for its link count. Such steps add
up: after a series of them some directories are gone, every other inode has lost as many links as names of it were
removed, and those that had no more links than that are released.
-/

namespace DeprecatOS

open Bytes Bits Fault PointerTree

variable {static : UInt32 → Prop} {fs fs₁ fs₂ fs' : FsInfo} {d p n : UInt32} {e : DirEntry}
  {dirs dirs' names names' : List UInt32}

/-! ### Steps that release inodes -/

/-- From `fs` to `fs'` inodes were released and directory `d` was rewritten; of the other inodes at most the link counts
changed. -/
structure Thinned (static : UInt32 → Prop) (fs fs' : FsInfo) (d : UInt32) : Prop where
  consistent : Consistent static fs'
  geo : fs'.geo = fs.geo
  mark : fs'.marked .inode d = true
  marks : ∀ n, fs'.marked .inode n = true → fs.marked .inode n = true
  record : (fs.record d).Relinked (fs'.record d)
  others : ∀ n, fs'.marked .inode n = true → n ≠ d → SameBody fs fs' n
  times : ∀ n, fs'.marked .inode n = true → n ≠ d → (fs'.record n).lastModTime = (fs.record n).lastModTime
  owns : ∀ n, fs'.marked .inode n = true → fs.Owner n → fs'.owns n = fs.owns n

namespace Thinned

theorem relinked (hthin : Thinned static fs fs' d) (hn : fs'.marked .inode n = true) :
    (fs.record n).Relinked (fs'.record n) := by
  by_cases heq : n = d
  · rw [heq]
    exact hthin.record
  · exact (hthin.others n hn heq).record

theorem owner (hthin : Thinned static fs fs' d) (hn : fs'.marked .inode n = true) (howner : fs.Owner n) :
    fs'.Owner n :=
  ⟨hn, (hthin.relinked hn).inline_iff.not.mpr howner.2⟩

theorem trans (hfirst : Thinned static fs fs₁ d) (hsecond : Thinned static fs₁ fs₂ p)
    (hd : d = p ∨ fs₂.marked .inode d = false) : Thinned static fs fs₂ p := by
  have hne : ∀ n, fs₂.marked .inode n = true → n ≠ p → n ≠ d := by
    rintro n hn hnp rfl
    obtain rfl | hfree := hd
    · exact hnp rfl
    · rw [hfree] at hn
      cases hn
  refine ⟨hsecond.consistent, hsecond.geo.trans hfirst.geo, hsecond.mark,
    fun n hn => hfirst.marks n (hsecond.marks n hn), ?_, fun n hn hnp => ?_, fun n hn hnp => ?_, fun n hn howner => ?_⟩
  · exact (hfirst.relinked (hsecond.marks p hsecond.mark)).trans hsecond.record
  · have hn₁ := hsecond.marks n hn
    exact (hfirst.others n hn₁ (hne n hn hnp)).trans (hsecond.others n hn hnp) (hfirst.owner hn₁)
  · rw [hsecond.times n hn hnp, hfirst.times n (hsecond.marks n hn) (hne n hn hnp)]
  · have hn₁ := hsecond.marks n hn
    rw [hsecond.owns n hn (hfirst.owner hn₁ howner), hfirst.owns n hn₁ howner]

theorem used_iff (hthin : Thinned static fs fs' d) (hcons : Consistent static fs) (b : UInt32) :
    fs'.Used b ↔ fs.Used b ∧ ∀ n, fs.Owner n → b ∈ fs.owns n → fs'.marked .inode n = true := by
  have hcons' := hthin.consistent
  constructor
  · intro hused
    obtain hstatic | ⟨n, howner', hmem⟩ := hcons'.covered b hused
    · exact ⟨hcons.mounted.used b hstatic, fun n howner hmem =>
        absurd hstatic ((hcons.inode n howner).tree.notStatic b hmem)⟩
    · have howner : fs.Owner n :=
        ⟨hthin.marks n howner'.1, (hthin.relinked howner'.1).inline_iff.not.mp howner'.2⟩
      rw [hthin.owns n howner'.1 howner] at hmem
      refine ⟨(hcons.inode n howner).tree.used b hmem, fun n' howner₂ hmem' => ?_⟩
      by_cases heq : n' = n
      · rw [heq]
        exact howner'.1
      · exact absurd hmem (hcons.apart n' n howner₂ howner heq hmem')
  · rintro ⟨hused, hkept⟩
    obtain hstatic | ⟨n, howner, hmem⟩ := hcons.covered b hused
    · exact hcons'.mounted.used b hstatic
    · have hn := hkept n howner hmem
      rw [← hthin.owns n hn howner] at hmem
      exact (hcons'.inode n (hthin.owner hn howner)).tree.used b hmem

end Thinned

theorem Removed.thinned (hremoved : Removed static fs fs' d e) (hmark : fs.marked .inode d = true) :
    Thinned static fs fs' d where
  consistent := hremoved.consistent
  geo := hremoved.geo
  mark := by rw [hremoved.marks, hmark]
  marks n hn := by rwa [hremoved.marks] at hn
  record := hremoved.record
  others n hn hne := by
    rw [hremoved.marks] at hn
    exact hremoved.others n (FsInfo.real_of_marked hn) hne
  times n hn hne := by
    rw [hremoved.marks] at hn
    exact hremoved.times n (FsInfo.real_of_marked hn) hne
  owns n _ howner := hremoved.owns n howner

theorem Deleted.thinned {now : UInt32} (hdeleted : Deleted static fs fs' n now) (hmark : fs.marked .inode d = true)
    (hne : d ≠ n) : Thinned static fs fs' d := by
  have hother : ∀ m, fs'.marked .inode m = true → m ≠ n := by
    rintro m hm rfl
    rw [hdeleted.mark] at hm
    cases hm
  have hmarks : ∀ m, fs'.marked .inode m = true → fs.marked .inode m = true := fun m hm => by
    rwa [hdeleted.changed.marks m (hother m hm)] at hm
  have hsame : ∀ m, fs'.marked .inode m = true → SameFile fs fs' m := fun m hm =>
    hdeleted.changed.others m (FsInfo.real_of_marked (hmarks m hm)) (hother m hm)
  have hmark' : fs'.marked .inode d = true := by rw [hdeleted.changed.marks d hne, hmark]
  refine ⟨hdeleted.changed.consistent, hdeleted.changed.geo, hmark', hmarks, ?_, fun m hm _ => (hsame m hm).sameBody,
    fun m hm _ => by rw [(hsame m hm).record], fun m hm howner => hdeleted.owns m howner (hother m hm)⟩
  rw [(hsame d hmark').record]
  exact .refl _

theorem Consistent.relink_spec (hcons : Consistent static fs) (howner : fs.Owner d) (links : UInt16) :
    Runs (setInode d { fs.record d with hardLinkCnt := links }) fs fun ok fs' => ok = true ∧
      fs'.record d = { fs.record d with hardLinkCnt := links } ∧
      (∀ m, fs.geo.Real .inode m → m ≠ d → fs'.record m = fs.record m) ∧
      Settled static fs fs fs' d (fs.record d) := by
  have hreal := FsInfo.real_of_marked howner.1
  have hinode := hcons.inode d howner
  have hpending : Pending static fs fs d (fs.record d) := ⟨Trade.refl hcons.mounted hinode.tree.used, hinode⟩
  refine (setInode_spec hcons.mounted hcons.layout hreal _).mono fun ok fs' hstored => ?_
  obtain ⟨hok, hstored⟩ := hstored
  refine ⟨hok, hstored.record, hstored.others, hpending.settled hcons howner
    ⟨(hpending.trade.rework hcons howner).stored hstored, hstored.frame.inodes, hstored.frame.dirCnt, hstored.data,
      hstored.used, ?_, fun m hm hne => by rw [hstored.others m hm hne]⟩⟩
  rw [hstored.record]
  exact ⟨_, _, rfl⟩

theorem Settled.sameBody (hsettled : Settled static fs fs fs' d (fs.record d)) : SameBody fs fs' d := by
  refine ⟨hsettled.record, fun _ j hj => by rw [(hsettled.data j hj).1], fun _ k hk => ?_⟩
  refine SameData.byte_eq (hsettled.data _ ?_)
  have hlt := (fs.record d).sizeLo.toNat_lt
  rw [blockSize, fileBlkLimit]
  omega

theorem Settled.thinned (hsettled : Settled static fs fs fs' d (fs.record d)) (hmark : fs.marked .inode d = true) :
    Thinned static fs fs' d where
  consistent := hsettled.consistent
  geo := hsettled.geo
  mark := by rw [hsettled.marks, hmark]
  marks n hn := by rwa [hsettled.marks] at hn
  record := hsettled.record
  others n hn hne := by
    rw [hsettled.marks] at hn
    exact hsettled.others n (FsInfo.real_of_marked hn) hne
  times n hn hne := by
    rw [hsettled.marks] at hn
    exact hsettled.times n (FsInfo.real_of_marked hn) hne
  owns n _ howner := by
    by_cases heq : n = d
    · rw [heq, hsettled.owns]
      rfl
    · exact hsettled.otherOwns n howner heq

/-! ### What a series of steps adds up to -/

/-- From `fs` to `fs'` the directories `dirs` were removed, and an inode lost a name as often as it is in `names`. An
inode that has lost as many names as it had links is released. -/
structure Pruned (static : UInt32 → Prop) (fs fs' : FsInfo) (d : UInt32) (dirs names : List UInt32) : Prop
    extends Thinned static fs fs' d where
  kept : ∀ n, fs'.marked .inode n = true ↔ fs.marked .inode n = true ∧ n ∉ dirs ∧
    (n ∈ names → names.count n < (fs.record n).hardLinkCnt.toNat)
  links : ∀ n, fs'.marked .inode n = true → n ≠ d →
    (fs'.record n).hardLinkCnt.toNat + names.count n = (fs.record n).hardLinkCnt.toNat
  dirCnt : ∀ g, fs'.dirCnt g = fs.dirCnt g - UInt16.ofNat (dirs.countP (fs.groupOf · = g))

namespace Pruned

theorem free_of_mem (hpruned : Pruned static fs fs' d dirs names) (hn : n ∈ dirs) : fs'.marked .inode n = false :=
  Bool.eq_false_iff.mpr fun hmark => ((hpruned.kept n).mp hmark).2.1 hn

theorem record_eq (hpruned : Pruned static fs fs' d dirs names) (hn : fs'.marked .inode n = true) (hne : n ≠ d) :
    fs'.record n = { fs.record n with
      hardLinkCnt := (fs.record n).hardLinkCnt - UInt16.ofNat (names.count n) } := by
  obtain ⟨links, time, hrecord⟩ := (hpruned.others n hn hne).record
  have hsum := hpruned.links n hn hne
  have htime := hpruned.times n hn hne
  rw [hrecord] at hsum htime ⊢
  dsimp only at hsum htime
  have hlinks : links = (fs.record n).hardLinkCnt - UInt16.ofNat (names.count n) := by
    apply UInt16.toNat_inj.mp
    have hlt := (fs.record n).hardLinkCnt.toNat_lt
    have hcount : (UInt16.ofNat (names.count n)).toNat = names.count n := by
      rw [UInt16.toNat_ofNat']
      exact Nat.mod_eq_of_lt (by omega)
    rw [UInt16.toNat_sub_of_le _ _ (UInt16.le_iff_toNat_le.mpr (by omega)), hcount]
    omega
  rw [hlinks, htime]

theorem trans (hfirst : Pruned static fs fs₁ d dirs names) (hsecond : Pruned static fs₁ fs₂ p dirs' names')
    (hd : d = p ∨ d ∈ dirs') (hnames : d ∉ names) (hnames' : d ∉ names') :
    Pruned static fs fs₂ p (dirs ++ dirs') (names ++ names') where
  toThinned := hfirst.toThinned.trans hsecond.toThinned (hd.imp_right fun hmem => hsecond.free_of_mem hmem)
  kept n := by
    rw [hsecond.kept, hfirst.kept, List.mem_append, List.mem_append, not_or, List.count_append]
    by_cases hnd : n = d
    · subst hnd
      simp only [hnames, hnames', false_implies, and_true, or_false]
      exact and_assoc
    · constructor
      · rintro ⟨⟨hmark, hdirs, hless⟩, hdirs', hless'⟩
        have hsum := hfirst.links n ((hfirst.kept n).mpr ⟨hmark, hdirs, hless⟩) hnd
        refine ⟨hmark, ⟨hdirs, hdirs'⟩, fun hmem => ?_⟩
        by_cases hmem' : n ∈ names'
        · have := hless' hmem'
          omega
        · rw [List.count_eq_zero.mpr hmem', Nat.add_zero]
          exact hless (hmem.resolve_right hmem')
      · rintro ⟨hmark, ⟨hdirs, hdirs'⟩, hless⟩
        have hless₁ : n ∈ names → names.count n < (fs.record n).hardLinkCnt.toNat := fun hmem =>
          (Nat.le_add_right _ _).trans_lt (hless (.inl hmem))
        have hsum := hfirst.links n ((hfirst.kept n).mpr ⟨hmark, hdirs, hless₁⟩) hnd
        refine ⟨⟨hmark, hdirs, hless₁⟩, hdirs', fun hmem => ?_⟩
        have := hless (.inr hmem)
        omega
  links n hn hnp := by
    have hn₁ := hsecond.marks n hn
    have hnd : n ≠ d := by
      rintro rfl
      obtain rfl | hmem := hd
      · exact hnp rfl
      · rw [hsecond.free_of_mem hmem] at hn
        cases hn
    have hsum := hfirst.links n hn₁ hnd
    have hsum' := hsecond.links n hn hnp
    rw [List.count_append]
    omega
  dirCnt g := by
    have hgroup : ∀ n, fs₁.groupOf n = fs.groupOf n := FsInfo.groupOf_of_geo hfirst.geo
    rw [hsecond.dirCnt, hfirst.dirCnt, List.countP_append, UInt16.ofNat_add]
    simp only [hgroup]
    grind

end Pruned

theorem Removed.pruned (hremoved : Removed static fs fs' d e) (hmark : fs.marked .inode d = true)
    (hlinks : 1 < (fs.record e.inode).hardLinkCnt.toNat) : Pruned static fs fs' d [] [e.inode] where
  toThinned := hremoved.thinned hmark
  kept n := by
    rw [hremoved.marks]
    refine ⟨fun hn => ⟨hn, List.not_mem_nil, fun hmem => ?_⟩, And.left⟩
    rw [List.mem_singleton.mp hmem, List.count_singleton_self]
    exact hlinks
  links n hn _ := by
    rw [hremoved.marks] at hn
    rw [hremoved.links n (FsInfo.real_of_marked hn), List.count_singleton]
    by_cases heq : n = e.inode
    · rw [if_pos heq, if_pos (by rw [heq]; exact beq_self_eq_true _), heq]
      have hone : (1 : UInt16) ≤ (fs.record e.inode).hardLinkCnt := UInt16.le_iff_toNat_le.mpr hlinks.le
      rw [UInt16.toNat_sub_of_le _ _ hone]
      exact Nat.sub_add_cancel hlinks.le
    · rw [if_neg heq, if_neg (by rw [beq_iff_eq]; exact Ne.symm heq), Nat.add_zero]
  dirCnt g := by
    rw [hremoved.dirCnt]
    exact (UInt16.sub_zero _).symm

theorem Removed.pruned_deleted {now : UInt32} (hremoved : Removed static fs fs₁ d e)
    (hdeleted : Deleted static fs₁ fs' e.inode now) (hmark : fs.marked .inode d = true)
    (hfile : fs.marked .inode e.inode = true) (hne : e.inode ≠ d) (htype : (fs.record e.inode).type ≠ inodeDirType)
    (hlinks : (fs.record e.inode).hardLinkCnt = 1) : Pruned static fs fs' d [] [e.inode] where
  toThinned := (hremoved.thinned hmark).trans (hdeleted.thinned (by rw [hremoved.marks, hmark]) hne.symm) (.inl rfl)
  kept n := by
    by_cases heq : n = e.inode
    · rw [heq, hdeleted.mark, List.count_singleton_self, hlinks]
      exact iff_of_false Bool.false_ne_true fun h => absurd (h.2.2 (List.mem_singleton_self _)) (by decide)
    · rw [hdeleted.changed.marks n heq, hremoved.marks]
      exact ⟨fun hn => ⟨hn, List.not_mem_nil, fun hmem => absurd (List.mem_singleton.mp hmem) heq⟩, And.left⟩
  links n hn _ := by
    have heq : n ≠ e.inode := by
      rintro rfl
      rw [hdeleted.mark] at hn
      cases hn
    rw [hdeleted.changed.marks n heq, hremoved.marks] at hn
    have hreal := FsInfo.real_of_marked hn
    rw [(hdeleted.changed.others n (by rwa [hremoved.geo]) heq).record, hremoved.links n hreal, if_neg heq,
      List.count_singleton, if_neg (by rw [beq_iff_eq]; exact Ne.symm heq), Nat.add_zero]
  dirCnt g := by
    have htype' : (fs₁.record e.inode).type = (fs.record e.inode).type :=
      (hremoved.others e.inode (FsInfo.real_of_marked hfile) hne).record.type_eq
    rw [hdeleted.dirCnt, if_neg (by rwa [htype']), hremoved.dirCnt]
    exact (UInt16.sub_zero _).symm

theorem Removed.pruned_dir {now : UInt32} (hremoved : Removed static fs fs₁ d e)
    (hsettled : Settled static fs₁ fs₁ fs₂ d (fs₁.record d))
    (hothers : ∀ m, fs₁.geo.Real .inode m → m ≠ d → fs₂.record m = fs₁.record m)
    (hdeleted : Deleted static fs₂ fs' e.inode now) (hmark : fs.marked .inode d = true)
    (hchild : fs.marked .inode e.inode = true) (hne : e.inode ≠ d) (htype : (fs.record e.inode).type = inodeDirType) :
    Pruned static fs fs' d [e.inode] [] := by
  have hmark₁ : fs₁.marked .inode d = true := by rw [hremoved.marks, hmark]
  have hmarks₂ : fs₂.marked .inode = fs.marked .inode := hsettled.marks.trans hremoved.marks
  refine ⟨((hremoved.thinned hmark).trans (hsettled.thinned hmark₁) (.inl rfl)).trans
    (hdeleted.thinned (by rw [hmarks₂, hmark]) hne.symm) (.inl rfl), fun n => ?_, fun n hn hnd => ?_, fun g => ?_⟩
  · by_cases heq : n = e.inode
    · rw [heq, hdeleted.mark]
      exact iff_of_false Bool.false_ne_true fun h => h.2.1 (List.mem_singleton_self _)
    · rw [hdeleted.changed.marks n heq, hmarks₂]
      exact ⟨fun hn => ⟨hn, fun hmem => heq (List.mem_singleton.mp hmem), fun h => absurd h List.not_mem_nil⟩, And.left⟩
  · have heq : n ≠ e.inode := by
      rintro rfl
      rw [hdeleted.mark] at hn
      cases hn
    rw [hdeleted.changed.marks n heq, hmarks₂] at hn
    have hreal := FsInfo.real_of_marked hn
    have hreal₁ : fs₁.geo.Real .inode n := by rwa [hremoved.geo]
    have hreal₂ : fs₂.geo.Real .inode n := by rwa [hsettled.geo]
    rw [(hdeleted.changed.others n hreal₂ heq).record, hothers n hreal₁ hnd, hremoved.links n hreal, if_neg heq]
    rfl
  · have hreal := FsInfo.real_of_marked hchild
    have htype' : (fs₂.record e.inode).type = inodeDirType := by
      rw [(hsettled.others e.inode (by rwa [hremoved.geo]) hne).record.type_eq,
        (hremoved.others e.inode hreal hne).record.type_eq, htype]
    have hgroup : fs₂.groupOf e.inode = fs.groupOf e.inode :=
      (FsInfo.groupOf_of_geo hsettled.geo _).trans (FsInfo.groupOf_of_geo hremoved.geo _)
    have hcnt : fs₂.dirCnt = fs.dirCnt := hsettled.dirCnt.trans hremoved.dirCnt
    rw [hdeleted.dirCnt, if_pos htype', hcnt, hgroup, Function.update_apply, List.countP_singleton]
    by_cases heq : g = fs.groupOf e.inode
    · rw [if_pos heq, if_pos (by simpa using heq.symm), heq]
      rfl
    · rw [if_neg heq, if_neg (by simpa using Ne.symm heq)]
      exact (UInt16.sub_zero _).symm

/-! ### The directory of a step -/

theorem WellFormedDir.of_sameBody (hdir : WellFormedDir static fs d) (hcons : Consistent static fs')
    (hmark : fs'.marked .inode d = true) (hsame : SameBody fs fs' d) :
    WellFormedDir static fs' d ∧ fs'.dirEntries (fs'.record d) = fs.dirEntries (fs.record d) := by
  obtain ⟨hdir', hentries⟩ := hsame.dir hdir.owner hdir.dir
  refine ⟨⟨hcons, hmark, hsame.record.type_eq.trans hdir.type, hdir', ?_⟩, hentries⟩
  rw [hentries]
  exact hdir.named

def Lost (fs fs' : FsInfo) (d : UInt32) (e : DirEntry) : Prop :=
  ∃ before after, fs.dirEntries (fs.record d) = before ++ e :: after ∧
    fs'.dirEntries (fs'.record d) = before ++ after ∧ ∀ e' ∈ before, e'.name ≠ e.name

theorem WellFormedDir.removed (hdir : WellFormedDir static fs d) (hremoved : Removed static fs fs' d e) :
    WellFormedDir static fs' d where
  consistent := hremoved.consistent
  mark := by rw [hremoved.marks, hdir.mark]
  type := hremoved.type.trans hdir.type
  dir := hremoved.dir
  named := by
    obtain ⟨before, after, hold, hnew, -⟩ := hremoved.entries
    intro e' he'
    rw [hnew] at he'
    refine hdir.named e' ?_
    rw [hold]
    exact List.mem_append.mpr ((List.mem_append.mp he').imp id (List.mem_cons_of_mem _))

theorem Removed.lost (hremoved : Removed static fs fs' d e) : Lost fs fs' d e := hremoved.entries

theorem Lost.of_same (hlost : Lost fs fs₁ d e)
    (hsame : fs'.dirEntries (fs'.record d) = fs₁.dirEntries (fs₁.record d)) : Lost fs fs' d e := by
  obtain ⟨before, after, hold, hnew, hfirst⟩ := hlost
  exact ⟨before, after, hold, hsame.trans hnew, hfirst⟩

theorem findEntry_split {es before after : List DirEntry} {name : Name} (hsplit : es = before ++ e :: after)
    (hname : e.name = name) (hfirst : ∀ e' ∈ before, e'.name ≠ e.name) : findEntry es name = some e := by
  rw [hsplit, findEntry, List.find?_append, List.find?_eq_none.mpr, Option.none_or, List.find?_cons_of_pos]
  · simpa using hname
  · intro e' he'
    simpa [← hname] using hfirst e' he'

/-! ### The calls -/

theorem WellFormedDir.dropDir_spec (hdir : WellFormedDir static fs d) {c : UInt32} (hchild : fs.marked .inode c = true)
    (hreserved : c ≠ inodeError) (now : UInt32) :
    Runs (dropDir now d c) fs fun ok fs' => ok = true ∧ ∃ fs₂, Settled static fs fs fs₂ d (fs.record d) ∧
      fs₂.record d = { fs.record d with hardLinkCnt := (fs.record d).hardLinkCnt - 1 } ∧
      (∀ m, fs.geo.Real .inode m → m ≠ d → fs₂.record m = fs.record m) ∧ Deleted static fs₂ fs' c now := by
  have hcons := hdir.consistent
  rw [dropDir]
  refine Runs.bind_eq (getInode_run hcons.mounted hcons.layout (FsInfo.real_of_marked hdir.mark)) ?_
  dsimp only
  refine (hcons.relink_spec hdir.owner _).bind fun ok fs₂ hrelinked => ?_
  obtain ⟨rfl, hrecord, hothers, hsettled⟩ := hrelinked
  rw [if_pos rfl]
  have hcons₂ := hsettled.consistent
  have hchild₂ : fs₂.marked .inode c = true := by rw [hsettled.marks, hchild]
  refine Runs.bind_eq (getInode_run hcons₂.mounted hcons₂.layout (FsInfo.real_of_marked hchild₂)) ?_
  dsimp only
  exact (deleteInode_spec hcons₂ hchild₂ hreserved now).mono fun _ fs' hdone =>
    ⟨hdone.1, fs₂, hsettled, hrecord, hothers, hdone.2⟩

section Calls

variable {m : Machine} {i : Slot} {name : Buf} (now : UInt32)
  (hdir : WellFormedDir static (m.fsEntries i) d) (hplace : (m.mntRoot i d).2 = (i, d))
  (hreal : ∀ e ∈ (m.fsEntries i).dirEntries ((m.fsEntries i).record d), (m.fsEntries i).geo.Real .inode e.inode)
  (hfind : findEntry ((m.fsEntries i).dirEntries ((m.fsEntries i).record d)) (nameOf name) = some e)

include hdir hplace hreal hfind

theorem WellFormedDir.dirRemove_spec (hseven : SevenBit name) :
    Runs (dirRemove now i d name) m fun result m' => result = none ∧ ¬ NameOk (nameOf name) ∨
      result = some e.inode ∧ ∃ fs', m' = m.withFs i fs' ∧ Removed static (m.fsEntries i) fs' d e := by
  rw [dirRemove]
  dsimp only
  split_ifs with hlen
  · refine Runs.pure (.inl ⟨rfl, fun hok => ?_⟩)
    rw [NameOk, length_nameOf] at hok
    omega
  · refine Runs.bind_eq (returnMntRoot_run hplace) ?_
    refine (onFs_runs (removeEntry_spec hdir.consistent hdir.owner hdir.dir hdir.type (hdir.searchable hseven)
      (fun e he _ => hreal e he) now)).mono fun result m' hdone => ?_
    obtain ⟨fs', rfl, ⟨rfl, -, hnone⟩ | ⟨e', rfl, hname, hremoved⟩⟩ := hdone
    · rw [hfind] at hnone
      cases hnone
    · obtain ⟨before, after, hold, -, hfirst⟩ := hremoved.entries
      obtain rfl : e = e' := Option.some.inj (hfind.symm.trans (findEntry_split hold hname hfirst))
      exact .inr ⟨rfl, fs', rfl, hremoved⟩

theorem WellFormedDir.unlinkInode_spec (hfile : (m.fsEntries i).marked .inode e.inode = true)
    (htype : ((m.fsEntries i).record e.inode).type ≠ inodeDirType)
    (hlinks : ((m.fsEntries i).record e.inode).hardLinkCnt ≠ 0) (hreserved : e.inode ≠ inodeError) :
    Runs (unlinkInode now i d name) m fun ok m' => (NameOk (nameOf name) → ok = true) ∧ (ok = true →
      ∃ fs', m' = m.withFs i fs' ∧ Pruned static (m.fsEntries i) fs' d [] [e.inode] ∧ WellFormedDir static fs' d ∧
        Lost (m.fsEntries i) fs' d e) := by
  have hcons := hdir.consistent
  have hfalse : ∀ {P : Prop}, false = true → P := fun h => absurd h Bool.false_ne_true
  have hne : e.inode ≠ d := by
    intro heq
    rw [heq] at htype
    exact htype hdir.type
  rw [unlinkInode]
  refine Runs.bind_eq (returnMntRoot_run hplace) ?_
  dsimp only
  refine Runs.bind_eq (onFs_run_read (getInode_run hcons.mounted hcons.layout (FsInfo.real_of_marked hdir.mark))) ?_
  dsimp only
  rw [if_neg (not_not.mpr hdir.type)]
  by_cases hseven : SevenBit name
  · refine Runs.bind_eq (onFs_run_read (nameIn_run hcons.mounted hdir.tree hdir.dir (hdir.searchable hseven))) ?_
    rw [hfind]
    dsimp only [Option.map_some]
    refine Runs.bind_eq (onFs_run_read (getInode_run hcons.mounted hcons.layout (FsInfo.real_of_marked hfile))) ?_
    dsimp only
    rw [if_neg htype]
    refine (hdir.dirRemove_spec now hplace hreal hfind hseven).bind fun result m₁ hdone => ?_
    obtain ⟨rfl, hbad⟩ | ⟨rfl, fs₁, rfl, hremoved⟩ := hdone
    · exact Runs.pure ⟨fun hname => absurd hname hbad, hfalse⟩
    dsimp only
    have hcons₁ := hremoved.consistent
    have hmark₁ : fs₁.marked .inode e.inode = true := by rw [hremoved.marks, hfile]
    have hself := m.withFs_fsEntries_self i fs₁
    have hget := getInode_run hcons₁.mounted hcons₁.layout (FsInfo.real_of_marked hmark₁)
    refine Runs.bind_eq (onFs_run_read (by rw [hself]; exact hget)) ?_
    dsimp only
    have hcnt := hremoved.links e.inode (FsInfo.real_of_marked hfile)
    rw [if_pos rfl] at hcnt
    have hpos : 0 < ((m.fsEntries i).record e.inode).hardLinkCnt.toNat :=
      Nat.pos_of_ne_zero fun h => hlinks (UInt16.toNat_inj.mp h)
    by_cases hlast : (fs₁.record e.inode).hardLinkCnt = 0
    · rw [if_pos hlast]
      have hone : ((m.fsEntries i).record e.inode).hardLinkCnt = 1 := by
        rw [hcnt] at hlast
        grind
      have hdelete := deleteInode_spec hcons₁ hmark₁ hreserved now
      rw [← hself] at hdelete
      refine (onFs_runs hdelete).mono fun ok m' hdone => ?_
      obtain ⟨fs', rfl, rfl, hdeleted⟩ := hdone
      rw [hself] at hdeleted
      rw [m.withFs_withFs]
      have hpruned := hremoved.pruned_deleted hdeleted hdir.mark hfile hne htype hone
      have hsame := hdeleted.changed.others d (by rw [hremoved.geo]; exact FsInfo.real_of_marked hdir.mark) hne.symm
      obtain ⟨hdir', hentries⟩ := (hdir.removed hremoved).of_sameBody hpruned.consistent hpruned.mark hsame.sameBody
      exact ⟨fun _ => rfl, fun _ => ⟨fs', rfl, hpruned, hdir', hremoved.lost.of_same hentries⟩⟩
    · rw [if_neg hlast]
      refine Runs.pure ⟨fun _ => rfl, fun _ =>
        ⟨fs₁, rfl, hremoved.pruned hdir.mark ?_, hdir.removed hremoved, hremoved.lost⟩⟩
      have hnot : ((m.fsEntries i).record e.inode).hardLinkCnt.toNat ≠ 1 := by
        intro h
        have hone : ((m.fsEntries i).record e.inode).hardLinkCnt = 1 := UInt16.toNat_inj.mp h
        rw [hcnt, hone] at hlast
        exact hlast rfl
      omega
  · refine Runs.bind_eq (onFs_run_read (nameIn_eightBit hcons.mounted hdir.tree hdir.dir hseven)) ?_
    exact Runs.pure ⟨fun hname => absurd (fun c hc => (hname.2.2 c hc).2) hseven, hfalse⟩

theorem WellFormedDir.unlinkDir_spec (hchild : WellFormedDir static (m.fsEntries i) e.inode)
    (hchildPlace : (m.mntRoot i e.inode).1 = false) (hne : e.inode ≠ d) (hreserved : e.inode ≠ inodeError)
    (hempty : ∀ e' ∈ (m.fsEntries i).dirEntries ((m.fsEntries i).record e.inode), e'.name = dot ∨ e'.name = dotDot) :
    Runs (unlinkDir now i d name) m fun ok m' =>
      (NameOk (nameOf name) → nameOf name ≠ dot → nameOf name ≠ dotDot → ok = true) ∧ (ok = true →
      ∃ fs', m' = m.withFs i fs' ∧ Pruned static (m.fsEntries i) fs' d [e.inode] [] ∧ WellFormedDir static fs' d ∧
        Lost (m.fsEntries i) fs' d e ∧
        (fs'.record d).hardLinkCnt = ((m.fsEntries i).record d).hardLinkCnt - 1) := by
  have hcons := hdir.consistent
  obtain ⟨place, hroot⟩ : ∃ place, m.mntRoot i e.inode = (false, place) := ⟨_, Prod.ext hchildPlace rfl⟩
  have hfalse : ∀ {P : Prop}, false = true → P := fun h => absurd h Bool.false_ne_true
  rw [unlinkDir]
  split_ifs with hdots
  · refine Runs.pure ⟨fun _ hdot hdotDot => ?_, hfalse⟩
    obtain h | h := (Bool.or_eq_true _ _).mp hdots
    · exact absurd (nameOf_eq_of_streq (by simp [dot]) (by decide) h) hdot
    · exact absurd (nameOf_eq_of_streq (by simp [dotDot]) (by decide) h) hdotDot
  refine Runs.bind_eq (returnMntRoot_run hplace) ?_
  dsimp only
  refine Runs.bind_eq (onFs_run_read (getInode_run hcons.mounted hcons.layout (FsInfo.real_of_marked hdir.mark))) ?_
  dsimp only
  rw [if_neg (not_not.mpr hdir.type)]
  by_cases hseven : SevenBit name
  · refine Runs.bind_eq (onFs_run_read (nameIn_run hcons.mounted hdir.tree hdir.dir (hdir.searchable hseven))) ?_
    rw [hfind]
    dsimp only [Option.map_some]
    refine Runs.bind_eq (show returnMntRoot i e.inode m = .ok ((false, place), m) by rw [← hroot]; rfl) ?_
    dsimp only
    rw [if_neg Bool.false_ne_true]
    refine Runs.bind_eq (onFs_run_read (getInode_run hcons.mounted hcons.layout (FsInfo.real_of_marked hchild.mark))) ?_
    dsimp only
    rw [if_neg (not_not.mpr hchild.type)]
    have hascii : AsciiNames ((m.fsEntries i).dirEntries ((m.fsEntries i).record e.inode)) := by
      intro e' he' c hc
      have hc : c = 46 := by
        obtain hname | hname := hempty e' he'
        · simpa [hname, dot] using hc
        · simpa [hname, dotDot] using hc
      rw [hc]
      decide
    refine Runs.bind_eq (onFs_run_read (dirIsEmpty_run hcons.mounted hchild.tree hchild.dir hascii)) ?_
    rw [if_pos (List.all_eq_true.mpr fun e' he' => decide_eq_true (hempty e' he'))]
    refine (hdir.dirRemove_spec now hplace hreal hfind hseven).bind fun result m₁ hdone => ?_
    obtain ⟨rfl, hbad⟩ | ⟨rfl, fs₁, rfl, hremoved⟩ := hdone
    · exact Runs.pure ⟨fun hname => absurd hname hbad, hfalse⟩
    dsimp only
    have hself := m.withFs_fsEntries_self i fs₁
    have hmark₁ : fs₁.marked .inode e.inode = true := by rw [hremoved.marks, hchild.mark]
    have hdrop := (hdir.removed hremoved).dropDir_spec hmark₁ hreserved now
    rw [← hself] at hdrop
    refine (onFs_runs hdrop).mono fun _ m' hdone => ?_
    rw [hself] at hdone
    obtain ⟨fs', rfl, rfl, fs₂, hsettled, hrecord, hothers, hdeleted⟩ := hdone
    rw [m.withFs_withFs]
    have hreal₂ : fs₂.geo.Real .inode d := by
      rw [hsettled.geo, hremoved.geo]
      exact FsInfo.real_of_marked hdir.mark
    have hsame := hdeleted.changed.others d hreal₂ hne.symm
    have hpruned := hremoved.pruned_dir hsettled hothers hdeleted hdir.mark hchild.mark hne hchild.type
    have hdir₁ := hdir.removed hremoved
    have hmark₂ : fs₂.marked .inode d = true := by rw [hsettled.marks, hdir₁.mark]
    obtain ⟨hdir₂, hentries₂⟩ := hdir₁.of_sameBody hsettled.consistent hmark₂ hsettled.sameBody
    obtain ⟨hdir', hentries'⟩ := hdir₂.of_sameBody hpruned.consistent hpruned.mark hsame.sameBody
    refine ⟨fun _ _ _ => rfl, fun _ => ⟨fs', rfl, hpruned, hdir', hremoved.lost.of_same (hentries'.trans hentries₂), ?_⟩⟩
    rw [hsame.record, hrecord]
    dsimp only
    rw [hremoved.links d (FsInfo.real_of_marked hdir.mark), if_neg hne.symm]
  · refine Runs.bind_eq (onFs_run_read (nameIn_eightBit hcons.mounted hdir.tree hdir.dir hseven)) ?_
    exact Runs.pure ⟨fun hname => absurd (fun c hc => (hname.2.2 c hc).2) hseven, hfalse⟩

end Calls

end DeprecatOS
