import DeprecatOS.Proof.FileBlocks
import DeprecatOS.Proof.InodeTable

/-!
# Changes of one inode

Every operation on inode `n` is a series of steps that trade blocks of `n`, replace the record of `n`, mark `n`
or count a directory. What they add up to is a change of `n` alone, and a filesystem in which one inode
was changed is consistent if that inode is well formed and owns exactly what the change has left it.
-/

namespace DeprecatOS

open Bytes Bits Fault PointerTree

variable {static : UInt32 → Prop} {fs fs' fs'' : FsInfo} {n : UInt32} {old mid new : List UInt32}

/-! ### Link counts -/

def Inode.Relinked (inode inode' : Inode) : Prop :=
  ∃ links time, inode' = { inode with hardLinkCnt := links, lastModTime := time }

namespace Inode.Relinked

variable {inode inode' inode'' : Inode}

theorem refl (inode : Inode) : inode.Relinked inode := ⟨inode.hardLinkCnt, inode.lastModTime, rfl⟩

theorem trans (hfirst : inode.Relinked inode') (hsecond : inode'.Relinked inode'') :
    inode.Relinked inode'' := by
  obtain ⟨_, _, rfl⟩ := hfirst
  obtain ⟨links, time, rfl⟩ := hsecond
  exact ⟨links, time, rfl⟩

theorem root_eq (hrelinked : inode.Relinked inode') : inode'.root = inode.root := by
  obtain ⟨_, _, rfl⟩ := hrelinked
  rfl

theorem type_eq (hrelinked : inode.Relinked inode') : inode'.type = inode.type := by
  obtain ⟨_, _, rfl⟩ := hrelinked
  rfl

theorem sizeLo_eq (hrelinked : inode.Relinked inode') : inode'.sizeLo = inode.sizeLo := by
  obtain ⟨_, _, rfl⟩ := hrelinked
  rfl

theorem inline_iff (hrelinked : inode.Relinked inode') : inode'.Inline ↔ inode.Inline := by
  obtain ⟨_, _, rfl⟩ := hrelinked
  exact Iff.rfl

theorem refs_eq (hrelinked : inode.Relinked inode') (c : Store UInt32) : refs c inode' = refs c inode := by
  rw [refs, refs, hrelinked.root_eq]

theorem mapped_eq (hrelinked : inode.Relinked inode') (c : Store UInt32) (j : Nat) :
    mapped c inode' j = mapped c inode j :=
  mapped_of_root hrelinked.root_eq c j

theorem inodeOk (hrelinked : inode.Relinked inode') (hok : InodeOk static fs inode) :
    InodeOk static fs inode' := by
  obtain ⟨_, _, rfl⟩ := hrelinked
  exact ⟨⟨hok.tree.1, hok.tree.2, hok.tree.3, hok.tree.4⟩, hok.2, hok.3⟩

end Inode.Relinked

/-- Inode `n` is the same in both states but for its link count and its time of modification. -/
structure SameBody (fs fs' : FsInfo) (n : UInt32) : Prop where
  record : (fs.record n).Relinked (fs'.record n)
  holes : fs.Owner n → ∀ j < fileBlkLimit,
    mapped fs'.entries (fs'.record n) j = 0 ↔ mapped fs.entries (fs.record n) j = 0
  bytes : fs.Owner n → ∀ k < (fs.record n).sizeLo.toNat,
    fs'.byte (fs'.record n) k = fs.byte (fs.record n) k

/-! ### Changes -/

/-- From `fs` to `fs'` inode `n` changed, which gave up the blocks `old` and took the blocks `new`. Of the other
inodes at most the link counts and the times changed. -/
structure Rework (static : UInt32 → Prop) (fs fs' : FsInfo) (n : UInt32) (old new : List UInt32) :
    Prop where
  mounted : Mounted static fs'
  geo : fs'.geo = fs.geo
  inodes : ∀ m, m ≠ n → fs'.marked .inode m = fs.marked .inode m
  others : ∀ m, fs.geo.Real .inode m → m ≠ n → (fs.record m).Relinked (fs'.record m)
  used : ∀ b, fs'.Used b ↔ (fs.Used b ∧ b ∉ old) ∨ b ∈ new
  fresh : ∀ b ∈ new, b ∉ old → ¬ fs.Used b
  data : ∀ b, fs.Used b → ¬ static b → b ∉ old → fs'.data b = fs.data b

/-- From `fs` to `fs'` only inode `n` changed, which gave up the blocks `old` and took the blocks
`new`. -/
structure Change (static : UInt32 → Prop) (fs fs' : FsInfo) (n : UInt32) (old new : List UInt32) :
    Prop where
  mounted : Mounted static fs'
  geo : fs'.geo = fs.geo
  inodes : ∀ m, m ≠ n → fs'.marked .inode m = fs.marked .inode m
  others : ∀ m, fs.geo.Real .inode m → m ≠ n → fs'.record m = fs.record m
  used : ∀ b, fs'.Used b ↔ (fs.Used b ∧ b ∉ old) ∨ b ∈ new
  fresh : ∀ b ∈ new, b ∉ old → ¬ fs.Used b
  data : ∀ b, fs.Used b → ¬ static b → b ∉ old → fs'.data b = fs.data b

namespace Change

theorem refl (hmounted : Mounted static fs) (n : UInt32) (hold : ∀ b ∈ old, fs.Used b) :
    Change static fs fs n old old := by
  have htrade := Trade.refl hmounted hold
  exact ⟨hmounted, rfl, fun _ _ => rfl, fun _ _ _ => rfl, htrade.used, htrade.fresh,
    fun _ _ _ _ => rfl⟩

theorem notMem_new (hchange : Change static fs fs' n old new) {b : UInt32} (hb : fs.Used b)
    (hold : b ∉ old) : b ∉ new :=
  fun hnew => hchange.fresh b hnew hold hb

theorem record_eq (hlayout : Layout static fs) (hgeo : fs'.geo = fs.geo)
    (hdata : ∀ b, static b → fs'.data b = fs.data b) {m : UInt32} (hm : fs.geo.Real .inode m) :
    fs'.record m = fs.record m := by
  rw [FsInfo.record, FsInfo.record, FsInfo.inodeSlot_of_geo hgeo, hdata _ (hlayout.static m hm)]

theorem trade (hchange : Change static fs fs' n old mid) (hlayout : Layout static fs)
    (hmid : ∀ b ∈ mid, ¬ static b) (htrade : Trade static mid new fs' fs'') :
    Change static fs fs'' n old new where
  mounted := htrade.frame.mounted
  geo := htrade.frame.geo.trans hchange.geo
  inodes m hm := by rw [htrade.frame.inodes, hchange.inodes m hm]
  others m hm hne := by
    rw [← hchange.others m hm hne]
    refine record_eq (hlayout.of_geo hchange.geo) htrade.frame.geo (fun b hb => ?_) ?_
    · exact htrade.frame.data b (hchange.mounted.used b hb) fun hmem => hmid b hmem hb
    · rw [hchange.geo]
      exact hm
  used b := by
    rw [htrade.used, hchange.used]
    constructor
    · rintro (⟨hb | hmem, hnot⟩ | hnew)
      · exact Or.inl hb
      · exact absurd hmem hnot
      · exact Or.inr hnew
    · rintro (⟨hb, hold⟩ | hnew)
      · exact Or.inl ⟨Or.inl ⟨hb, hold⟩, hchange.notMem_new hb hold⟩
      · exact Or.inr hnew
  fresh b hnew hold hb :=
    htrade.fresh b hnew (hchange.notMem_new hb hold) ((hchange.used b).mpr (Or.inl ⟨hb, hold⟩))
  data b hb hstatic hold := by
    rw [htrade.frame.data b ((hchange.used b).mpr (Or.inl ⟨hb, hold⟩)) (hchange.notMem_new hb hold),
      hchange.data b hb hstatic hold]

theorem stored (hchange : Change static fs fs' n old new) {inode : Inode}
    (hstored : Stored static fs' fs'' n inode) : Change static fs fs'' n old new where
  mounted := hstored.frame.mounted
  geo := hstored.frame.geo.trans hchange.geo
  inodes m hm := by rw [hstored.frame.inodes, hchange.inodes m hm]
  others m hm hne := by
    rw [hstored.others m (by rw [hchange.geo]; exact hm) hne, hchange.others m hm hne]
  used b := (hstored.used b).trans (hchange.used b)
  fresh := hchange.fresh
  data b hb hstatic hold := (hstored.data b hstatic).trans (hchange.data b hb hstatic hold)

theorem remarked (hchange : Change static fs fs' n old new) (hlayout : Layout static fs) {value : Bool}
    (hremarked : Remarked static fs' fs'' n value) : Change static fs fs'' n old new where
  mounted := hremarked.mounted
  geo := hremarked.geo.trans hchange.geo
  inodes m hm := by rw [hremarked.inodes, Function.update_of_ne hm, hchange.inodes m hm]
  others m hm hne := by
    rw [← hchange.others m hm hne]
    refine record_eq (hlayout.of_geo hchange.geo) hremarked.geo (fun b _ => ?_) ?_
    · rw [hremarked.data]
    · rw [hchange.geo]
      exact hm
  used b := (hremarked.used b).trans (hchange.used b)
  fresh := hchange.fresh
  data b hb hstatic hold := by rw [hremarked.data, hchange.data b hb hstatic hold]

theorem dirCounted (hchange : Change static fs fs' n old new) (hlayout : Layout static fs) {g : Nat}
    {cnt : UInt16} (hcounted : DirCounted static fs' fs'' g cnt) : Change static fs fs'' n old new where
  mounted := hcounted.mounted
  geo := hcounted.geo.trans hchange.geo
  inodes m hm := by rw [hcounted.marked, hchange.inodes m hm]
  others m hm hne := by
    rw [← hchange.others m hm hne]
    refine record_eq (hlayout.of_geo hchange.geo) hcounted.geo (fun b _ => ?_) ?_
    · rw [hcounted.data]
    · rw [hchange.geo]
      exact hm
  used b := by
    rw [FsInfo.Used, hcounted.marked]
    exact hchange.used b
  fresh := hchange.fresh
  data b hb hstatic hold := by rw [hcounted.data, hchange.data b hb hstatic hold]

theorem rework (hchange : Change static fs fs' n old new) : Rework static fs fs' n old new :=
  ⟨hchange.1, hchange.2, hchange.3, fun m hm hne => by rw [hchange.others m hm hne]; exact .refl _, hchange.5,
    hchange.6, hchange.7⟩

end Change

namespace Rework

theorem stored (hrework : Rework static fs fs' n old new) {inode : Inode}
    (hstored : Stored static fs' fs'' n inode) : Rework static fs fs'' n old new where
  mounted := hstored.frame.mounted
  geo := hstored.frame.geo.trans hrework.geo
  inodes m hm := by rw [hstored.frame.inodes, hrework.inodes m hm]
  others m hm hne := by
    rw [hstored.others m (by rw [hrework.geo]; exact hm) hne]
    exact hrework.others m hm hne
  used b := (hstored.used b).trans (hrework.used b)
  fresh := hrework.fresh
  data b hb hstatic hold := (hstored.data b hstatic).trans (hrework.data b hb hstatic hold)

theorem relinked (hrework : Rework static fs fs' n old new) {k : UInt32} {inode : Inode}
    (hrelinked : (fs'.record k).Relinked inode) (hstored : Stored static fs' fs'' k inode) :
    Rework static fs fs'' n old new where
  mounted := hstored.frame.mounted
  geo := hstored.frame.geo.trans hrework.geo
  inodes m hm := by rw [hstored.frame.inodes, hrework.inodes m hm]
  others m hm hne := by
    refine (hrework.others m hm hne).trans ?_
    by_cases heq : m = k
    · subst heq
      rwa [hstored.record]
    · rw [hstored.others m (by rw [hrework.geo]; exact hm) heq]
      exact .refl _
  used b := (hstored.used b).trans (hrework.used b)
  fresh := hrework.fresh
  data b hb hstatic hold := (hstored.data b hstatic).trans (hrework.data b hb hstatic hold)

end Rework

theorem FsInfo.real_of_marked {kind : Kind} {m : UInt32} (hm : fs.marked kind m = true) :
    fs.geo.Real kind m := by
  rw [FsInfo.marked, Bool.and_eq_true] at hm
  exact of_decide_eq_true hm.1

theorem InodeOk.of_data {inode : Inode} (hok : InodeOk static fs inode)
    (hused : ∀ b ∈ refs fs.entries inode, fs'.Used b)
    (hdata : ∀ b ∈ refs fs.entries inode, fs'.data b = fs.data b) :
    InodeOk static fs' inode ∧ refs fs'.entries inode = refs fs.entries inode ∧
      ∀ j < fileBlkLimit, SameData fs fs' inode inode j := by
  obtain ⟨htree, hrefs, hmapped⟩ := hok.tree.of_data hused fun b hb => hdata b (isNode_mem_refs hb)
  refine ⟨⟨htree, fun j hj hpast => ?_, ?_⟩, hrefs, fun j hj => ⟨hmapped j hj, fun hne => ?_⟩⟩
  · rw [hmapped j hj]
    exact hok.short j hj hpast
  · rw [hrefs]
    exact hok.sectors
  · exact hdata _ (mapped_mem_refs hj hne)

theorem InodeOk.root_eq_zero {inode : Inode} (hok : InodeOk static fs inode) {r : Nat} (hr : r < 15)
    (hpast : ∀ o, sizeBlocks inode.sizeLo ≤ indexOf r o) : inode.root r = 0 := by
  by_contra hne
  obtain ⟨o, ho, hfind⟩ := exists_find_ne_zero (hok.tree.full r hr) hne
  have hshort := hok.short _ (locate_indexOf hr ho).1 (hpast o)
  rw [mapped_indexOf _ _ hr ho] at hshort
  exact hfind hshort

theorem InodeOk.empty {inode : Inode} (hok : InodeOk static fs inode) (hsize : inode.sizeLo = 0) :
    inode.diskSectors = 0 ∧ (∀ r < 15, inode.root r = 0) ∧ refs fs.entries inode = [] := by
  have hroot : ∀ r < 15, inode.root r = 0 := fun r hr =>
    hok.root_eq_zero hr fun o => by rw [hsize]; exact Nat.zero_le _
  have hrefs : refs fs.entries inode = [] :=
    List.flatMap_eq_nil_iff.mpr fun r hr => by rw [hroot r (List.mem_range.mp hr), blocks_zero_ptr]
  have hsectors := hok.sectors
  rw [hrefs] at hsectors
  exact ⟨UInt32.toNat_inj.mp hsectors, hroot, hrefs⟩

theorem InodeOk.not_inline {inode : Inode} (hok : InodeOk static fs inode) {b : UInt32}
    (hb : b ∈ refs fs.entries inode) : ¬ inode.Inline := by
  intro hinline
  have hsectors := hok.sectors
  rw [hinline.2, UInt32.toNat_zero] at hsectors
  have hlength := List.length_pos_of_mem hb
  omega

section Consistent

variable (hcons : Consistent static fs) (hrework : Rework static fs fs' n old new)
  (hold : ∀ b, b ∈ old ↔ fs.Owner n ∧ b ∈ fs.owns n)

include hcons hrework hold

theorem Rework.other {m : UInt32} (hm : fs.Owner m) (hne : m ≠ n) :
    fs'.Owner m ∧ fs'.owns m = fs.owns m ∧ InodeOk static fs' (fs'.record m) ∧ SameBody fs fs' m := by
  have hreal := FsInfo.real_of_marked hm.1
  have hrecord := hrework.others m hreal hne
  have hinode := hcons.inode m hm
  have hapart : ∀ b ∈ fs.owns m, b ∉ old := fun b hb hmem =>
    hcons.apart m n hm ((hold b).mp hmem).1 hne hb ((hold b).mp hmem).2
  have hused : ∀ b ∈ fs.owns m, fs'.Used b := fun b hb =>
    (hrework.used b).mpr (Or.inl ⟨hinode.tree.used b hb, hapart b hb⟩)
  have hdata : ∀ b ∈ fs.owns m, fs'.data b = fs.data b := fun b hb =>
    hrework.data b (hinode.tree.used b hb) (hinode.tree.notStatic b hb) (hapart b hb)
  obtain ⟨hok, hrefs, hsame⟩ := hinode.of_data hused hdata
  refine ⟨⟨?_, ?_⟩, ?_, ?_, hrecord, fun _ j hj => ?_, fun _ k hk => ?_⟩
  · rw [hrework.inodes m hne]
    exact hm.1
  · rw [hrecord.inline_iff]
    exact hm.2
  · rw [FsInfo.owns, hrecord.refs_eq]
    exact hrefs
  · exact hrecord.inodeOk hok
  · rw [hrecord.mapped_eq, (hsame j hj).1]
  · refine ((hsame _ ?_).of_root hrecord.root_eq).byte_eq
    have hlt := (fs.record m).sizeLo.toNat_lt
    rw [blockSize, fileBlkLimit]
    omega

variable (hnew : ∀ b, b ∈ new ↔ fs'.Owner n ∧ b ∈ fs'.owns n)
  (hok : fs'.Owner n → InodeOk static fs' (fs'.record n))

omit hcons hold in
theorem Rework.owner_iff {m : UInt32} (hne : m ≠ n) : fs'.Owner m ↔ fs.Owner m := by
  rw [FsInfo.Owner, FsInfo.Owner, hrework.inodes m hne]
  refine and_congr_right fun hm => ?_
  rw [(hrework.others m (FsInfo.real_of_marked hm) hne).inline_iff]

include hnew hok

theorem Rework.consistent : Consistent static fs' := by
  refine ⟨hrework.mounted, hcons.layout.of_geo hrework.geo, fun m hm => ?_, fun m k hm hk hne => ?_,
    fun b hb => ?_⟩
  · by_cases heq : m = n
    · subst heq
      exact hok hm
    · exact (hrework.other hcons hold ((hrework.owner_iff heq).mp hm) heq).2.2.1
  · -- The blocks of `n` are its own old ones or were free, so no other inode has them.
    have hnone : ∀ m', fs'.Owner m' → m' ≠ n → fs'.Owner n → ∀ b ∈ fs'.owns m', b ∉ fs'.owns n := by
      intro m' hm' hne' hn b hb hbn
      have hm := (hrework.owner_iff hne').mp hm'
      rw [(hrework.other hcons hold hm hne').2.1] at hb
      by_cases hmem : b ∈ old
      · exact hcons.apart m' n hm ((hold b).mp hmem).1 hne' hb ((hold b).mp hmem).2
      · exact hrework.fresh b ((hnew b).mpr ⟨hn, hbn⟩) hmem ((hcons.inode m' hm).tree.used b hb)
    intro b hbm hbk
    by_cases hmn : m = n
    · subst hmn
      exact hnone k hk (Ne.symm hne) hm b hbk hbm
    by_cases hkn : k = n
    · subst hkn
      exact hnone m hm hmn hk b hbm hbk
    have hm' := (hrework.owner_iff hmn).mp hm
    have hk' := (hrework.owner_iff hkn).mp hk
    rw [(hrework.other hcons hold hm' hmn).2.1] at hbm
    rw [(hrework.other hcons hold hk' hkn).2.1] at hbk
    exact hcons.apart m k hm' hk' hne hbm hbk
  · obtain ⟨hkept, hnot⟩ | htaken := (hrework.used b).mp hb
    · refine (hcons.covered b hkept).imp_right fun howned => ?_
      obtain ⟨m, hm, hmem⟩ := howned
      have hne : m ≠ n := by
        rintro rfl
        exact hnot ((hold b).mpr ⟨hm, hmem⟩)
      obtain ⟨hm', howns, -⟩ := hrework.other hcons hold hm hne
      exact ⟨m, hm', by rwa [howns]⟩
    · exact Or.inr ⟨n, (hnew b).mp htaken⟩

omit hnew hok in
theorem Rework.sameBody {m : UInt32} (hreal : fs.geo.Real .inode m) (hne : m ≠ n) : SameBody fs fs' m :=
  ⟨hrework.others m hreal hne, fun hm => (hrework.other hcons hold hm hne).2.2.2.holes hm,
    fun hm => (hrework.other hcons hold hm hne).2.2.2.bytes hm⟩

omit hrework hnew hok in
theorem Change.sameFile (hchange : Change static fs fs' n old new) {m : UInt32} (hreal : fs.geo.Real .inode m)
    (hne : m ≠ n) : SameFile fs fs' m :=
  ⟨hchange.others m hreal hne, (hchange.rework.sameBody hcons hold hreal hne).holes,
    (hchange.rework.sameBody hcons hold hreal hne).bytes⟩

end Consistent

/-! ### Whole operations -/

structure ChangedOnly (static : UInt32 → Prop) (fs fs' : FsInfo) (n : UInt32) : Prop where
  consistent : Consistent static fs'
  geo : fs'.geo = fs.geo
  marks : ∀ m, m ≠ n → fs'.marked .inode m = fs.marked .inode m
  others : ∀ m, fs.geo.Real .inode m → m ≠ n → SameFile fs fs' m

structure Edited (static : UInt32 → Prop) (fs fs' : FsInfo) (n : UInt32) : Prop
    extends ChangedOnly static fs fs' n where
  mark : fs'.marked .inode n = fs.marked .inode n
  dirCnt : fs'.dirCnt = fs.dirCnt

theorem SameFile.refl (fs : FsInfo) (n : UInt32) : SameFile fs fs n :=
  ⟨rfl, fun _ _ _ => Iff.rfl, fun _ _ _ => rfl⟩

structure Kept (static : UInt32 → Prop) (fs fs' : FsInfo) : Prop where
  consistent : Consistent static fs'
  geo : fs'.geo = fs.geo
  marks : fs'.marked .inode = fs.marked .inode
  dirCnt : fs'.dirCnt = fs.dirCnt
  used : ∀ b, fs'.Used b ↔ fs.Used b
  files : ∀ m, fs.geo.Real .inode m → SameFile fs fs' m

theorem Kept.refl (hcons : Consistent static fs) : Kept static fs fs :=
  ⟨hcons, rfl, rfl, rfl, fun _ => Iff.rfl, fun m _ => SameFile.refl fs m⟩

theorem Edited.kept (hedited : Edited static fs fs' n) (hsame : SameFile fs fs' n)
    (hused : ∀ b, fs'.Used b ↔ fs.Used b) : Kept static fs fs' := by
  refine ⟨hedited.consistent, hedited.geo, funext fun m => ?_, hedited.dirCnt, hused, fun m hm => ?_⟩
  · by_cases heq : m = n
    · rw [heq, hedited.mark]
    · exact hedited.marks m heq
  · by_cases heq : m = n
    · rw [heq]
      exact hsame
    · exact hedited.others m hm heq

/-- The blocks of inode `n` were exchanged, which led to `fs₁`, and then `inode` was stored as its record. -/
structure Rebuilt (static : UInt32 → Prop) (fs fs₁ fs' : FsInfo) (n : UInt32) (inode : Inode) : Prop
    extends Edited static fs fs' n where
  record : fs'.record n = inode
  owns : fs'.owns n = refs fs₁.entries inode
  used : ∀ b, fs'.Used b ↔ fs₁.Used b
  same : ∀ j < fileBlkLimit, SameData fs₁ fs' inode inode j

section Operations

variable {inode : Inode} {fs₁ : FsInfo} (hcons : Consistent static fs) (howner : fs.Owner n)

include hcons howner

theorem Consistent.rebuilt (htrade : Trade static (fs.owns n) (refs fs₁.entries inode) fs fs₁)
    (hok : InodeOk static fs₁ inode) (hstored : Stored static fs₁ fs' n inode) :
    Rebuilt static fs fs₁ fs' n inode := by
  have hinode := hcons.inode n howner
  have hstart := Change.refl hcons.mounted n hinode.tree.used
  have hchange := (hstart.trade hcons.layout hinode.tree.notStatic htrade).stored hstored
  obtain ⟨hok', hrefs, hsame⟩ := hok.of_data (fun b hb => (hstored.used b).mpr (hok.tree.used b hb))
    fun b hb => hstored.data b (hok.tree.notStatic b hb)
  have hmarked : fs'.marked .inode n = true := by
    rw [hstored.frame.inodes, htrade.frame.inodes]
    exact howner.1
  have hold : ∀ b, b ∈ fs.owns n ↔ fs.Owner n ∧ b ∈ fs.owns n := fun b => (and_iff_right howner).symm
  have hnew : ∀ b, b ∈ refs fs₁.entries inode ↔ fs'.Owner n ∧ b ∈ fs'.owns n := by
    intro b
    rw [FsInfo.owns, FsInfo.Owner, hstored.record, hrefs, and_assoc, and_iff_right hmarked]
    exact ⟨fun hb => ⟨hok.not_inline hb, hb⟩, And.right⟩
  refine ⟨⟨⟨hchange.rework.consistent hcons hold hnew fun _ => ?_, hchange.geo, hchange.inodes,
    fun m hm hne => hchange.sameFile hcons hold hm hne⟩, hmarked.trans howner.1.symm,
    hstored.frame.dirCnt.trans htrade.frame.dirCnt⟩, hstored.record, ?_, hstored.used, hsame⟩
  · rw [hstored.record]
    exact hok'
  · rw [FsInfo.owns, hstored.record, hrefs]

theorem Consistent.record_eq_of_trade {new : List UInt32} (htrade : Trade static (fs.owns n) new fs fs') {m : UInt32}
    (hm : fs.geo.Real .inode m) : fs'.record m = fs.record m :=
  Change.record_eq hcons.layout htrade.frame.geo
    (fun b hb => htrade.frame.data b (hcons.mounted.used b hb) fun hmem =>
      (hcons.inode n howner).tree.notStatic b hmem hb) hm

theorem Consistent.regrown
    (htrade : Trade static (fs.owns n) (refs fs'.entries (fs.record n)) fs fs')
    (hok : InodeOk static fs' (fs.record n)) : Edited static fs fs' n := by
  have hinode := hcons.inode n howner
  have hstart := Change.refl hcons.mounted n hinode.tree.used
  have hchange := hstart.trade hcons.layout hinode.tree.notStatic htrade
  have hrecord := hcons.record_eq_of_trade howner htrade (FsInfo.real_of_marked howner.1)
  have howner' : fs'.Owner n := by
    rw [FsInfo.Owner, htrade.frame.inodes, hrecord]
    exact howner
  have hold : ∀ b, b ∈ fs.owns n ↔ fs.Owner n ∧ b ∈ fs.owns n := fun b => (and_iff_right howner).symm
  refine ⟨⟨hchange.rework.consistent hcons hold (fun b => ?_) fun _ => ?_, hchange.geo, hchange.inodes,
    fun m hm hne => hchange.sameFile hcons hold hm hne⟩, by rw [htrade.frame.inodes], htrade.frame.dirCnt⟩
  · rw [FsInfo.owns, hrecord]
    exact (and_iff_right howner').symm
  · rw [hrecord]
    exact hok

end Operations

theorem Consistent.remounted (hcons : Consistent static fs) (n : UInt32) :
    Consistent static { fs with mountpoint := n } := by
  have hvalid := hcons.mounted.sound.geo
  have hagree := hcons.mounted.sound.agree
  have hsound : FsInfo.Sound { fs with mountpoint := n } :=
    ⟨⟨hvalid.1, hvalid.2, hvalid.3, hvalid.4, hvalid.5, hvalid.6, hvalid.7, hvalid.8, hvalid.9, hvalid.10,
      hvalid.11⟩, ⟨hagree.1, hagree.2, hagree.3, hagree.4, hagree.5, hagree.6⟩⟩
  have hlayout := hcons.layout
  refine ⟨⟨hsound, hcons.mounted.2, hcons.mounted.3, hcons.mounted.4⟩,
    ⟨hlayout.1, hlayout.2, hlayout.3, hlayout.4, hlayout.5⟩, fun m hm => ?_, hcons.apart, hcons.covered⟩
  have hok := hcons.inode m hm
  exact ⟨⟨hok.tree.1, hok.tree.2, hok.tree.3, hok.tree.4⟩, hok.2, hok.3⟩

end DeprecatOS
