import DeprecatOS.Proof.DirMap
import DeprecatOS.Proof.PathText

/-!
# Path resolution

One pass of `lookup_path` over a text is a walk in the name space of the mounted filesystems that stops at the first link
it has to follow. The next pass is over the text with the target spliced in; it comes through the same directories to
where the link was, or starts with an absolute target. So the passes together resolve the path.
-/

namespace DeprecatOS

open Bytes Bits Fault PointerTree NameSpace

variable {static : Slot → UInt32 → Prop} {m : Machine} {i : Slot} {n d : UInt32} {place next : Place} {c : Name}

/-! ### Places -/

theorem GoodFs.readable {fixed : UInt32 → Prop} {fs : FsInfo} (hgood : GoodFs fixed fs) : ReadableFs fixed fs where
  mounted := hgood.consistent.mounted
  layout := hgood.consistent.layout
  tree n hn := (hgood.consistent.inode n hn).tree
  root := hgood.root
  dir := hgood.dir
  named n hn e he c hc := ((hgood.names n hn e he).2.2 c hc).1
  entry := hgood.entry
  link := hgood.link

theorem ReadableFs.child_marked {fixed : UInt32 → Prop} {fs : FsInfo} (hgood : ReadableFs fixed fs)
    (hmark : fs.marked .inode d = true) (hchild : fs.space.child d c = some n) : fs.marked .inode n = true := by
  simp only [FsInfo.space] at hchild
  split_ifs at hchild with hbad
  rw [not_or, not_not] at hbad
  obtain ⟨e, he, rfl⟩ := Option.map_eq_some_iff.mp hchild
  exact hgood.entry d ⟨hmark, hbad.2⟩ e (findEntry_some he).1

namespace Machine

theorem Readable.valid_root (hread : m.Readable static) : m.Valid m.visible.root :=
  ⟨.inl rfl, (hread.fs m.rootFs (.inl rfl)).root.1⟩

theorem Readable.valid_mntRoot (hread : m.Readable static) (hvalid : m.Valid place) :
    m.Valid (m.mntRoot place.1 place.2).2 := by
  rw [mntRoot]
  split_ifs with hroot
  · exact hvalid
  · cases hfind : (List.finRange 8).find? fun part => (m.fsEntries part).mountpoint = place.2 with
    | none => exact hvalid
    | some part =>
      have hmount : (m.fsEntries part).mountpoint = place.2 := by simpa using List.find?_some hfind
      have hne : place.2 ≠ 0 := (UInt32.ne_of_lt (FsInfo.real_of_marked hvalid.2).1).symm
      have hlive : m.Live part := .inr (by rwa [hmount])
      exact ⟨hlive, (hread.fs part hlive).root.1⟩

theorem Readable.isDir_mntRoot (hread : m.Readable static) (hdir : (m.fsEntries place.1).IsDir place.2) :
    (m.fsEntries (m.mntRoot place.1 place.2).2.1).IsDir (m.mntRoot place.1 place.2).2.2 := by
  rw [mntRoot]
  split_ifs with hroot
  · exact hdir
  · cases hfind : (List.finRange 8).find? fun part => (m.fsEntries part).mountpoint = place.2 with
    | none => exact hdir
    | some part =>
      have hmount : (m.fsEntries part).mountpoint = place.2 := by simpa using List.find?_some hfind
      have hne : place.2 ≠ 0 := (UInt32.ne_of_lt (FsInfo.real_of_marked hdir.1).1).symm
      exact (hread.fs part (.inr (by rwa [hmount]))).root

theorem Readable.valid_mntMountpoint (hread : m.Readable static) (hvalid : m.Valid place) :
    m.Valid (m.mntMountpoint place.1 place.2).2 := by
  rw [mntMountpoint]
  split_ifs with hstay
  · exact hvalid
  · rw [not_or] at hstay
    exact ⟨.inl rfl, (hread.mountpoint place.1 (hvalid.1.resolve_left hstay.1)).1⟩

theorem visible_child_eq_some (hchild : m.visible.child place c = some next) : m.space.child place c = some next := by
  simp only [visible] at hchild
  split_ifs at hchild
  exact hchild

theorem Readable.valid_child (hread : m.Readable static) (hvalid : m.Valid place)
    (hchild : m.visible.child place c = some next) : m.Valid next := by
  obtain ⟨hlive, hmark⟩ := hread.valid_mntRoot hvalid
  obtain ⟨n, hn, rfl⟩ := Option.map_eq_some_iff.mp (visible_child_eq_some hchild)
  have hvalidChild : m.Valid ((m.mntRoot place.1 place.2).2.1, n) := ⟨hlive, (hread.fs _ hlive).child_marked hmark hn⟩
  exact hread.valid_mntMountpoint hvalidChild

theorem visible_child (m : Machine) (place : Place) (c : Name) : m.visible.child place c =
    if nameLen ≤ c.length ∨ ((m.fsEntries (m.mntRoot place.1 place.2).2.1).record
        (m.mntRoot place.1 place.2).2.2).type ≠ inodeDirType then none
    else (if c.all (· < 128) then (m.fsEntries (m.mntRoot place.1 place.2).2.1).child (m.mntRoot place.1 place.2).2.2 c
      else none).map fun n => (m.mntMountpoint (m.mntRoot place.1 place.2).2.1 n).2 := by
  simp only [visible, space, FsInfo.space]
  split_ifs <;> rfl

theorem Readable.link_mntMountpoint (hread : m.Readable static) (hvalid : m.Valid place) :
    (m.mntMountpoint place.1 place.2).2 = place ∨
      ((m.fsEntries place.1).record place.2).type ≠ inodeSymlinkType ∧
        m.visible.link (m.mntMountpoint place.1 place.2).2 = none := by
  rw [mntMountpoint]
  split_ifs with hstay
  · exact .inl rfl
  · rw [not_or, not_not] at hstay
    have hroot := (hread.fs place.1 hvalid.1).root.2
    have hmount := (hread.mountpoint place.1 (hvalid.1.resolve_left hstay.1)).2
    refine .inr ⟨?_, ?_⟩
    · rw [hstay.2, hroot]
      decide
    · simp only [visible, space, FsInfo.space]
      rw [hmount, if_neg (by decide)]

end Machine

/-! ### One component -/

theorem getInode_run_valid (hread : m.Readable static) (hvalid : m.Valid place) :
    onFs place.1 (getInode place.2) m = .ok (some ((m.fsEntries place.1).record place.2), m) := by
  have hfs := hread.fs place.1 hvalid.1
  exact onFs_run_read (getInode_run hfs.mounted hfs.layout (FsInfo.real_of_marked hvalid.2))

theorem lookupInBlocks_run_valid (hread : m.Readable static) (hvalid : m.Valid place)
    (htype : ((m.fsEntries place.1).record place.2).type = inodeDirType) (name : Buf) :
    onFs place.1 (lookupInBlocks ((m.fsEntries place.1).record place.2) name
      (blocksFor ((m.fsEntries place.1).record place.2).sizeLo).toNat 0) m =
        .ok (if (nameOf name).all (· < 128) then (m.fsEntries place.1).child place.2 (nameOf name) else none, m) := by
  have hfs := hread.fs place.1 hvalid.1
  have hdir : (m.fsEntries place.1).IsDir place.2 := ⟨hvalid.2, htype⟩
  have htree := hfs.tree place.2 (FsInfo.owner_of_dir hvalid.2 htype)
  have hseven : (nameOf name).all (· < 128) = true ↔ SevenBit name := by
    simp only [List.all_eq_true, decide_eq_true_eq, SevenBit]
  refine onFs_run_read ?_
  rw [lookupInBlocks_run hfs.mounted htree (hfs.dir _ hdir)]
  split_ifs with hall
  · exact nameIn_run hfs.mounted htree (hfs.dir _ hdir) fun e he => ⟨hfs.named _ hdir e he, .inr (hseven.mp hall)⟩
  · exact nameIn_eightBit hfs.mounted htree (hfs.dir _ hdir) (mt hseven.mpr hall)

theorem length_target (fs : FsInfo) (inode : Inode) : (fs.target inode).length = inode.sizeLo.toNat := by
  rw [FsInfo.target, List.length_map, List.length_range]

theorem ReadableFs.linkText_run {fixed : UInt32 → Prop} {fs : FsInfo} (hgood : ReadableFs fixed fs)
    (hmark : fs.marked .inode n = true) (htype : (fs.record n).type = inodeSymlinkType) :
    ∃ text : Buf, linkText (fs.record n) fs = .ok (text, fs) ∧
      ∀ k < (fs.target (fs.record n)).length, text k = cstr (fs.target (fs.record n)) k := by
  have hlink := hgood.link n hmark htype
  have hchar : ∀ k < (fs.record n).sizeLo.toNat, cstr (fs.target (fs.record n)) k =
      if (fs.record n).diskSectors = 0 then (fs.record n).store zero 0 (40 + k) else fs.byte (fs.record n) k := by
    intro k hk
    rw [cstr_of_lt (by rwa [length_target])]
    simp [FsInfo.target]
  rw [linkText, length_target]
  by_cases hinline : (fs.record n).diskSectors = 0
  · rw [if_pos hinline]
    refine ⟨_, rfl, fun k hk => ?_⟩
    rw [hchar k hk, if_pos hinline]
  · rw [if_neg hinline]
    obtain ⟨hsize, hmapped⟩ := hlink.block hinline
    have htree := hgood.tree n ⟨hmark, fun h => hinline h.2⟩
    have hmem := mapped_mem_refs (show 0 < fileBlkLimit by decide) hmapped
    have hread := hgood.mounted.readBlock_data (htree.used _ hmem) (htree.notStatic _ hmem)
    rw [mapped_direct fs.entries (fs.record n) (show 0 < 12 by decide)] at hread
    refine ⟨_, hread, fun k hk => ?_⟩
    have hdiv : k / blockSize = 0 := Nat.div_eq_of_lt (hk.trans hsize)
    rw [hchar k hk, if_neg hinline, FsInfo.byte, hdiv, if_neg hmapped, Nat.mod_eq_of_lt (hk.trans hsize),
      mapped_direct fs.entries (fs.record n) (show 0 < 12 by decide)]

/-! ### One pass -/

/-- The end of a pass that corresponds to the stop of a walk. At a link the new text takes over, unless it is too
long. -/
def Ends (stop : Hop Place UInt8) (result : PathWalk) : Prop :=
  match stop with
  | .failed => result = .failed
  | .found place => result = .arrived place.1 place.2
  | .link _ before rest =>
    ([slash].intercalate (before ++ rest)).head? = some slash ∧ (∀ c ∈ before ++ rest, slash ∉ c) ∧
      if ([slash].intercalate (before ++ rest)).length < pathLen then
        ∃ p, result = .spliced p ∧ HoldsText p ([slash].intercalate (before ++ rest))
      else result = .failed

/-- The place in the text: the components `before`, each with its slash, stand before `ind`, and `comps` from there on;
or the text is over. -/
def AtIndex (text : Text) (before comps : List Name) (ind : Nat) : Prop :=
  (comps = [] ∧ text.length ≤ ind) ∨
    (comps ≠ [] ∧ text = before.flatMap (· ++ [slash]) ++ [slash].intercalate comps ∧
      ind = (before.flatMap (· ++ [slash])).length)

theorem AtIndex.forward {text : Text} {before rest : List Name} {ind : Nat} (hat : AtIndex text before (c :: rest) ind) :
    AtIndex text (before ++ [c]) rest (ind + c.length + 1) := by
  obtain ⟨hnil, -⟩ | ⟨-, htext, rfl⟩ := hat
  · cases hnil
  rw [intercalate_cons] at htext
  cases rest with
  | nil =>
    refine .inl ⟨rfl, ?_⟩
    rw [htext, List.length_append, List.flatMap_nil, List.append_nil]
    omega
  | cons c' rest =>
    refine .inr ⟨List.cons_ne_nil _ _, ?_, ?_⟩
    · rw [htext, List.flatMap_append, intercalate_cons, List.flatMap_cons]
      simp
    · rw [List.flatMap_append, List.length_append]
      simp
      omega

theorem AtIndex.split {text : Text} {before rest : List Name} {ind : Nat} (hat : AtIndex text before (c :: rest) ind)
    (hsep : slash ∉ c) :
    SplitAt text (before.flatMap (· ++ [slash])) c (rest.flatMap (slash :: ·)) ∧
      ind = (before.flatMap (· ++ [slash])).length := by
  obtain ⟨hnil, -⟩ | ⟨-, htext, rfl⟩ := hat
  · cases hnil
  refine ⟨⟨?_, hsep, ?_⟩, rfl⟩
  · rw [htext, intercalate_cons]
  · cases rest with
    | nil => exact .inl rfl
    | cons c' rest => exact .inr ⟨_, rfl⟩

theorem Ends.of_splice {kept rest : List Name} {target : Text} {spliced : Option Buf}
    (hsplice : if (kept.flatMap (· ++ [slash]) ++ (target ++ rest.flatMap (slash :: ·))).length < pathLen then
        ∃ p, spliced = some p ∧ HoldsText p (kept.flatMap (· ++ [slash]) ++ (target ++ rest.flatMap (slash :: ·)))
      else spliced = none)
    (hhead : (kept.flatMap (· ++ [slash]) ++ (target ++ rest.flatMap (slash :: ·))).head? = some slash)
    (hkept : ∀ c ∈ kept, slash ∉ c) (hrest : ∀ c ∈ rest, slash ∉ c) (dir : Place) :
    Ends (.link dir kept (target.splitOn slash ++ rest)) (spliced.elim .failed .spliced) := by
  have hne : target.splitOn slash ++ rest ≠ [] :=
    List.append_ne_nil_of_left_ne_nil (List.splitOn_ne_nil slash target) rest
  have htext : [slash].intercalate (kept ++ (target.splitOn slash ++ rest)) =
      kept.flatMap (· ++ [slash]) ++ (target ++ rest.flatMap (slash :: ·)) := by
    rw [intercalate_append slash kept hne, intercalate_splitOn_append]
  rw [Ends, htext]
  refine ⟨hhead, fun c hc => ?_, ?_⟩
  · rcases List.mem_append.mp hc with hc | hc
    · exact hkept c hc
    · rcases List.mem_append.mp hc with hc | hc
      · exact notMem_of_mem_splitOn slash hc
      · exact hrest c hc
  · split_ifs at hsplice ⊢ with hshort
    · obtain ⟨p, rfl, hholds⟩ := hsplice
      exact ⟨p, rfl, hholds⟩
    · rw [hsplice]
      rfl

section Pass

variable (hread : m.Readable static) (follow : Bool) (stack : Buf) {p : Buf} {text : Text} (hholds : HoldsText p text)

include hread hholds

theorem spliceLink_run {before rest : List Name} {ind : Nat} (hat : AtIndex text before (c :: rest) ind)
    (hstart : before.head? = some []) (hsep : ∀ c' ∈ before ++ c :: rest, slash ∉ c') (hvalid : m.Valid next)
    {target : Text} (hlink : m.visible.link next = some target) (dir : Place) :
    ∃ result, spliceLink next.1 ((m.fsEntries next.1).record next.2) p ind (ind + c.length) text.length m =
        .ok (result, m) ∧
      Ends (if target.head? = some slash then .link m.visible.root [] (target.splitOn slash ++ rest)
        else .link dir before (target.splitOn slash ++ rest)) result := by
  have hfs := hread.fs next.1 hvalid.1
  simp only [Machine.visible, Machine.space, FsInfo.space] at hlink
  split_ifs at hlink with htype
  obtain rfl := Option.some.inj hlink
  have hok := hfs.link next.2 hvalid.2 htype
  obtain ⟨buf, htext, hchars⟩ := hfs.linkText_run hvalid.2 htype
  have hlength := length_target (m.fsEntries next.1) ((m.fsEntries next.1).record next.2)
  obtain ⟨target, htarget⟩ : ∃ target, target = (m.fsEntries next.1).target ((m.fsEntries next.1).record next.2) :=
    ⟨_, rfl⟩
  have hzero : ∀ x ∈ target, x ≠ 0 := htarget ▸ hok.text
  rw [← htarget] at hchars hlength ⊢
  have hne : target ≠ [] := by
    rintro rfl
    have := hok.pos
    simp at hlength
    omega
  obtain ⟨hsplit, rfl⟩ := hat.split (hsep c (by simp))
  refine ⟨(splicePath p (before.flatMap (· ++ [slash])).length
    ((before.flatMap (· ++ [slash])).length + c.length) text.length buf target.length).elim .failed .spliced, ?_, ?_⟩
  · rw [spliceLink, run_bind_ok (onFs_run_read htext), ← hlength]
    rw [if_neg (by
      rintro ⟨hinline, hlong⟩
      have := hok.short hinline
      rw [maxSymlinkLen] at this
      omega)]
    cases splicePath p _ _ text.length buf target.length <;> rfl
  · have hbefore : ∀ c' ∈ before, slash ∉ c' := fun c' hc' => hsep c' (List.mem_append_left _ hc')
    have hrest : ∀ c' ∈ rest, slash ∉ c' := fun c' hc' =>
      hsep c' (List.mem_append_right _ (List.mem_cons_of_mem c hc'))
    split_ifs with habsolute
    · have hnone : ∀ c' ∈ ([] : List Name), slash ∉ c' := fun c' hc' => absurd hc' List.not_mem_nil
      refine Ends.of_splice (hsplit.splicePath_eq hholds hchars hzero hne ?_) ?_ hnone hrest _
      · rw [if_pos habsolute]
        rfl
      · rw [List.flatMap_nil, List.nil_append, List.head?_append, habsolute]
        rfl
    · refine Ends.of_splice (hsplit.splicePath_eq hholds hchars hzero hne ?_) ?_ hbefore hrest _
      · rw [if_neg habsolute]
      · obtain ⟨more, rfl⟩ := List.head?_eq_some_iff.mp hstart
        rfl

theorem walkPath_child {before rest : List Name} {ind : Nat} (hat : AtIndex text before (c :: rest) ind)
    (hsep : slash ∉ c) (hc : c ≠ []) (hvalid : m.Valid place) (fuel : Nat) :
    walkPath follow stack p text.length (fuel + 1) ind place.1 place.2 m =
      match m.visible.child place c with
      | none => .ok (.failed, m)
      | some next =>
        if rest = [] ∧ follow = false then .ok (.arrived next.1 next.2, m)
        else
          match m.visible.link next with
          | none => walkPath follow stack p text.length fuel (ind + c.length + 1) next.1 next.2 m
          | some _ => spliceLink next.1 ((m.fsEntries next.1).record next.2) p ind (ind + c.length) text.length m := by
  obtain ⟨hsplit, rfl⟩ := hat.split hsep
  have hlength := hsplit.length_eq
  have hpos := List.length_pos_iff.mpr hc
  obtain ⟨ind, hind⟩ : ∃ ind, ind = (before.flatMap (· ++ [slash])).length := ⟨_, rfl⟩
  have hend := hsplit.componentEnd_eq hholds (by omega)
  have hname := hsplit.nameOf_eq hholds stack
  rw [← hind] at hlength hend hname ⊢
  have hlast : ind + c.length = text.length ↔ rest = [] := by
    cases rest with
    | nil => simpa using hlength.symm
    | cons c' rest =>
      rw [List.flatMap_cons, List.length_append, List.length_cons] at hlength
      simp
      omega
  rw [walkPath, if_pos (by omega)]
  simp only [hend, Nat.add_sub_cancel_left]
  rw [if_neg (by omega), m.visible_child]
  by_cases hlong : nameLen ≤ c.length
  · rw [if_pos hlong, if_pos (.inl hlong)]
    rfl
  rw [if_neg hlong]
  obtain ⟨dir, hdir⟩ : ∃ dir, dir = (m.mntRoot place.1 place.2).2 := ⟨_, rfl⟩
  have hvalidDir : m.Valid dir := hdir ▸ hread.valid_mntRoot hvalid
  rw [run_bind_ok (returnMntRoot_run hdir.symm), ← hdir]
  simp only []
  rw [run_bind_ok (getInode_run_valid hread hvalidDir)]
  simp only []
  by_cases htype : ((m.fsEntries dir.1).record dir.2).type ≠ inodeDirType
  · rw [if_pos htype, if_pos (.inr htype)]
    rfl
  rw [if_neg htype, if_neg (not_or.mpr ⟨hlong, htype⟩),
    run_bind_ok (lookupInBlocks_run_valid hread hvalidDir (not_not.mp htype) _), hname (Nat.lt_of_not_le hlong)]
  cases hfound : (if c.all (· < 128) then (m.fsEntries dir.1).child dir.2 c else none) with
  | none => rfl
  | some n =>
    have hchild : (m.fsEntries dir.1).space.child dir.2 c = some n := by
      rw [FsInfo.space]
      dsimp only
      rw [if_neg (not_or.mpr ⟨hlong, htype⟩)]
      split_ifs at hfound
      exact hfound
    have hvalidChild : m.Valid (dir.1, n) :=
      ⟨hvalidDir.1, (hread.fs dir.1 hvalidDir.1).child_marked hvalidDir.2 hchild⟩
    simp only [Option.map_some]
    rw [run_bind_ok (getInode_run_valid hread hvalidChild)]
    simp only []
    rw [run_bind_ok (show returnMntMountpoint dir.1 n m = .ok (m.mntMountpoint dir.1 n, m) from rfl)]
    simp only [hlast]
    obtain hstay | ⟨hno, hlink⟩ := hread.link_mntMountpoint hvalidChild
    · dsimp only at hstay
      simp only [hstay, Machine.visible, Machine.space, FsInfo.space]
      split_ifs with hleaf hlink
      · rfl
      · rfl
      · rfl
    · rw [hlink, if_neg hno]
      split_ifs with hleaf
      · rfl
      · rfl

theorem walkPath_run {before comps : List Name} {ind fuel : Nat} (hat : AtIndex text before comps ind)
    (hstart : before.head? = some []) (hsep : ∀ c ∈ before ++ comps, slash ∉ c) (hvalid : m.Valid place)
    (hfuel : comps.length < fuel) :
    ∃ result, walkPath follow stack p text.length fuel ind place.1 place.2 m = .ok (result, m) ∧
      Ends (m.visible.walk slash follow place before comps) result := by
  induction comps generalizing before ind fuel place with
  | nil =>
    obtain ⟨fuel, rfl⟩ := Nat.exists_eq_add_of_lt hfuel
    obtain ⟨-, hover⟩ | ⟨hne, -⟩ := hat
    · refine ⟨.arrived place.1 place.2, ?_, rfl⟩
      rw [List.length_nil, Nat.zero_add, walkPath, if_neg (Nat.not_lt.mpr hover)]
      rfl
    · exact absurd rfl hne
  | cons c rest ih =>
    cases fuel with
    | zero => cases hfuel
    | succ fuel =>
      rw [List.length_cons, Nat.add_lt_add_iff_right] at hfuel
      have hsepc : slash ∉ c := hsep c (List.mem_append_right _ List.mem_cons_self)
      have hsep' : ∀ c' ∈ (before ++ [c]) ++ rest, slash ∉ c' := by
        rwa [List.append_assoc, List.singleton_append]
      have hstart' : (before ++ [c]).head? = some [] := by rw [List.head?_append, hstart, Option.some_or]
      by_cases hc : c = []
      · rw [Space.walk, if_pos hc]
        have hnext := ih hat.forward hstart' hsep' hvalid hfuel
        obtain ⟨hsplit, hind⟩ := hat.split hsepc
        have hlength := hsplit.length_eq
        rw [← hind] at hlength
        rw [walkPath]
        by_cases hlt : ind < text.length
        · have hend := hsplit.componentEnd_eq hholds (hind ▸ hlt)
          rw [← hind] at hend
          rw [if_pos hlt]
          simp only [hend, Nat.add_sub_cancel_left]
          rw [if_pos (by rw [hc, List.length_nil])]
          exact hnext
        · -- a slash at the end of the text
          have hrest : rest = [] := by
            cases rest with
            | nil => rfl
            | cons c' rest =>
              rw [List.flatMap_cons, List.length_append, List.length_cons] at hlength
              omega
          rw [if_neg hlt, hrest]
          exact ⟨_, rfl, rfl⟩
      · rw [walkPath_child hread follow stack hholds hat hsepc hc hvalid, Space.walk, if_neg hc]
        cases hchild : m.visible.child place c with
        | none => exact ⟨_, rfl, rfl⟩
        | some next =>
          dsimp only
          by_cases hleaf : rest = [] ∧ follow = false
          · rw [if_pos hleaf, if_pos hleaf]
            exact ⟨_, rfl, rfl⟩
          rw [if_neg hleaf, if_neg hleaf]
          have hvalidNext := hread.valid_child hvalid hchild
          cases hlink : m.visible.link next with
          | none => exact ih hat.forward hstart' hsep' hvalidNext hfuel
          | some target => exact spliceLink_run hread hholds hat hstart hsep hvalidNext hlink place

end Pass

/-! ### All passes -/

theorem exists_components {comps : List Name} (hhead : ([slash].intercalate comps).head? = some slash)
    (hsep : ∀ c ∈ comps, slash ∉ c) :
    ∃ more ≠ [], comps = [] :: more ∧ [slash].intercalate comps = more.flatMap (slash :: ·) := by
  cases comps with
  | nil => simp at hhead
  | cons c more =>
    rw [intercalate_cons] at hhead
    cases c with
    | nil =>
      refine ⟨more, ?_, rfl, ?_⟩
      · rintro rfl
        simp at hhead
      · rw [intercalate_cons, List.nil_append]
    | cons x c =>
      rw [List.cons_append, List.head?_cons, Option.some.injEq] at hhead
      exact absurd (hhead ▸ List.mem_cons_self) (hsep _ List.mem_cons_self)

theorem length_le_flatMap (comps : List Name) : comps.length ≤ (comps.flatMap (slash :: ·)).length := by
  induction comps with
  | nil => exact Nat.zero_le _
  | cons c comps ih =>
    rw [List.flatMap_cons, List.length_append, List.length_cons, List.length_cons]
    omega

theorem walkPasses_pass (hread : m.Readable static) (follow : Bool) (stack : Buf) (passes : Nat) {p : Buf}
    {before comps : List Name} (hholds : HoldsText p ([slash].intercalate (before ++ comps)))
    (hhead : ([slash].intercalate (before ++ comps)).head? = some slash) (hsep : ∀ c ∈ before ++ comps, slash ∉ c)
    (hcomps : comps ≠ []) (hreaches : m.visible.Reaches slash follow before place) :
    ∃ result, Ends (m.visible.walk slash follow place before comps) result ∧
      walkPasses follow stack (passes + 1) p m =
        match result with
        | .failed => .ok (none, m)
        | .arrived fs n => .ok (some (fs, n), m)
        | .spliced p => walkPasses follow stack passes p m := by
  obtain ⟨more, hmore, hcons, htext⟩ := exists_components hhead hsep
  have hwalk : m.visible.walk slash follow place before comps = m.visible.walk slash follow m.visible.root [[]] more := by
    rw [← hreaches comps hcomps, hcons, Space.walk_empty, List.nil_append]
  have hlength := length_le_flatMap more
  rw [hcons] at hholds hsep htext
  have hat : AtIndex ([slash].intercalate ([] :: more)) [[]] more 1 := by
    refine .inr ⟨hmore, ?_, rfl⟩
    rw [← intercalate_append slash [[]] hmore, List.singleton_append]
  have hfuel : more.length < ([slash].intercalate ([] :: more)).length + 1 := by
    rw [htext]
    omega
  obtain ⟨result, hrun, hends⟩ := walkPath_run hread follow stack hholds hat rfl hsep hread.valid_root hfuel
  refine ⟨result, hwalk ▸ hends, ?_⟩
  rw [walkPasses, hholds.scanName_eq, if_neg hholds.short.ne, run_bind_ok (run_get m),
    run_bind_ok (show walkPath follow stack p _ _ 1 m.rootFs rootInodeN m = _ from hrun)]
  cases result <;> rfl

theorem walkPasses_run (hread : m.Readable static) (follow : Bool) (stack : Buf) (budget : Nat) {p : Buf}
    {before comps : List Name} (hholds : HoldsText p ([slash].intercalate (before ++ comps)))
    (hhead : ([slash].intercalate (before ++ comps)).head? = some slash) (hsep : ∀ c ∈ before ++ comps, slash ∉ c)
    (hcomps : comps ≠ []) (hreaches : m.visible.Reaches slash follow before place) :
    walkPasses follow stack (budget + 1) p m =
      .ok (m.visible.resolveWithin slash follow pathLen budget place before comps, m) := by
  induction budget generalizing p place before comps with
  | zero =>
    obtain ⟨result, hends, hrun⟩ := walkPasses_pass hread follow stack 0 hholds hhead hsep hcomps hreaches
    rw [hrun, Space.resolveWithin]
    cases hwalk : m.visible.walk slash follow place before comps with
    | failed =>
      rw [hwalk] at hends
      obtain rfl := hends
      rfl
    | found next =>
      rw [hwalk] at hends
      obtain rfl := hends
      rfl
    | link dir before' rest =>
      rw [hwalk] at hends
      obtain ⟨-, -, hends⟩ := hends
      split_ifs at hends with hlong
      · obtain ⟨p', rfl, -⟩ := hends
        rfl
      · obtain rfl := hends
        rfl
  | succ budget ih =>
    obtain ⟨result, hends, hrun⟩ := walkPasses_pass hread follow stack (budget + 1) hholds hhead hsep hcomps hreaches
    rw [hrun, Space.resolveWithin]
    cases hwalk : m.visible.walk slash follow place before comps with
    | failed =>
      rw [hwalk] at hends
      obtain rfl := hends
      rfl
    | found next =>
      rw [hwalk] at hends
      obtain rfl := hends
      rfl
    | link dir before' rest =>
      rw [hwalk] at hends
      obtain ⟨hhead', hsep', hends⟩ := hends
      dsimp only
      split_ifs at hends ⊢ with hlong
      · obtain ⟨p', rfl, hholds'⟩ := hends
        obtain ⟨hreaches', hrest⟩ := hreaches.of_link hwalk
        exact ih hholds' hhead' hsep' hrest hreaches'
      · obtain rfl := hends
        rfl

theorem le_componentEnd (p : Buf) (len ind : Nat) : ind ≤ componentEnd p len ind := by
  rw [componentEnd]
  split_ifs with hlt <;> omega

theorem walkPath_rounds (follow : Bool) (stack p : Buf) {len fuel ind : Nat} (hfuel : len < ind + fuel)
    (hpos : 0 < fuel) (extra : Nat) (fs : Slot) (n : UInt32) :
    walkPath follow stack p len (fuel + extra) ind fs n = walkPath follow stack p len fuel ind fs n := by
  induction fuel generalizing ind fs n with
  | zero => cases hpos
  | succ fuel ih =>
    rw [Nat.succ_add, walkPath, walkPath]
    by_cases hlt : ind < len
    · have hend := le_componentEnd p len ind
      have hnext := ih (show len < componentEnd p len ind + 1 + fuel by omega) (by omega)
      simp only [hnext]
    · rw [if_neg hlt, if_neg hlt]

theorem holdsText_path {path : Buf} (hpath : path 0 = slash) (hlen : scanName path pathLen 0 < pathLen) :
    HoldsText path ([slash].intercalate ((textOf path).splitOn slash)) ∧
      ([slash].intercalate ((textOf path).splitOn slash)).head? = some slash := by
  have hholds := holdsText_textOf hlen
  rw [List.intercalate_splitOn]
  refine ⟨hholds, ?_⟩
  cases htext : textOf path with
  | nil =>
    rw [htext] at hholds
    have hzero := hholds.chars 0 le_rfl
    rw [hpath] at hzero
    exact absurd hzero (by decide)
  | cons x rest =>
    rw [htext] at hholds
    rw [List.head?_cons, ← hpath, hholds.chars 0 (Nat.zero_le _)]
    rfl

theorem lookupPath_run (hread : m.Readable static) (follow : Bool) (stack : Buf) {path : Buf} (hpath : path 0 = slash)
    (hlen : (textOf path).length < pathLen) : lookupPath stack path follow m =
      .ok (m.visible.resolveWithin slash follow pathLen symlinkMaxDepth m.visible.root []
        ((textOf path).splitOn slash), m) := by
  rw [textOf, List.length_map, List.length_range] at hlen
  obtain ⟨hholds, hhead⟩ := holdsText_path hpath hlen
  rw [lookupPath, if_neg (not_not.mpr hpath)]
  exact walkPasses_run hread follow stack symlinkMaxDepth hholds hhead (fun c hc => notMem_of_mem_splitOn slash hc)
    (List.splitOn_ne_nil slash _) Space.reaches_root

/-! ### The root filesystem alone -/

theorem GoodFs.machine {fixed : UInt32 → Prop} (hgood : GoodFs fixed (m.fsEntries m.rootFs))
    (hmount : ∀ i, (m.fsEntries i).mountpoint = 0) : m.Readable fun _ => fixed where
  fs i hlive := by
    obtain rfl := hlive.resolve_right fun hne => hne (hmount i)
    exact hgood.readable
  root := hmount m.rootFs
  mountpoint i hne := absurd (hmount i) hne

theorem GoodFs.child_eightBit {fixed : UInt32 → Prop} {fs : FsInfo} (hgood : GoodFs fixed fs)
    (hmark : fs.marked .inode n = true) (hc : ¬ c.all (· < 128) = true) : fs.space.child n c = none := by
  simp only [FsInfo.space]
  split_ifs with hbad
  · rfl
  rw [not_or, not_not] at hbad
  rw [FsInfo.child, Option.map_eq_none_iff, findEntry_eq_none_iff]
  rintro e he rfl
  refine hc (List.all_eq_true.mpr fun x hx => decide_eq_true ?_)
  exact ((hgood.names n ⟨hmark, hbad.2⟩ e he).2.2 x hx).2

theorem GoodFs.visible_child {fixed : UInt32 → Prop} (hgood : GoodFs fixed (m.fsEntries m.rootFs))
    (hmount : ∀ i, (m.fsEntries i).mountpoint = 0) (hmark : (m.fsEntries m.rootFs).marked .inode n = true) (c : Name) :
    m.visible.child (m.rootFs, n) c = ((m.fsEntries m.rootFs).space.child n c).map fun k => (m.rootFs, k) := by
  have hroot : m.mntRoot m.rootFs n = (false, m.rootFs, n) := by
    rw [Machine.mntRoot, if_neg (not_not.mpr rfl), List.find?_eq_none.mpr]
    intro part _
    rw [hmount part, decide_eq_true_iff]
    exact UInt32.ne_of_lt (FsInfo.real_of_marked hmark).1
  have hstay : ∀ k, (m.mntMountpoint m.rootFs k).2 = (m.rootFs, k) := by
    intro k
    rw [Machine.mntMountpoint, if_pos (.inl rfl)]
  simp only [Machine.visible, Machine.space, hroot, hstay]
  split_ifs with hc
  · rfl
  · rw [hgood.child_eightBit hmark hc]
    rfl

theorem GoodFs.resolve_machine {fixed : UInt32 → Prop} (hgood : GoodFs fixed (m.fsEntries m.rootFs))
    (hmount : ∀ i, (m.fsEntries i).mountpoint = 0) (follow : Bool) (budget : Nat) {comps : List Name}
    (hsep : ∀ c ∈ comps, slash ∉ c) :
    m.visible.resolve slash follow budget m.visible.root [] comps =
        ((m.fsEntries m.rootFs).space.resolve slash follow budget rootInodeN [] comps).map (fun n => (m.rootFs, n)) ∧
      m.visible.texts slash follow budget m.visible.root [] comps =
        (m.fsEntries m.rootFs).space.texts slash follow budget rootInodeN [] comps := by
  have hchild : ∀ n c, (m.fsEntries m.rootFs).marked .inode n = true → slash ∉ c →
      m.visible.child (m.rootFs, n) c = ((m.fsEntries m.rootFs).space.child n c).map fun k => (m.rootFs, k) :=
    fun n c hmark _ => hgood.visible_child hmount hmark c
  have hroot : (m.fsEntries m.rootFs).marked .inode (m.fsEntries m.rootFs).space.root = true := hgood.root.1
  have hvalid : ∀ n c k, (m.fsEntries m.rootFs).marked .inode n = true → slash ∉ c →
      (m.fsEntries m.rootFs).space.child n c = some k → (m.fsEntries m.rootFs).marked .inode k = true :=
    fun n c k hmark _ => hgood.readable.child_marked hmark
  constructor
  · exact Space.resolve_map (f := fun n => (m.rootFs, n)) rfl hchild (fun _ _ => rfl) hroot hvalid follow budget hroot [] hsep
  · exact Space.texts_map (f := fun n => (m.rootFs, n)) rfl hchild (fun _ _ => rfl) hroot hvalid follow budget hroot [] hsep

/-- `lookup_path` leaves the inode that the reference walk finds in the root filesystem, and returns false when that
finds none. It returns on every path, and its loop over a text never runs out of rounds. -/
theorem lookupPath_resolves {fixed : UInt32 → Prop} (hgood : GoodFs fixed (m.fsEntries m.rootFs))
    (hmount : ∀ i, (m.fsEntries i).mountpoint = 0) (stack path : Buf) (follow : Bool) :
    (path 0 = slash → (textOf path).length < pathLen - 1 →
      (∀ text ∈ (m.fsEntries m.rootFs).space.texts slash follow symlinkMaxDepth rootInodeN []
          ((textOf path).splitOn slash), text.length < pathLen - 1) →
      lookupPath stack path follow m =
        .ok (((m.fsEntries m.rootFs).space.resolve slash follow symlinkMaxDepth rootInodeN []
          ((textOf path).splitOn slash)).map fun n => (m.rootFs, n), m)) ∧
      (∃ result, lookupPath stack path follow m = .ok (result, m)) ∧
      ∀ p extra, walkPath follow stack p (scanName p pathLen 0) (scanName p pathLen 0 + 1 + extra) 1 m.rootFs
          rootInodeN =
        walkPath follow stack p (scanName p pathLen 0) (scanName p pathLen 0 + 1) 1 m.rootFs rootInodeN := by
  have hmachine := hgood.machine hmount
  refine ⟨fun hpath hlen hshort => ?_, ?_, fun p extra => ?_⟩
  · have hsep : ∀ c ∈ (textOf path).splitOn slash, slash ∉ c := fun c hc => notMem_of_mem_splitOn slash hc
    obtain ⟨hresolve, htexts⟩ := hgood.resolve_machine hmount follow symlinkMaxDepth hsep
    rw [← hresolve, lookupPath_run hmachine follow stack hpath (by omega), Space.resolveWithin_eq]
    intro text htext
    rw [htexts] at htext
    have := hshort text htext
    omega
  · by_cases hpath : path 0 = slash
    · by_cases hlen : (textOf path).length < pathLen
      · exact ⟨_, lookupPath_run hmachine follow stack hpath hlen⟩
      · have hfull : scanName path pathLen 0 = pathLen := by
          have := scanName_le path pathLen 0
          rw [textOf, List.length_map, List.length_range] at hlen
          omega
        rw [lookupPath, if_neg (not_not.mpr hpath), walkPasses, if_pos hfull]
        exact ⟨none, rfl⟩
    · rw [lookupPath, if_pos hpath]
      exact ⟨none, rfl⟩
  · exact walkPath_rounds follow stack p (by omega) (by omega) extra _ _

theorem smallFs_isDir {n : UInt32} (hdir : smallFs.IsDir n) : n = 2 := by
  obtain ⟨hone, htwo, hthree⟩ := smallFs_record
  obtain ⟨hmark, htype⟩ := hdir
  obtain rfl | rfl | rfl := smallFs_marked_inode hmark
  · rw [hone] at htype
    exact absurd htype (by decide)
  · rfl
  · rw [hthree] at htype
    exact absurd htype (by decide)

theorem smallFs_not_link {n : UInt32} (hmark : smallFs.marked .inode n = true) :
    (smallFs.record n).type ≠ inodeSymlinkType := by
  obtain ⟨hone, htwo, hthree⟩ := smallFs_record
  obtain rfl | rfl | rfl := smallFs_marked_inode hmark
  · rw [hone]
    decide
  · rw [htwo]
    decide
  · rw [hthree]
    decide

theorem smallFs_goodFs : GoodFs smallStatic smallFs := by
  have htwo := smallFs_record.2.1
  refine ⟨smallFs_consistent, ⟨by decide, by rw [rootInodeN, htwo]; decide⟩, ?_, ?_, ?_, ?_⟩
  · intro n hn
    rw [smallFs_isDir hn, htwo]
    exact smallFs_dirOk
  · intro n hn
    rw [smallFs_isDir hn]
    exact smallFs_goodDir.names
  · intro n hn
    rw [smallFs_isDir hn, htwo, smallFs_dirEntries]
    decide
  · intro n hmark htype
    exact absurd htype (smallFs_not_link hmark)

theorem lookupPath_resolves_smallMachine :
    GoodFs smallStatic (smallMachine.fsEntries smallMachine.rootFs) ∧
      (∀ i, (smallMachine.fsEntries i).mountpoint = 0) ∧
      lookupPath zero (cstr [47, 46, 47, 102]) true smallMachine = .ok (some (0, 3), smallMachine) := by
  have hmount : ∀ i, (smallMachine.fsEntries i).mountpoint = 0 := fun _ => rfl
  have htext : textOf (cstr [47, 46, 47, 102]) = [47, 46, 47, 102] := by decide
  have hlookup := (lookupPath_resolves smallFs_goodFs hmount zero (cstr [47, 46, 47, 102]) true).1 rfl
    (by rw [htext]; decide)
  rw [htext] at hlookup
  have hresolve : smallFs.space.resolve slash true symlinkMaxDepth rootInodeN []
      (List.splitOn slash [47, 46, 47, 102]) = some 3 := by decide
  refine ⟨smallFs_goodFs, hmount, ?_⟩
  rw [hlookup (by decide)]
  exact congrArg (fun found => Except.ok (Option.map (fun n => ((0 : Slot), n)) found, smallMachine)) hresolve

end DeprecatOS
