import DeprecatOS.Rm
import DeprecatOS.Lib.NameTree
import DeprecatOS.Proof.CopyFile
import DeprecatOS.Proof.Unlink

/-!
# Removing a tree

`rm_tree` removes the first entry of a directory over and over. Each removal takes one name away from what the next
search sees, so the search comes to an end; and what all removals add up to is that the directories of the tree are
gone and every file has lost the names it had in the tree.
-/

namespace DeprecatOS

open Bytes Bits Fault PointerTree NameTree Rm

variable {static : UInt32 → Prop} {fs fs' : FsInfo} {d : UInt32} {e : DirEntry} {es : List DirEntry}

/-! ### The first child -/

def DirEntry.IsKid (e : DirEntry) : Prop := e.name ≠ dot ∧ e.name ≠ dotDot

instance (e : DirEntry) : Decidable e.IsKid := inferInstanceAs (Decidable (_ ∧ _))

def FsInfo.kids (fs : FsInfo) (d : UInt32) : List DirEntry :=
  (fs.dirEntries (fs.record d)).filter fun e => e.IsKid

def Rm.Found.IsFirst (found : Found) : List DirEntry → Prop
  | [] => found = .nothing
  | e :: _ => ∃ name, found = .child name e.inode (e.type = 2) ∧ nameOf name = e.name

theorem nameOf_childName (stack : Buf) {buf : Buf} {pos : Nat} (hpos : ∀ c ∈ entryName buf pos, 0 < c) :
    nameOf (childName stack buf pos (entryNameLen buf pos)) = entryName buf pos := by
  have hlt := entryNameLen_lt buf pos
  have hlen : nameLength (childName stack buf pos (entryNameLen buf pos)) = entryNameLen buf pos := by
    refine (nameLength_eq_iff _ hlt).mpr ⟨?_, fun k hk => ?_⟩
    · rw [childName, if_neg (Nat.lt_irrefl _), if_pos rfl]
    · rw [childName, if_pos hk]
      exact (UInt8.ne_of_lt (hpos _ (List.mem_map_of_mem (List.mem_range.mpr hk)))).symm
  rw [nameOf, hlen, entryName]
  apply List.map_congr_left
  intro k hk
  rw [childName, if_pos (List.mem_range.mp hk)]

theorem entryName_eq_dot_iff {buf : Buf} {pos : Nat} :
    entryName buf pos = dot ↔ entryNameLen buf pos = 1 ∧ buf (pos + 8) = 46 := by
  rw [entryName, dot]
  constructor
  · intro heq
    have hlen := congrArg List.length heq
    rw [List.length_map, List.length_range] at hlen
    rw [hlen] at heq
    exact ⟨hlen, by simpa [List.range_succ] using heq⟩
  · rintro ⟨hlen, hfirst⟩
    simp [hlen, hfirst, List.range_succ]

theorem entryName_eq_dotDot_iff {buf : Buf} {pos : Nat} : entryName buf pos = dotDot ↔
    entryNameLen buf pos = 2 ∧ buf (pos + 8) = 46 ∧ buf (pos + 9) = 46 := by
  rw [entryName, dotDot]
  constructor
  · intro heq
    have hlen := congrArg List.length heq
    rw [List.length_map, List.length_range] at hlen
    rw [hlen] at heq
    exact ⟨hlen, by simpa [List.range_succ] using heq⟩
  · rintro ⟨hlen, hfirst, hsecond⟩
    simp [hlen, hfirst, hsecond, List.range_succ]

def childAt (stack buf : Buf) (pos : Nat) : Option Found :=
  (entryAt buf pos).bind fun e =>
    if e.IsKid then some (.child (childName stack buf pos (entryNameLen buf pos)) e.inode (e.type = 2)) else none

theorem findSome_childAt (stack : Buf) {buf : Buf} {ps : List Nat}
    (hnamed : ∀ e ∈ ps.filterMap (entryAt buf), ∀ c ∈ e.name, 0 < c) :
    ((ps.findSome? (childAt stack buf)).getD .nothing).IsFirst
      ((ps.filterMap (entryAt buf)).filter fun e => e.IsKid) := by
  induction ps with
  | nil => exact rfl
  | cons p ps ih =>
    rw [filterMap_entryAt_cons] at hnamed ⊢
    have hrest := ih fun e he => hnamed e (List.mem_append_right _ he)
    rw [List.findSome?_cons, childAt, List.filter_append]
    cases hat : entryAt buf p with
    | none => exact hrest
    | some e =>
      have hnamed := hnamed e (List.mem_append_left _ (by rw [hat]; exact List.mem_singleton_self e))
      by_cases hkid : e.IsKid
      · have hname : e.name = entryName buf p := by
          rw [entryAt] at hat
          split_ifs at hat
          cases hat
          rfl
        rw [hname] at hnamed
        simp only [Option.bind_some, Option.toList_some, List.filter_cons, hkid, decide_true, if_true]
        exact ⟨_, rfl, (nameOf_childName stack hnamed).trans hname.symm⟩
      · simp only [Option.bind_some, Option.toList_some, List.filter_cons, hkid, decide_false]
        exact hrest

theorem scanChunk_isFirst (stack : Buf) {buf : Buf} (hblock : BlockOk buf)
    (hnamed : ∀ e ∈ blockEntries buf, ∀ c ∈ e.name, 0 < c) :
    (scanChunk stack buf blockSize blockSize 0).IsFirst ((blockEntries buf).filter fun e => e.IsKid) := by
  have hscan : scanChunk stack buf blockSize blockSize 0 = ((records buf).findSome? (childAt stack buf)).getD .nothing := by
    refine scan_eq (scanChunk stack buf blockSize) _ _ (fun _ => rfl) (fun _ => ?_) (fun fuel pos hpos hgood => ?_)
      hblock.tiles hblock.record hblock.length_le
    · rw [scanChunk, if_neg (Nat.lt_irrefl _)]
    · have htrue := trueSize_ge buf pos
      simp only [badEntry, Bool.or_eq_false_iff, decide_eq_false_iff_not] at hgood
      rw [scanChunk, if_pos hpos]
      dsimp only
      rw [if_neg (by omega), childAt, entryAt]
      have hiff : DirEntry.IsKid ⟨entryName buf pos, entryInode buf pos, buf (pos + 7)⟩ ↔ _ ∧ _ :=
        and_congr (not_congr entryName_eq_dot_iff) (not_congr entryName_eq_dotDot_iff)
      by_cases hdead : entryInode buf pos = 0
      · rw [if_pos hdead, if_neg fun h => h.1 hdead]
        rfl
      · rw [if_neg hdead, Option.bind_some]
        by_cases hkid : DirEntry.IsKid ⟨entryName buf pos, entryInode buf pos, buf (pos + 7)⟩
        · rw [if_pos hkid, if_pos ⟨hdead, hiff.mp hkid⟩]
          rfl
        · rw [if_neg hkid, if_neg fun h => hkid (hiff.mpr h.2)]
          rfl
  rw [hscan]
  exact findSome_childAt stack hnamed

/-! ### The chunks of a directory -/

section Search

variable {s : Rm} {i : Slot} {index : UInt32}

theorem inKernel_run_read {α : Type} {prog : MachineM α} {a : α} (hrun : prog s.machine = .ok (a, s.machine)) :
    inKernel prog s = .ok (a, s) := by
  rw [inKernel, zoom, hrun]
  rfl

theorem inKernel_runs {α : Type} {prog : MachineM α} {post : α → Machine → Prop} (hrun : Runs prog s.machine post) :
    Runs (inKernel prog) s fun a s' => ∃ m, s' = s.withMachine m ∧ post a m :=
  Runs.zoom hrun

variable (hdir : WellFormedDir static (s.machine.fsEntries i) d) (hindex : s.machine.fsFromIndex index = some i)
  (hplace : (s.machine.mntRoot i d).2 = (i, d))

include hdir hindex hplace

theorem readChunkCall_run (chunk : UInt32) :
    (((s.machine.fsEntries i).record d).dirBlocks ≤ chunk.toNat → Rm.readChunkCall index d chunk s = .ok (0, s)) ∧
    (chunk.toNat < ((s.machine.fsEntries i).record d).dirBlocks → ∃ buf,
      Rm.readChunkCall index d chunk s = .ok (4096, { s with fsBuf := buf }) ∧ BlockOk buf ∧ blockEntries buf =
        blockEntries ((s.machine.fsEntries i).fileBlock ((s.machine.fsEntries i).record d) chunk.toNat)) := by
  have hcons := hdir.consistent
  have hget := onFs_run_read (getInode_run hcons.mounted hcons.layout (FsInfo.real_of_marked hdir.mark))
  have hinode : chunkInode i d s.machine = .ok (some (i, (s.machine.fsEntries i).record d), s.machine) := by
    rw [chunkInode, run_bind_ok hget]
    dsimp only
    rw [if_pos hdir.type, run_bind_ok (returnMntRoot_run hplace)]
    dsimp only
    rw [run_bind_ok hget]
    rfl
  have hblocks := hdir.dir.blocksFor_eq
  rw [Rm.readChunkCall, run_bind_ok (run_get s), hindex]
  dsimp only
  rw [run_bind_ok (inKernel_run_read hinode)]
  dsimp only
  constructor
  · intro hpast
    rw [if_pos (UInt32.le_iff_toNat_le.mpr (by rwa [hblocks]))]
    rfl
  · intro hlt
    have hread := readChunk_run hcons.mounted hdir.tree (Inode.lt_fileBlkLimit hlt)
    rw [if_neg (hdir.dir.mapped _ hlt)] at hread
    have hnot : ¬ blocksFor ((s.machine.fsEntries i).record d).sizeLo ≤ chunk := fun h => by
      rw [UInt32.le_iff_toNat_le, hblocks] at h
      omega
    have hwhole : ((s.machine.fsEntries i).record d).sizeLo % 4096 = 0 := by
      apply UInt32.toNat_inj.mp
      rw [UInt32.toNat_mod]
      exact Nat.mod_eq_zero_of_dvd hdir.dir.aligned
    obtain ⟨hblock, hentries⟩ := data_block hdir.dir hlt
    obtain ⟨hblock', hentries'⟩ := hblock.congr (fun k hk => if_pos hk : ∀ k < blockSize, (if k < 4096 then
      (s.machine.fsEntries i).data (mapped _ ((s.machine.fsEntries i).record d) chunk.toNat) k else s.fsBuf k) = _)
    rw [if_neg hnot, run_bind_ok (inKernel_run_read (onFs_run_read hread))]
    dsimp only
    rw [run_bind_ok (run_modify _ s), chunkLen, if_neg fun h => h.2 hwhole]
    exact ⟨_, rfl, hblock', hentries'.trans hentries⟩

theorem findChild_spec (stack : Buf) {fuel cnt : Nat} {chunk : UInt32} (hfuel : cnt < fuel)
    (hcnt : chunk.toNat + cnt = ((s.machine.fsEntries i).record d).dirBlocks) :
    Runs (findChild stack index d fuel chunk) s fun found s' => (∃ buf, s' = { s with fsBuf := buf }) ∧
      found.IsFirst (((s.machine.fsEntries i).entriesFrom ((s.machine.fsEntries i).record d) chunk.toNat cnt).filter
        fun e => e.IsKid) := by
  induction fuel generalizing s cnt chunk with
  | zero => omega
  | succ fuel ih =>
    rw [findChild]
    obtain ⟨hpast, hread⟩ := readChunkCall_run hdir hindex hplace chunk
    obtain _ | cnt := cnt
    · refine Runs.bind_eq (hpast (by omega)) ?_
      rw [if_pos rfl]
      exact Runs.pure ⟨⟨s.fsBuf, rfl⟩, rfl⟩
    have hlt : chunk.toNat < ((s.machine.fsEntries i).record d).dirBlocks := by omega
    have hnext : (chunk + 1).toNat = chunk.toNat + 1 := by
      have hsmall := ((s.machine.fsEntries i).record d).dirBlocks_lt
      exact toNat_add_one (by omega)
    obtain ⟨buf, hread, hblock, hentries⟩ := hread hlt
    refine Runs.bind_eq hread ?_
    rw [if_neg (by decide), if_neg (by decide)]
    refine Runs.bind_eq (run_get _) ?_
    have hfirst := scanChunk_isFirst stack hblock fun e he => hdir.named e (by
      rw [FsInfo.dirEntries_split _ hlt, ← hentries]
      exact List.mem_append_right _ (List.mem_append_left _ he))
    rw [FsInfo.entriesFrom_succ, List.filter_append, ← hentries]
    have hlength : (4096 : UInt32).toNat = blockSize := rfl
    dsimp only
    rw [hlength]
    cases hkids : (blockEntries buf).filter fun e => e.IsKid with
    | nil =>
      rw [hkids] at hfirst
      rw [hfirst, List.nil_append, ← hnext]
      have hcnt' : (chunk + 1).toNat + cnt = ((s.machine.fsEntries i).record d).dirBlocks := by omega
      have hrest := @ih { s with fsBuf := buf } hdir hindex hplace _ _ (Nat.lt_of_succ_lt_succ hfuel) hcnt'
      refine hrest.mono fun found s' hdone => ?_
      obtain ⟨⟨buf', rfl⟩, hfound⟩ := hdone
      exact ⟨⟨buf', rfl⟩, hfound⟩
    | cons e es =>
      rw [hkids] at hfirst
      obtain ⟨name, hfound, hname⟩ := hfirst
      rw [hfound]
      exact Runs.pure ⟨⟨buf, rfl⟩, name, rfl, hname⟩

end Search

/-! ### What is left to remove -/

section Tree

variable {kids : UInt32 → List DirEntry} {p : UInt32} {top : DirEntry} {dirs dirs' names names' gone lost : List UInt32}

abbrev EntriesBelow (kids : UInt32 → List DirEntry) : List DirEntry → List UInt32 → List UInt32 → Prop :=
  Below kids (fun e => e.type = 2) DirEntry.inode

/-- The children of `d` are `es`, below which are the directories `dirs` with the children `kids` and the files `names`.
No directory occurs twice, and every file has a link for each of its names. -/
structure TreeAt (static : UInt32 → Prop) (fs : FsInfo) (kids : UInt32 → List DirEntry) (d : UInt32)
    (es : List DirEntry) (dirs names : List UInt32) : Prop where
  kids_eq : fs.kids d = es
  dir : ∀ c ∈ d :: dirs, WellFormedDir static fs c
  real : ∀ c ∈ d :: dirs, ∀ e ∈ fs.dirEntries (fs.record c), fs.geo.Real .inode e.inode
  sub : ∀ c ∈ dirs, fs.kids c = kids c
  nodup : (d :: dirs).Nodup
  file : ∀ n ∈ names, fs.marked .inode n = true ∧ (fs.record n).type ≠ inodeDirType
  links : ∀ n, names.count n ≤ (fs.record n).hardLinkCnt.toNat
  reserved : ∀ n ∈ (d :: dirs) ++ names, n ≠ inodeError

theorem TreeAt.dir_notMem (htree : TreeAt static fs kids d es dirs names) {c : UInt32}
    (hc : WellFormedDir static fs c) : c ∉ names :=
  fun hmem => (htree.file c hmem).2 hc.type

theorem Pruned.dir_same (hpruned : Pruned static fs fs' d gone lost) {c : UInt32} (hdir : WellFormedDir static fs c)
    (hne : c ≠ d) (hgone : c ∉ gone) (hlost : c ∉ lost) :
    WellFormedDir static fs' c ∧ fs'.dirEntries (fs'.record c) = fs.dirEntries (fs.record c) ∧
      (fs'.record c).hardLinkCnt = (fs.record c).hardLinkCnt := by
  have hmark : fs'.marked .inode c = true := (hpruned.kept c).mpr ⟨hdir.mark, hgone, fun h => absurd h hlost⟩
  obtain ⟨hdir', hentries⟩ := hdir.of_sameBody hpruned.consistent hmark (hpruned.others c hmark hne)
  refine ⟨hdir', hentries, ?_⟩
  rw [hpruned.record_eq hmark hne, List.count_eq_zero.mpr hlost]
  exact UInt16.sub_zero _

theorem Lost.kids_eq (hlost : Lost fs fs' d e) (hkids : fs.kids d = e :: es) : fs'.kids d = es := by
  obtain ⟨before, after, hold, hnew, hfirst⟩ := hlost
  have hkid : e.IsKid := by
    have hmem : e ∈ fs.kids d := by
      rw [hkids]
      exact List.mem_cons_self
    simpa using (List.mem_filter.mp hmem).2
  rw [FsInfo.kids, hold, List.filter_append, List.filter_cons, if_pos (decide_eq_true hkid)] at hkids
  rw [FsInfo.kids, hnew, List.filter_append]
  cases hbefore : before.filter fun e => e.IsKid with
  | nil =>
    rw [hbefore] at hkids
    exact (List.cons.inj hkids).2
  | cons x xs =>
    -- the first child before `e` would be `e` itself, but nothing before `e` has its name
    rw [hbefore] at hkids
    have hx : x ∈ before := (List.mem_filter.mp (by rw [hbefore]; exact List.mem_cons_self)).1
    exact absurd (congrArg DirEntry.name (List.cons.inj hkids).1) (hfirst x hx)

theorem findEntry_of_kids (hkids : fs.kids d = e :: es) : findEntry (fs.dirEntries (fs.record d)) e.name = some e := by
  obtain ⟨before, after, hsplit, hbefore, hkid, -⟩ := List.filter_eq_cons_iff.mp hkids
  refine findEntry_split hsplit rfl fun e' he' hname => hbefore e' he' ?_
  rw [decide_eq_true_eq] at hkid ⊢
  rwa [DirEntry.IsKid, hname]

theorem TreeAt.next (htree : TreeAt static fs kids d (e :: es) (gone ++ dirs) (lost ++ names))
    (hpruned : Pruned static fs fs' d gone lost) (hdir : WellFormedDir static fs' d) (hlost : Lost fs fs' d e) :
    TreeAt static fs' kids d es dirs names := by
  have hnodup := List.nodup_cons.mp htree.nodup
  have hapart := List.disjoint_of_nodup_append hnodup.2
  have hkept : ∀ c ∈ dirs, WellFormedDir static fs' c ∧
      fs'.dirEntries (fs'.record c) = fs.dirEntries (fs.record c) := by
    intro c hc
    have hmem : c ∈ gone ++ dirs := List.mem_append_right _ hc
    have hdir := htree.dir c (List.mem_cons_of_mem _ hmem)
    have hne : c ≠ d := by
      rintro rfl
      exact hnodup.1 hmem
    have hnot := htree.dir_notMem hdir
    rw [List.mem_append, not_or] at hnot
    exact (hpruned.dir_same hdir hne (fun h => hapart h hc) hnot.1).imp_right And.left
  have hfile : ∀ n ∈ names, fs'.marked .inode n = true ∧ n ≠ d := by
    intro n hn
    obtain ⟨hmark, htype⟩ := htree.file n (List.mem_append_right _ hn)
    have hcount := htree.links n
    have hpos := List.count_pos_iff.mpr hn
    rw [List.count_append] at hcount
    have hnot : ∀ c ∈ d :: (gone ++ dirs), n ≠ c := by
      rintro c hc rfl
      exact htype (htree.dir n hc).type
    refine ⟨(hpruned.kept n).mpr ⟨hmark, fun hmem => ?_, fun _ => by omega⟩, hnot d List.mem_cons_self⟩
    exact hnot n (List.mem_cons_of_mem _ (List.mem_append_left _ hmem)) rfl
  refine ⟨hlost.kids_eq htree.kids_eq, ?_, ?_, fun c hc => ?_, ?_, fun n hn => ?_, fun n => ?_, fun n hn => ?_⟩
  · intro c hc
    obtain rfl | hc := List.mem_cons.mp hc
    · exact hdir
    · exact (hkept c hc).1
  · intro c hc e' he'
    rw [hpruned.geo]
    obtain rfl | hc := List.mem_cons.mp hc
    · obtain ⟨before, after, hold, hnew, -⟩ := hlost
      refine htree.real c List.mem_cons_self e' ?_
      rw [hnew] at he'
      rw [hold]
      exact List.mem_append.mpr ((List.mem_append.mp he').imp id (List.mem_cons_of_mem _))
    · rw [(hkept c hc).2] at he'
      exact htree.real c (List.mem_cons_of_mem _ (List.mem_append_right _ hc)) e' he'
  · rw [FsInfo.kids, (hkept c hc).2]
    exact htree.sub c (List.mem_append_right _ hc)
  · exact List.nodup_cons.mpr ⟨fun h => hnodup.1 (List.mem_append_right _ h), hnodup.2.of_append_right⟩
  · obtain ⟨hmark, hne⟩ := hfile n hn
    refine ⟨hmark, ?_⟩
    rw [(hpruned.others n hmark hne).record.type_eq]
    exact (htree.file n (List.mem_append_right _ hn)).2
  · by_cases hn : n ∈ names
    · obtain ⟨hmark, hne⟩ := hfile n hn
      have hcount := htree.links n
      have hsum := hpruned.links n hmark hne
      rw [List.count_append] at hcount
      omega
    · rw [List.count_eq_zero.mpr hn]
      exact Nat.zero_le _
  · refine htree.reserved n ?_
    simp only [List.cons_append, List.mem_cons, List.mem_append] at hn ⊢
    tauto

theorem TreeAt.below (htree : TreeAt static fs kids d (e :: es) (dirs' ++ e.inode :: dirs) (names' ++ names)) :
    TreeAt static fs kids e.inode (kids e.inode) dirs' names' := by
  have hchild : e.inode ∈ dirs' ++ e.inode :: dirs := List.mem_append_right _ List.mem_cons_self
  have hsub : ∀ c ∈ e.inode :: dirs', c ∈ dirs' ++ e.inode :: dirs := by
    intro c hc
    obtain rfl | hc := List.mem_cons.mp hc
    · exact hchild
    · exact List.mem_append_left _ hc
  have hnodup := (List.nodup_cons.mp htree.nodup).2
  refine ⟨htree.sub _ hchild, fun c hc => htree.dir c (List.mem_cons_of_mem _ (hsub c hc)),
    fun c hc => htree.real c (List.mem_cons_of_mem _ (hsub c hc)), fun c hc => htree.sub c (List.mem_append_left _ hc),
    ?_, fun n hn => htree.file n (List.mem_append_left _ hn), fun n => ?_, fun n hn => htree.reserved n ?_⟩
  · have hmiddle := List.nodup_middle.mp hnodup
    rw [← List.cons_append] at hmiddle
    exact hmiddle.of_append_left
  · have hcount := htree.links n
    rw [List.count_append] at hcount
    omega
  · simp only [List.cons_append, List.mem_cons, List.mem_append] at hn ⊢
    tauto

end Tree

/-! ### The recursion -/

section Calls

variable {kids : UInt32 → List DirEntry} {p : UInt32} {top : DirEntry} {dirs dirs' names names' gone lost : List UInt32}
  {m : Machine} {s : Rm} {i : Slot} {index : UInt32}

/-- A call of `rm_tree` for the directory `d` of the entry `top` of directory `p`, with no mountpoint on the way. -/
structure Removable (static : UInt32 → Prop) (m : Machine) (i : Slot) (index : UInt32) (kids : UInt32 → List DirEntry)
    (p : UInt32) (top : DirEntry) (es : List DirEntry) (dirs names : List UInt32) : Prop where
  tree : TreeAt static (m.fsEntries i) kids top.inode es dirs names
  parent : WellFormedDir static (m.fsEntries i) p
  parentReal : ∀ e ∈ (m.fsEntries i).dirEntries ((m.fsEntries i).record p), (m.fsEntries i).geo.Real .inode e.inode
  found : findEntry ((m.fsEntries i).dirEntries ((m.fsEntries i).record p)) top.name = some top
  kid : top.IsKid
  apart : p ∉ top.inode :: dirs
  index : m.fsFromIndex index = some i
  unmounted : ∀ n ∈ p :: top.inode :: dirs, (m.mntRoot i n).1 = false

/-- The entry `top` of directory `p` is gone, and with it the directories `dirs` and the names `names` below it. -/
structure TreeRemoved (static : UInt32 → Prop) (fs fs' : FsInfo) (p : UInt32) (top : DirEntry)
    (dirs names : List UInt32) : Prop where
  pruned : Pruned static fs fs' p (dirs ++ [top.inode]) names
  dir : WellFormedDir static fs' p
  lost : Lost fs fs' p top
  links : (fs'.record p).hardLinkCnt = (fs.record p).hardLinkCnt - 1

theorem Machine.mntRoot_of_false {n : UInt32} (hroot : (m.mntRoot i n).1 = false) : (m.mntRoot i n).2 = (i, n) := by
  rw [mntRoot] at hroot ⊢
  split_ifs at hroot ⊢ with hslot
  · rfl
  · cases hfind : (List.finRange 8).find? fun part => (m.fsEntries part).mountpoint = n with
    | none => rfl
    | some part =>
      rw [hfind] at hroot
      cases hroot

theorem Removable.next (hcall : Removable static m i index kids p top (e :: es) (gone ++ dirs) (lost ++ names))
    (hpruned : Pruned static (m.fsEntries i) fs' top.inode gone lost) (hdir : WellFormedDir static fs' top.inode)
    (hlost : Lost (m.fsEntries i) fs' top.inode e) :
    Removable static (m.withFs i fs') i index kids p top es dirs names := by
  have hapart := hcall.apart
  rw [List.mem_cons, List.mem_append, not_or, not_or] at hapart
  have hnot := hcall.tree.dir_notMem hcall.parent
  rw [List.mem_append, not_or] at hnot
  obtain ⟨hparent, hentries, -⟩ := hpruned.dir_same hcall.parent hapart.1 hapart.2.1 hnot.1
  refine ⟨?_, ?_, ?_, ?_, hcall.kid, ?_, ?_, fun n hn => ?_⟩
  · rw [m.withFs_fsEntries_self]
    exact hcall.tree.next hpruned hdir hlost
  · rwa [m.withFs_fsEntries_self]
  · rw [m.withFs_fsEntries_self, hentries, hpruned.geo]
    exact hcall.parentReal
  · rw [m.withFs_fsEntries_self, hentries]
    exact hcall.found
  · rw [List.mem_cons, not_or]
    exact ⟨hapart.1, hapart.2.2⟩
  · rw [Machine.fsFromIndex_withFs hpruned.geo]
    exact hcall.index
  · rw [Machine.mntRoot_withFs hpruned.geo]
    refine hcall.unmounted n ?_
    simp only [List.mem_cons, List.mem_append] at hn ⊢
    tauto

theorem Removable.below
    (hcall : Removable static m i index kids p top (e :: es) (dirs' ++ e.inode :: dirs) (names' ++ names)) :
    Removable static m i index kids top.inode e (kids e.inode) dirs' names' where
  tree := hcall.tree.below
  parent := hcall.tree.dir _ List.mem_cons_self
  parentReal := hcall.tree.real _ List.mem_cons_self
  found := findEntry_of_kids hcall.tree.kids_eq
  kid := by
    have hmem : e ∈ (m.fsEntries i).kids top.inode := by
      rw [hcall.tree.kids_eq]
      exact List.mem_cons_self
    exact of_decide_eq_true (List.mem_filter.mp hmem).2
  apart hmem := by
    refine (List.nodup_cons.mp hcall.tree.nodup).1 ?_
    simp only [List.mem_cons, List.mem_append] at hmem ⊢
    tauto
  index := hcall.index
  unmounted n hn := by
    refine hcall.unmounted n ?_
    simp only [List.mem_cons, List.mem_append] at hn ⊢
    tauto

theorem Removable.treeRemoved_trans
    (hcall : Removable static m i index kids p top es (gone ++ dirs) (lost ++ names))
    (hpruned : Pruned static (m.fsEntries i) fs top.inode gone lost)
    (hremoved : TreeRemoved static fs fs' p top dirs names) :
    TreeRemoved static (m.fsEntries i) fs' p top (gone ++ dirs) (lost ++ names) := by
  have hapart := hcall.apart
  rw [List.mem_cons, List.mem_append, not_or, not_or] at hapart
  have hnot := hcall.tree.dir_notMem hcall.parent
  rw [List.mem_append, not_or] at hnot
  have hself := hcall.tree.dir_notMem (hcall.tree.dir _ List.mem_cons_self)
  rw [List.mem_append, not_or] at hself
  obtain ⟨-, hentries, hlinks⟩ := hpruned.dir_same hcall.parent hapart.1 hapart.2.1 hnot.1
  obtain ⟨before, after, hold, hnew, hfirst⟩ := hremoved.lost
  refine ⟨?_, hremoved.dir, ⟨before, after, hentries.symm.trans hold, hnew, hfirst⟩, by rw [hremoved.links, hlinks]⟩
  rw [List.append_assoc]
  exact hpruned.trans hremoved.pruned (.inr (List.mem_append_right _ (List.mem_singleton_self _))) hself.1 hself.2

theorem removeCall_spec {unlink : UInt32 → Slot → UInt32 → Buf → MachineM Bool} {n : UInt32} {name : Buf}
    {post : Bool → Machine → Prop} (hindex : s.machine.fsFromIndex index = some i)
    (hrun : ∀ now, Runs (unlink now i n name) s.machine post) (clock : Nat → UInt32) :
    Runs (removeCall unlink clock index n name) s fun r s' => ∃ ok, r = statusOf ok ∧ post ok s'.machine := by
  rw [removeCall]
  refine Runs.bind_eq (run_get s) ?_
  rw [hindex]
  dsimp only
  refine Runs.bind_eq (show time clock s = .ok (clock s.calls, { s with calls := s.calls + 1 }) from rfl) ?_
  have hcall : Runs (unlink (clock s.calls) i n name) (Rm.machine { s with calls := s.calls + 1 }) _ := hrun (clock s.calls)
  refine (inKernel_runs hcall).bind fun ok s' hdone => Runs.pure ?_
  obtain ⟨m, rfl, hpost⟩ := hdone
  exact ⟨ok, rfl, hpost⟩

theorem isMountpointCall_run {n : UInt32} (hindex : s.machine.fsFromIndex index = some i)
    (hroot : (s.machine.mntRoot i n).1 = false) : isMountpointCall index n s = .ok (0, s) := by
  obtain ⟨place, hroot⟩ : ∃ place, s.machine.mntRoot i n = (false, place) := ⟨_, Prod.ext hroot rfl⟩
  have hrun : returnMntRoot i n s.machine = .ok ((false, place), s.machine) := by
    rw [← hroot]
    rfl
  rw [isMountpointCall, run_bind_ok (run_get s), hindex]
  dsimp only
  rw [run_bind_ok (inKernel_run_read hrun)]
  rfl

theorem Removable.findChild_spec (hcall : Removable static s.machine i index kids p top es dirs names) (stack : Buf) :
    Runs (findChild stack index top.inode chunkLimit 0) s fun found s' =>
      (∃ buf, s' = { s with fsBuf := buf }) ∧ found.IsFirst es := by
  have hdir := hcall.tree.dir _ List.mem_cons_self
  have hplace := Machine.mntRoot_of_false (hcall.unmounted _ (List.mem_cons_of_mem _ List.mem_cons_self))
  have hlimit : ((s.machine.fsEntries i).record top.inode).dirBlocks < chunkLimit :=
    (Inode.dirBlocks_lt _).trans (by decide)
  have hall : (0 : UInt32).toNat + ((s.machine.fsEntries i).record top.inode).dirBlocks = _ := Nat.zero_add _
  have hfind := DeprecatOS.findChild_spec hdir hcall.index hplace stack hlimit hall
  have hkids := hcall.tree.kids_eq
  rw [FsInfo.kids, FsInfo.dirEntries_eq] at hkids
  rw [← hkids]
  exact hfind

/-- The names that the calls of `rm_tree` look for are ordinary ones: that of `top`, those in its directory and those in
the directories below. -/
def TreeNamesOk (kids : UInt32 → List DirEntry) (top : DirEntry) (es : List DirEntry) (dirs : List UInt32) : Prop :=
  ∀ e ∈ top :: (es ++ dirs.flatMap kids), NameOk e.name

/-- `rm_tree` has returned, with true when `named` holds; if it returned true, the tree is removed from filesystem `i`, and
no other changed. -/
def TreeReturned (named : Prop) (static : UInt32 → Prop) (m : Machine) (i : Slot) (p : UInt32) (top : DirEntry)
    (dirs names : List UInt32) (r : Option Bool) (s' : Rm) : Prop :=
  ∃ ok, r = some ok ∧ (named → ok = true) ∧ (ok = true → ∃ fs', s'.machine = m.withFs i fs' ∧
    TreeRemoved static (m.fsEntries i) fs' p top dirs names)

theorem TreeNamesOk.mono {top' : DirEntry} {es' : List DirEntry} {dirs' : List UInt32}
    (hnames : TreeNamesOk kids top es dirs) (hsub : top' :: (es' ++ dirs'.flatMap kids) ⊆ top :: (es ++ dirs.flatMap kids)) :
    TreeNamesOk kids top' es' dirs' := fun e he => hnames e (hsub he)

theorem Removable.rest_returned
    (hcall : Removable static m i index kids p top (e :: es) (gone ++ dirs) (lost ++ names))
    (hpruned : Pruned static (m.fsEntries i) fs top.inode gone lost) {prog : RmM (Option Bool)}
    (hrest : Runs prog s (TreeReturned (TreeNamesOk kids top es dirs) static (m.withFs i fs) i p top dirs names)) :
    Runs prog s (TreeReturned (TreeNamesOk kids top (e :: es) (gone ++ dirs)) static m i p top (gone ++ dirs)
      (lost ++ names)) := by
  refine hrest.mono fun r s' hdone => ?_
  obtain ⟨ok, rfl, hnamed, hdone⟩ := hdone
  refine ⟨ok, rfl, fun hnames => hnamed (hnames.mono ?_), fun hok => ?_⟩
  · intro e' he'
    simp only [List.mem_cons, List.mem_append, List.flatMap_append] at he' ⊢
    tauto
  obtain ⟨fs', hmachine, hremoved⟩ := hdone hok
  rw [m.withFs_fsEntries_self] at hremoved
  rw [m.withFs_withFs] at hmachine
  exact ⟨fs', hmachine, hcall.treeRemoved_trans hpruned hremoved⟩

/-- Once the directory of `top` has no children left, the call that removes it. -/
theorem Removable.rmDir_spec (hcall : Removable static s.machine i index kids p top [] [] []) {name : Buf}
    (hname : nameOf name = top.name) (clock : Nat → UInt32) :
    Runs (rmDir clock index p name) s fun r s' => ∃ ok, r = statusOf ok ∧ (NameOk top.name → ok = true) ∧ (ok = true →
      ∃ fs', s'.machine = s.machine.withFs i fs' ∧ TreeRemoved static (s.machine.fsEntries i) fs' p top [] []) := by
  have hempty : ∀ e ∈ (s.machine.fsEntries i).dirEntries ((s.machine.fsEntries i).record top.inode),
      e.name = dot ∨ e.name = dotDot := by
    intro e he
    have hnot := List.filter_eq_nil_iff.mp hcall.tree.kids_eq e he
    rw [decide_eq_true_eq, DirEntry.IsKid, not_and_or, not_not, not_not] at hnot
    exact hnot
  have hrun := fun now => hcall.parent.unlinkDir_spec now
    (Machine.mntRoot_of_false (hcall.unmounted _ List.mem_cons_self)) hcall.parentReal
    (by rw [hname]; exact hcall.found) (hcall.tree.dir _ List.mem_cons_self)
    (hcall.unmounted _ (List.mem_cons_of_mem _ List.mem_cons_self))
    (fun h => hcall.apart (by rw [h]; exact List.mem_cons_self))
    (hcall.tree.reserved _ (List.mem_append_left _ List.mem_cons_self)) hempty
  refine (removeCall_spec hcall.index hrun clock).mono fun r s' hdone => ?_
  obtain ⟨ok, rfl, hnamed, hdone⟩ := hdone
  rw [hname] at hnamed
  refine ⟨ok, rfl, fun hok => hnamed hok hcall.kid.1 hcall.kid.2, fun hok => ?_⟩
  obtain ⟨fs', hmachine, hpruned, hdir, hlost, hlinks⟩ := hdone hok
  exact ⟨fs', hmachine, hpruned, hdir, hlost, hlinks⟩

/-- The call for a first child that is not a directory. -/
theorem Removable.rmInode_spec (hcall : Removable static s.machine i index kids p top (e :: es) dirs (e.inode :: names))
    {name : Buf} (hname : nameOf name = e.name) (clock : Nat → UInt32) :
    Runs (rmInode clock index top.inode name) s fun r s' => ∃ ok, r = statusOf ok ∧ (NameOk e.name → ok = true) ∧
      (ok = true → ∃ fs', s'.machine = s.machine.withFs i fs' ∧
        Pruned static (s.machine.fsEntries i) fs' top.inode [] [e.inode] ∧ WellFormedDir static fs' top.inode ∧
        Lost (s.machine.fsEntries i) fs' top.inode e) := by
  obtain ⟨hfile, htype⟩ := hcall.tree.file e.inode List.mem_cons_self
  have hlinks : ((s.machine.fsEntries i).record e.inode).hardLinkCnt ≠ 0 := by
    have hcount := hcall.tree.links e.inode
    intro hzero
    rw [hzero, List.count_cons_self] at hcount
    exact absurd hcount (Nat.not_succ_le_zero _)
  have hrun := fun now => (hcall.tree.dir _ List.mem_cons_self).unlinkInode_spec now
    (Machine.mntRoot_of_false (hcall.unmounted _ (List.mem_cons_of_mem _ List.mem_cons_self)))
    (hcall.tree.real _ List.mem_cons_self) (by rw [hname]; exact findEntry_of_kids hcall.tree.kids_eq) hfile htype hlinks
    (hcall.tree.reserved _ (List.mem_append_right _ List.mem_cons_self))
  rw [← hname]
  exact removeCall_spec hcall.index hrun clock

/-- `rm_tree` returns, and when it returns true the tree is removed. Every round takes one entry away, so there is one
for each directory and each name of the tree, and the last one. -/
theorem rmTree_spec (clock : Nat → UInt32) (stack : Buf) (hbelow : EntriesBelow kids es dirs names) :
    ∀ {fuel : Nat} {s : Rm} {p : UInt32} {name : Buf} {top : DirEntry}, dirs.length + names.length < fuel →
      nameOf name = top.name → Removable static s.machine i index kids p top es dirs names →
      Runs (rmTree clock stack index fuel p name top.inode) s
        (TreeReturned (TreeNamesOk kids top es dirs) static s.machine i p top dirs names) := by
  have hfalse : ∀ {P : Prop}, false = true → P := fun h => absurd h Bool.false_ne_true
  -- one case for each kind of first child, with calls for what is below it and for the children that are left
  induction hbelow with
  | nil =>
    intro fuel s p name top hfuel hname hcall
    obtain _ | fuel := fuel
    · cases hfuel
    rw [rmTree]
    refine (hcall.findChild_spec stack).bind fun found s' hdone => ?_
    obtain ⟨⟨buf, rfl⟩, rfl⟩ := hdone
    dsimp only
    refine (hcall.rmDir_spec (s := { s with fsBuf := buf }) hname clock).bind fun r s' hdone => ?_
    obtain ⟨ok, rfl, hnamed, hdone⟩ := hdone
    have hstatus : decide (statusOf ok ≠ syscallError) = ok := by cases ok <;> decide
    exact Runs.pure ⟨ok, by rw [hstatus], fun hnames => hnamed (hnames top List.mem_cons_self), hdone⟩
  | @leaf e es dirs names hleaf hrest ih =>
    intro fuel s p name top hfuel hname hcall
    obtain _ | fuel := fuel
    · cases hfuel
    rw [rmTree]
    refine (hcall.findChild_spec stack).bind fun found s' hdone => ?_
    obtain ⟨⟨buf, rfl⟩, childName, rfl, hchildName⟩ := hdone
    dsimp only
    rw [if_neg (by simpa using hleaf)]
    refine (hcall.rmInode_spec (s := { s with fsBuf := buf }) hchildName clock).bind fun r s₁ hdone => ?_
    obtain ⟨ok, rfl, hnamed, hdone⟩ := hdone
    cases ok with
    | false =>
      rw [if_pos (by decide)]
      refine Runs.pure ⟨false, rfl, fun hnames => hnamed (hnames e ?_), hfalse⟩
      exact List.mem_cons_of_mem _ List.mem_cons_self
    | true =>
      obtain ⟨fs₁, hmachine, hpruned, hdir, hlost⟩ := hdone rfl
      rw [if_neg (by decide)]
      -- the lists of the call are those of the removal in front of those of the rest
      have hcall : Removable static s.machine i index kids p top (e :: es) ([] ++ dirs) ([e.inode] ++ names) := hcall
      have hnext := hcall.next hpruned hdir hlost
      have hmachine : s₁.machine = s.machine.withFs i fs₁ := hmachine
      rw [← hmachine] at hnext
      have hrest := ih (Nat.lt_of_succ_lt_succ hfuel) hname hnext
      rw [hmachine] at hrest
      exact hcall.rest_returned hpruned hrest
  | @node e es dirs names dirs' names' hdir hbelow hrest ih ih' =>
    intro fuel s p name top hfuel hname hcall
    obtain _ | fuel := fuel
    · cases hfuel
    rw [List.length_append, List.length_append, List.length_cons] at hfuel
    rw [rmTree]
    refine (hcall.findChild_spec stack).bind fun found s' hdone => ?_
    obtain ⟨⟨buf, rfl⟩, childName, rfl, hchildName⟩ := hdone
    dsimp only
    rw [if_pos (decide_eq_true hdir)]
    have hbelow := hcall.below
    have hfree := hbelow.unmounted e.inode (List.mem_cons_of_mem _ List.mem_cons_self)
    refine Runs.bind_eq (isMountpointCall_run (s := { s with fsBuf := buf }) hcall.index hfree) ?_
    rw [if_neg (not_not.mpr rfl)]
    have hchild := @ih fuel { s with fsBuf := buf } top.inode childName e (by omega) hchildName hbelow
    refine hchild.bind fun r s₁ hdone => ?_
    obtain ⟨ok, rfl, hnamed, hdone⟩ := hdone
    cases ok with
    | false =>
      refine Runs.pure ⟨false, rfl, fun hnames => hnamed (hnames.mono fun e' he' => ?_), hfalse⟩
      simp only [List.mem_cons, List.mem_append, List.flatMap_append, List.flatMap_cons] at he' ⊢
      tauto
    | true =>
      obtain ⟨fs₁, hmachine, hremoved⟩ := hdone rfl
      dsimp only
      have hmachine : s₁.machine = s.machine.withFs i fs₁ := hmachine
      have hcall : Removable static s.machine i index kids p top (e :: es) ((dirs' ++ [e.inode]) ++ dirs)
          (names' ++ names) := by
        rw [List.append_assoc]
        exact hcall
      have hnext := hcall.next hremoved.pruned hremoved.dir hremoved.lost
      rw [← hmachine] at hnext
      have hless : dirs.length + names.length < fuel := by omega
      have hrest := ih' hless hname hnext
      rw [hmachine] at hrest
      have hreturned := hcall.rest_returned hremoved.pruned hrest
      rwa [List.append_assoc] at hreturned

end Calls

/-! ### Exact link counts -/

def FsInfo.directories (fs : FsInfo) : List UInt32 :=
  ((List.range (fs.inodeCnt.toNat + 1)).map UInt32.ofNat).filter fun n =>
    fs.marked .inode n = true ∧ (fs.record n).type = inodeDirType

def FsInfo.namesIn (fs : FsInfo) (dirs : List UInt32) (n : UInt32) : Nat :=
  (dirs.flatMap fun d => fs.dirEntries (fs.record d)).countP fun e => e.inode = n

/-- A consistent filesystem of well-formed directories, whose entries name allocated inodes, with their types, and in
which every inode has as many links as there are entries that name it. No entry names the reserved inode 1. -/
structure Linked (static : UInt32 → Prop) (fs : FsInfo) : Prop where
  consistent : Consistent static fs
  dir : ∀ d ∈ fs.directories, WellFormedDir static fs d
  entry : ∀ d ∈ fs.directories, ∀ e ∈ fs.dirEntries (fs.record d),
    fs.marked .inode e.inode = true ∧ e.type = entryType (fs.record e.inode) ∧ e.inode ≠ inodeError
  dots : ∀ d ∈ fs.directories, ∀ e ∈ fs.dirEntries (fs.record d), ¬ e.IsKid → (fs.record e.inode).type = inodeDirType
  links : ∀ n, fs.marked .inode n = true → (fs.record n).hardLinkCnt.toNat = fs.namesIn fs.directories n

theorem FsInfo.mem_directories {n : UInt32} :
    n ∈ fs.directories ↔ fs.marked .inode n = true ∧ (fs.record n).type = inodeDirType := by
  rw [directories, List.mem_filter, decide_eq_true_eq]
  refine and_iff_right_of_imp fun h => List.mem_map.mpr ⟨n.toNat, List.mem_range.mpr ?_, UInt32.ofNat_toNat⟩
  have hreal := FsInfo.real_of_marked h.1
  exact Nat.lt_succ_of_le (UInt32.le_iff_toNat_le.mp hreal.2)

theorem FsInfo.nodup_directories : fs.directories.Nodup := by
  refine (List.Nodup.map_on (fun a ha b hb heq => ?_) List.nodup_range).filter _
  have hlt := fs.inodeCnt.toNat_lt
  have htoNat := congrArg UInt32.toNat heq
  rw [List.mem_range] at ha hb
  rwa [UInt32.toNat_ofNat', UInt32.toNat_ofNat', Nat.mod_eq_of_lt (by omega), Nat.mod_eq_of_lt (by omega)] at htoNat

theorem entryType_eq_two_iff {inode : Inode} : entryType inode = 2 ↔ inode.type = inodeDirType := by
  rw [entryType]
  split_ifs with hlink hdir
  · rw [hlink]
    decide
  · exact iff_of_true rfl hdir
  · exact iff_of_false (by decide) hdir

section Links

variable {dirs names : List UInt32} {top : DirEntry} {n p : UInt32}

theorem Linked.type_iff (hlinked : Linked static fs) (hd : d ∈ fs.directories) (he : e ∈ fs.dirEntries (fs.record d)) :
    e.type = 2 ↔ e.inode ∈ fs.directories := by
  obtain ⟨hmark, htype, -⟩ := hlinked.entry d hd e he
  rw [htype, entryType_eq_two_iff, FsInfo.mem_directories]
  exact (and_iff_right hmark).symm

theorem Linked.below (hlinked : Linked static fs) (htop : top.inode ∈ fs.directories)
    (hbelow : EntriesBelow fs.kids (fs.kids top.inode) dirs names) :
    (∀ c ∈ dirs, c ∈ fs.directories ∧ c ≠ inodeError) ∧
      ∀ n ∈ names, fs.marked .inode n = true ∧ n ∉ fs.directories ∧ n ≠ inodeError := by
  have hstep : ∀ d ∈ fs.directories, ∀ e ∈ fs.kids d,
      (e.type = 2 → e.inode ∈ fs.directories ∧ e.inode ≠ inodeError) ∧
      (¬ e.type = 2 → fs.marked .inode e.inode = true ∧ e.inode ∉ fs.directories ∧ e.inode ≠ inodeError) := by
    intro d hd e he
    have he := (List.mem_filter.mp he).1
    obtain ⟨hmark, -, hreserved⟩ := hlinked.entry d hd e he
    have hiff := hlinked.type_iff hd he
    exact ⟨fun h => ⟨hiff.mp h, hreserved⟩, fun h => ⟨hmark, fun hmem => h (hiff.mpr hmem), hreserved⟩⟩
  exact hbelow.forall_mem (fun d hd => hstep d hd.1) (hstep _ htop)

theorem Linked.namesIn_tree (hlinked : Linked static fs) (htop : top.inode ∈ fs.directories)
    (hbelow : EntriesBelow fs.kids (fs.kids top.inode) dirs names) (hfile : n ∉ fs.directories) :
    fs.namesIn (top.inode :: dirs) n = names.count n := by
  have hkids : fs.kids top.inode ++ dirs.flatMap fs.kids =
      ((top.inode :: dirs).flatMap fun d => fs.dirEntries (fs.record d)).filter fun e => e.IsKid := by
    rw [List.filter_flatMap]
    rfl
  rw [hbelow.leaves_perm.count_eq, hkids, List.filter_filter, List.count, List.countP_map, List.countP_filter,
    FsInfo.namesIn]
  refine List.countP_congr fun e he => ?_
  obtain ⟨d, hd, he⟩ := List.mem_flatMap.mp he
  have hd : d ∈ fs.directories := by
    obtain rfl | hd := List.mem_cons.mp hd
    · exact htop
    · exact ((hlinked.below htop hbelow).1 d hd).1
  simp only [Function.comp_apply, beq_iff_eq, decide_eq_true_eq, Bool.and_eq_true]
  refine ⟨fun heq => ⟨heq, fun htype => ?_, ?_⟩, And.left⟩
  · exact hfile (heq ▸ (hlinked.type_iff hd he).mp htype)
  · by_contra hkid
    refine hfile (heq ▸ FsInfo.mem_directories.mpr ⟨(hlinked.entry d hd e he).1, hlinked.dots d hd e he hkid⟩)

theorem Linked.namesIn_eq (hlinked : Linked static fs) (htop : top.inode ∈ fs.directories)
    (hbelow : EntriesBelow fs.kids (fs.kids top.inode) dirs names) (hnodup : (top.inode :: dirs).Nodup)
    (hfile : n ∉ fs.directories) :
    fs.namesIn fs.directories n =
      names.count n + fs.namesIn (fs.directories.filter (· ∉ top.inode :: dirs)) n := by
  have htree : (fs.directories.filter (· ∈ top.inode :: dirs)).Perm (top.inode :: dirs) := by
    refine (List.perm_ext_iff_of_nodup (FsInfo.nodup_directories.filter _) hnodup).mpr fun c => ?_
    rw [List.mem_filter, decide_eq_true_eq]
    refine and_iff_right_of_imp fun hc => ?_
    obtain rfl | hc := List.mem_cons.mp hc
    · exact htop
    · exact ((hlinked.below htop hbelow).1 c hc).1
  have hperm := (List.filter_append_perm (· ∈ top.inode :: dirs) fs.directories).symm.trans (htree.append_right _)
  rw [← hlinked.namesIn_tree htop hbelow hfile, FsInfo.namesIn, (hperm.flatMap_right _).countP_eq, List.flatMap_append,
    List.countP_append]
  simp only [← decide_not]
  rfl

theorem Linked.removable {m : Machine} {i : Slot} {index : UInt32} (hlinked : Linked static (m.fsEntries i))
    (hindex : m.fsFromIndex index = some i) (hparent : p ∈ (m.fsEntries i).directories)
    (hfound : findEntry ((m.fsEntries i).dirEntries ((m.fsEntries i).record p)) top.name = some top)
    (hkid : top.IsKid) (htype : top.type = 2)
    (hbelow : EntriesBelow (m.fsEntries i).kids ((m.fsEntries i).kids top.inode) dirs names)
    (hnodup : (top.inode :: dirs).Nodup) (hunmounted : ∀ n ∈ p :: top.inode :: dirs, (m.mntRoot i n).1 = false) :
    Removable static m i index (m.fsEntries i).kids p top ((m.fsEntries i).kids top.inode) dirs names := by
  have hentry := (findEntry_some hfound).1
  have htop := (hlinked.type_iff hparent hentry).mp htype
  obtain ⟨hdirs, hfiles⟩ := hlinked.below htop hbelow
  have hall : ∀ c ∈ top.inode :: dirs, c ∈ (m.fsEntries i).directories ∧ c ≠ inodeError :=
    List.forall_mem_cons.mpr ⟨⟨htop, (hlinked.entry p hparent top hentry).2.2⟩, hdirs⟩
  have hreal : ∀ c ∈ (m.fsEntries i).directories, ∀ e ∈ (m.fsEntries i).dirEntries ((m.fsEntries i).record c),
      (m.fsEntries i).geo.Real .inode e.inode := fun c hc e he => FsInfo.real_of_marked (hlinked.entry c hc e he).1
  have hmem : top ∈ (m.fsEntries i).kids p := List.mem_filter.mpr ⟨hentry, decide_eq_true hkid⟩
  refine ⟨⟨rfl, fun c hc => hlinked.dir c (hall c hc).1, fun c hc => hreal c (hall c hc).1, fun _ _ => rfl, hnodup,
    fun n hn => ⟨(hfiles n hn).1, fun h => (hfiles n hn).2.1 (FsInfo.mem_directories.mpr ⟨(hfiles n hn).1, h⟩)⟩,
    fun n => ?_, fun n hn => ?_⟩, hlinked.dir p hparent, hreal p hparent, hfound, hkid, fun hp => ?_, hindex, hunmounted⟩
  · by_cases hn : n ∈ names
    · rw [hlinked.links n (hfiles n hn).1, hlinked.namesIn_eq htop hbelow hnodup (hfiles n hn).2.1]
      exact Nat.le_add_right _ _
    · rw [List.count_eq_zero.mpr hn]
      exact Nat.zero_le _
  · rcases List.mem_append.mp hn with hn | hn
    · exact (hall n hn).2
    · exact (hfiles n hn).2.2
  · -- the parent below its own entry would put the entry below itself
    refine (List.nodup_cons.mp hnodup).1 ?_
    obtain rfl | hp := List.mem_cons.mp hp
    · exact hbelow.target_mem hmem htype
    · exact hbelow.closed hp hmem htype

end Links

/-! ### The whole command -/

def FsInfo.NamedOutside (fs : FsInfo) (tree : List UInt32) (n : UInt32) : Prop :=
  ∃ d ∈ fs.directories, d ∉ tree ∧ ∃ e ∈ fs.dirEntries (fs.record d), e.inode = n

/-- From `fs` to `fs'` the entry `top` of directory `p` was removed with the tree below it, of which `tree` are the
directories and `names` the files, name by name. -/
structure TreeGone (static : UInt32 → Prop) (fs fs' : FsInfo) (p : UInt32) (top : DirEntry) (tree names : List UInt32) :
    Prop where
  consistent : Consistent static fs'
  geo : fs'.geo = fs.geo
  /-- The entries of the parent are those from before without `top`. -/
  entry : Lost fs fs' p top
  /-- The parent lost the link from `..`, and its time is another. -/
  parent : fs'.marked .inode p = true ∧ ∃ time, fs'.record p =
    { fs.record p with hardLinkCnt := (fs.record p).hardLinkCnt - 1, lastModTime := time }
  dirs : ∀ n ∈ tree, fs'.marked .inode n = false
  /-- A file that had all its names in the tree is free. -/
  files : ∀ n ∈ names, ¬ fs.NamedOutside tree n → fs'.marked .inode n = false
  /-- A file with a name outside has lost a link for each name in the tree, and nothing else. -/
  shared : ∀ n ∈ names, fs.NamedOutside tree n → fs'.marked .inode n = true ∧ SameBody fs fs' n ∧
    names.count n < (fs.record n).hardLinkCnt.toNat ∧ fs'.record n =
      { fs.record n with hardLinkCnt := (fs.record n).hardLinkCnt - UInt16.ofNat (names.count n) }
  others : ∀ n, n ∉ tree → n ∉ names → n ≠ p →
    fs'.marked .inode n = fs.marked .inode n ∧ (fs.marked .inode n = true → SameFile fs fs' n)
  /-- The blocks of the released inodes are free, and no other block changed hands. -/
  blocks : ∀ b, fs'.Used b ↔ fs.Used b ∧ ∀ n, fs.Owner n → b ∈ fs.owns n → fs'.marked .inode n = true
  owns : ∀ n, fs'.marked .inode n = true → fs.Owner n → fs'.owns n = fs.owns n
  dirCnt : ∀ g, fs'.dirCnt g = fs.dirCnt g - UInt16.ofNat (tree.countP (fs.groupOf · = g))

theorem Linked.namedOutside_iff (hlinked : Linked static fs) {top : DirEntry} {dirs names : List UInt32} {n : UInt32}
    (htop : top.inode ∈ fs.directories) (hbelow : EntriesBelow fs.kids (fs.kids top.inode) dirs names)
    (hnodup : (top.inode :: dirs).Nodup) (hn : n ∈ names) :
    fs.NamedOutside (top.inode :: dirs) n ↔ names.count n < (fs.record n).hardLinkCnt.toNat := by
  obtain ⟨hmark, hfile, -⟩ := (hlinked.below htop hbelow).2 n hn
  rw [hlinked.links n hmark, hlinked.namesIn_eq htop hbelow hnodup hfile, Nat.lt_add_right_iff_pos, FsInfo.namesIn,
    List.countP_pos_iff]
  constructor
  · rintro ⟨d, hd, hout, e, he, heq⟩
    refine ⟨e, List.mem_flatMap.mpr ⟨d, List.mem_filter.mpr ⟨hd, ?_⟩, he⟩, decide_eq_true heq⟩
    simpa using hout
  · rintro ⟨e, he, heq⟩
    obtain ⟨d, hd, he⟩ := List.mem_flatMap.mp he
    obtain ⟨hd, hout⟩ := List.mem_filter.mp hd
    exact ⟨d, hd, by simpa using hout, e, he, of_decide_eq_true heq⟩

theorem TreeRemoved.treeGone (hlinked : Linked static fs) {p : UInt32} {top : DirEntry} {dirs names : List UInt32}
    (hremoved : TreeRemoved static fs fs' p top dirs names) (hparent : p ∈ fs.directories)
    (htop : top.inode ∈ fs.directories) (hbelow : EntriesBelow fs.kids (fs.kids top.inode) dirs names)
    (hnodup : (top.inode :: dirs).Nodup) : TreeGone static fs fs' p top (top.inode :: dirs) names := by
  have hpruned := hremoved.pruned
  have htree : (dirs ++ [top.inode]).Perm (top.inode :: dirs) := List.perm_append_singleton _ _
  have hnotDir : ∀ n ∈ names, n ∉ fs.directories := fun n hn => ((hlinked.below htop hbelow).2 n hn).2.1
  have hapart : ∀ n ∈ names, n ≠ p ∧ n ∉ dirs ++ [top.inode] := by
    intro n hn
    refine ⟨fun heq => hnotDir n hn (heq ▸ hparent), fun hmem => hnotDir n hn ?_⟩
    obtain rfl | hmem := List.mem_cons.mp (htree.mem_iff.mp hmem)
    · exact htop
    · exact ((hlinked.below htop hbelow).1 n hmem).1
  refine ⟨hpruned.consistent, hpruned.geo, hremoved.lost, ⟨hpruned.mark, ?_⟩,
    fun n hn => hpruned.free_of_mem (htree.mem_iff.mpr hn), fun n hn hout => ?_, fun n hn hout => ?_,
    fun n hdir hfile hne => ?_, hpruned.toThinned.used_iff hlinked.consistent, hpruned.owns, fun g => ?_⟩
  · obtain ⟨links, time, hrecord⟩ := hpruned.record
    refine ⟨time, ?_⟩
    have hlinks := hremoved.links
    rw [hrecord] at hlinks ⊢
    rw [← hlinks]
  · rw [Bool.eq_false_iff]
    exact fun hmark => hout ((hlinked.namedOutside_iff htop hbelow hnodup hn).mpr (((hpruned.kept n).mp hmark).2.2 hn))
  · have hless := (hlinked.namedOutside_iff htop hbelow hnodup hn).mp hout
    have hmark := (hpruned.kept n).mpr ⟨((hlinked.below htop hbelow).2 n hn).1, (hapart n hn).2, fun _ => hless⟩
    exact ⟨hmark, hpruned.others n hmark (hapart n hn).1, hless, hpruned.record_eq hmark (hapart n hn).1⟩
  · have hiff : fs'.marked .inode n = true ↔ fs.marked .inode n = true := by
      rw [hpruned.kept, htree.mem_iff]
      exact ⟨And.left, fun h => ⟨h, hdir, fun hmem => absurd hmem hfile⟩⟩
    refine ⟨Bool.eq_iff_iff.mpr hiff, fun hmark => ?_⟩
    have hmark' := hiff.mpr hmark
    have hsame := hpruned.others n hmark' hne
    refine ⟨?_, hsame.holes, hsame.bytes⟩
    rw [hpruned.record_eq hmark' hne, List.count_eq_zero.mpr hfile]
    change { fs.record n with hardLinkCnt := (fs.record n).hardLinkCnt - 0 } = _
    rw [UInt16.sub_zero]
  · rw [hpruned.dirCnt, htree.countP_eq]

/-- **Removing a tree.** In a filesystem with exact link counts `rm_tree` returns for every finite tree without a
mountpoint. It returns true when every name in the tree has 1 to 255 characters of 7 bits, and when it returns true the
tree is gone and nothing else has changed. -/
theorem rmTree_removes_tree {s : Rm} {i : Slot} {index p : UInt32} {name : Buf} {top : DirEntry}
    {dirs names : List UInt32} (hlinked : Linked static (s.machine.fsEntries i))
    (hindex : s.machine.fsFromIndex index = some i) (hparent : p ∈ (s.machine.fsEntries i).directories)
    (hfound : findEntry ((s.machine.fsEntries i).dirEntries ((s.machine.fsEntries i).record p)) (nameOf name) = some top)
    (hkid : top.IsKid) (htype : top.type = 2)
    (hbelow : EntriesBelow (s.machine.fsEntries i).kids ((s.machine.fsEntries i).kids top.inode) dirs names)
    (hnodup : (top.inode :: dirs).Nodup) (hunmounted : ∀ n ∈ p :: top.inode :: dirs, (s.machine.mntRoot i n).1 = false)
    (clock : Nat → UInt32) (stack : Buf) {fuel : Nat} (hfuel : dirs.length + names.length < fuel) :
    ∃ ok s', rmTree clock stack index fuel p name top.inode s = .ok (some ok, s') ∧
      (TreeNamesOk (s.machine.fsEntries i).kids top ((s.machine.fsEntries i).kids top.inode) dirs → ok = true) ∧
      (ok = true → ∃ fs', s'.machine = s.machine.withFs i fs' ∧
        TreeGone static (s.machine.fsEntries i) fs' p top (top.inode :: dirs) names) := by
  have hname : nameOf name = top.name := (findEntry_some hfound).2.symm
  have htop := (hlinked.type_iff hparent (findEntry_some hfound).1).mp htype
  rw [hname] at hfound
  have hcall := hlinked.removable hindex hparent hfound hkid htype hbelow hnodup hunmounted
  obtain ⟨r, s', hrun, ok, rfl, hnamed, hdone⟩ := rmTree_spec clock stack hbelow hfuel hname hcall
  refine ⟨ok, s', hrun, hnamed, fun hok => ?_⟩
  obtain ⟨fs', hmachine, hremoved⟩ := hdone hok
  exact ⟨fs', hmachine, hremoved.treeGone hlinked hparent htop hbelow hnodup⟩

/-! ### A file with a name inside and a name outside -/

def shared : Sample where
  inodes := [.zero, oneBlockDir 3 5, oneBlockDir 2 6, { smallFile with hardLinkCnt := 2 }]
  spare := []
  block b :=
    if b = 5 then
      smallRecord (smallRecord (smallRecord (smallRecord zero 0 2 12 1 2 46 0) 12 2 12 2 2 46 46) 24 3 12 1 2 100 0)
        36 4 4060 1 1 103 0
    else smallRecord (smallRecord (smallRecord zero 0 3 12 1 2 46 0) 12 2 12 2 2 46 46) 24 4 4072 1 1 102 0

def sharedRm : Rm where
  shell := ⟨{ smallMachine with fsEntries := fun _ => shared.fs }, zero, zero, zero⟩
  fsBuf := zero
  warned := false
  out := []
  calls := 0

theorem shared_directories : shared.fs.directories = [2, 3] := by decide +kernel

theorem shared_root : shared.fs.dirEntries (shared.fs.record 2) =
    [⟨dot, 2, 2⟩, ⟨dotDot, 2, 2⟩, ⟨[100], 3, 2⟩, ⟨[103], 4, 1⟩] := by decide +kernel

theorem shared_sub : shared.fs.dirEntries (shared.fs.record 3) =
    [⟨dot, 3, 2⟩, ⟨dotDot, 2, 2⟩, ⟨[102], 4, 1⟩] := by decide +kernel

theorem shared_record : shared.fs.record 2 = oneBlockDir 3 5 ∧ shared.fs.record 3 = oneBlockDir 2 6 ∧
    shared.fs.record 4 = { smallFile with hardLinkCnt := 2 } :=
  ⟨Sample.fs_record (by decide), Sample.fs_record (by decide), Sample.fs_record (by decide)⟩

theorem shared_marked {n : UInt32} (hreal : smallFs.geo.Real .inode n) :
    shared.fs.marked .inode n = true ↔ n.toNat - 1 < 4 :=
  Sample.fs_marked_iff hreal

theorem shared_linked : Linked shared.static shared.fs := by
  have hok : shared.Ok := by decide +kernel
  have hcons := Sample.consistent hok
  obtain ⟨hroot, hsub, hfile⟩ := shared_record
  have hmarks : shared.fs.marked .inode 2 = true ∧ shared.fs.marked .inode 3 = true ∧ shared.fs.marked .inode 4 = true :=
    ⟨(shared_marked (by decide)).mpr (by decide), (shared_marked (by decide)).mpr (by decide),
      (shared_marked (by decide)).mpr (by decide)⟩
  have hdirs : ∀ {P : UInt32 → Prop}, P 2 → P 3 → ∀ d ∈ shared.fs.directories, P d := by
    intro P htwo hthree d hd
    rw [shared_directories] at hd
    obtain rfl | hd := List.mem_cons.mp hd
    · exact htwo
    · rwa [List.mem_singleton.mp hd]
  refine ⟨hcons, hdirs ?_ ?_, hdirs ?_ ?_, hdirs ?_ ?_, fun n hn => ?_⟩
  · refine ⟨hcons, hmarks.1, by rw [hroot]; rfl, by decide +kernel, ?_⟩
    rw [shared_root]
    simp [dot, dotDot]
  · refine ⟨hcons, hmarks.2.1, by rw [hsub]; rfl, by decide +kernel, ?_⟩
    rw [shared_sub]
    simp [dot, dotDot]
  · rw [shared_root]
    simp only [List.forall_mem_cons, List.not_mem_nil, false_implies, implies_true, and_true, hroot, hsub, hfile, hmarks,
      true_and]
    decide
  · rw [shared_sub]
    simp only [List.forall_mem_cons, List.not_mem_nil, false_implies, implies_true, and_true, hroot, hsub, hfile, hmarks,
      true_and]
    decide
  · rw [shared_root]
    simp only [List.forall_mem_cons, List.not_mem_nil, false_implies, implies_true, and_true, hroot, hsub]
    decide
  · rw [shared_sub]
    simp only [List.forall_mem_cons, List.not_mem_nil, false_implies, implies_true, and_true, hroot, hsub]
    decide
  · have hreal : smallFs.geo.Real .inode n := by
      have hreal := FsInfo.real_of_marked hn
      rwa [Sample.fs_geo] at hreal
    have hlt := (shared_marked hreal).mp hn
    rw [FsInfo.namesIn, shared_directories]
    simp only [List.flatMap_cons, List.flatMap_nil, shared_root, shared_sub]
    have hpos : 0 < n.toNat := UInt32.lt_iff_toNat_lt.mp hreal.1
    obtain h | h | h | h : n.toNat = 1 ∨ n.toNat = 2 ∨ n.toNat = 3 ∨ n.toNat = 4 := by omega
    · obtain rfl : n = 1 := UInt32.toNat_inj.mp h
      rw [show shared.fs.record 1 = .zero from Sample.fs_record hreal]
      decide
    · obtain rfl : n = 2 := UInt32.toNat_inj.mp h
      rw [hroot]
      decide
    · obtain rfl : n = 3 := UInt32.toNat_inj.mp h
      rw [hsub]
      decide
    · obtain rfl : n = 4 := UInt32.toNat_inj.mp h
      rw [hfile]
      decide

/-- `rm -r /d`, where the file in `/d` has another name in the root. -/
theorem rmTree_removes_tree_shared :
    ∃ s' fs', rmTree (fun _ => 0) zero 0 2 2 (cstr [100]) 3 sharedRm = .ok (some true, s') ∧
      s'.machine = sharedRm.machine.withFs 0 fs' ∧ TreeGone shared.static shared.fs fs' 2 ⟨[100], 3, 2⟩ [3] [4] := by
  have hbelow : EntriesBelow shared.fs.kids (shared.fs.kids 3) [] [4] := by
    rw [FsInfo.kids, shared_sub]
    exact .leaf (by decide) .nil
  have hfound : findEntry (shared.fs.dirEntries (shared.fs.record 2)) (nameOf (cstr [100])) =
      some ⟨[100], 3, 2⟩ := by
    rw [shared_root]
    decide
  have hunmounted : ∀ n ∈ [2, 3], (sharedRm.machine.mntRoot 0 n).1 = false := by
    simp only [List.forall_mem_cons, List.not_mem_nil, false_implies, implies_true, and_true]
    decide
  have hnames : TreeNamesOk shared.fs.kids ⟨[100], 3, 2⟩ (shared.fs.kids 3) [] := by
    rw [TreeNamesOk, FsInfo.kids, shared_sub]
    decide
  have hindex : sharedRm.machine.fsFromIndex 0 = some 0 := by decide
  obtain ⟨ok, s', hrun, hnamed, hgone⟩ := rmTree_removes_tree (s := sharedRm) (i := 0) shared_linked hindex
    (by rw [show (sharedRm.machine.fsEntries 0).directories = _ from shared_directories]; decide) hfound (by decide) rfl
    hbelow (by decide) hunmounted (fun _ => 0) zero (show 0 + 1 < 2 by decide)
  obtain rfl := hnamed hnames
  obtain ⟨fs', hmachine, htree⟩ := hgone rfl
  exact ⟨s', fs', hrun, hmachine, htree⟩

end DeprecatOS
