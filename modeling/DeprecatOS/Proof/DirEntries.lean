import DeprecatOS.Proof.DirBlocks

/-!
# Changing the entries of a directory

`dir_insert` and `dir_remove` rewrite one block of the directory, or map a new one, and then store the records of
the two inodes concerned: the link count of the child and the time of the directory. The child may be the directory
itself. What they add up to is a change of one directory, of which the other inodes notice their link counts only.
-/

namespace DeprecatOS

open Bytes Bits Fault PointerTree

variable {static : UInt32 → Prop} {fs fs₁ fs₂ fs' : FsInfo} {d c : UInt32} {body inode inode' : Inode}

/-! ### A directory that is being written -/

/-- Inode `d` was written, and of the other inodes at most the link counts and the times. -/
structure Touched (static : UInt32 → Prop) (fs fs' : FsInfo) (d : UInt32) : Prop where
  consistent : Consistent static fs'
  geo : fs'.geo = fs.geo
  marks : fs'.marked .inode = fs.marked .inode
  dirCnt : fs'.dirCnt = fs.dirCnt
  others : ∀ m, fs.geo.Real .inode m → m ≠ d → SameBody fs fs' m

/-- The blocks of inode `d` are those of `body`, which is still to be stored as its record. -/
structure Pending (static : UInt32 → Prop) (fs fs₁ : FsInfo) (d : UInt32) (body : Inode) : Prop where
  trade : Trade static (fs.owns d) (refs fs₁.entries body) fs fs₁
  ok : InodeOk static fs₁ body

/-- The record of `d` is `body` up to the link count and the time, and the blocks are as they were. -/
structure Settled (static : UInt32 → Prop) (fs fs₁ fs₂ : FsInfo) (d : UInt32) (body : Inode) : Prop
    extends Touched static fs fs₂ d where
  record : body.Relinked (fs₂.record d)
  used : ∀ b, fs₂.Used b ↔ fs₁.Used b
  data : ∀ j < fileBlkLimit, SameData fs₁ fs₂ body (fs₂.record d) j
  owns : fs₂.owns d = refs fs₁.entries body
  otherOwns : ∀ m, fs.Owner m → m ≠ d → fs₂.owns m = fs.owns m
  times : ∀ m, fs.geo.Real .inode m → m ≠ d → (fs₂.record m).lastModTime = (fs.record m).lastModTime

/-- The ends of `dir_insert` and `dir_remove`: the link count of inode `c` changes by `f`, and directory `d`, the same
inode or another, was modified. -/
def stampLinks (f : UInt16 → UInt16) (now d c : UInt32) (body child : Inode) : FsM Bool := do
  if d = c then setInode d { body with hardLinkCnt := f body.hardLinkCnt, lastModTime := now }
  else if ← setInode c { child with hardLinkCnt := f child.hardLinkCnt } then
    setInode d { body with lastModTime := now }
  else pure false

/-- The records of `d` and of a child were stored, of which at most the link counts and the times are other than in
`body` and before. -/
structure Stamped (static : UInt32 → Prop) (fs fs₁ fs₂ : FsInfo) (d : UInt32) (body : Inode) : Prop where
  rework : Rework static fs fs₂ d (fs.owns d) (refs fs₁.entries body)
  marks : fs₂.marked .inode = fs₁.marked .inode
  dirCnt : fs₂.dirCnt = fs₁.dirCnt
  data : ∀ b, ¬ static b → fs₂.data b = fs₁.data b
  used : ∀ b, fs₂.Used b ↔ fs₁.Used b
  record : body.Relinked (fs₂.record d)
  times : ∀ m, fs.geo.Real .inode m → m ≠ d → (fs₂.record m).lastModTime = (fs.record m).lastModTime

section Traded

variable (hcons : Consistent static fs) (howner : fs.Owner d)
  (htrade : Trade static (fs.owns d) (refs fs₁.entries body) fs fs₁)

include hcons howner htrade

theorem Trade.rework : Rework static fs fs₁ d (fs.owns d) (refs fs₁.entries body) := by
  have hinode := hcons.inode d howner
  have hstart := Change.refl hcons.mounted d hinode.tree.used
  exact (hstart.trade hcons.layout hinode.tree.notStatic htrade).rework

theorem Trade.stampLinks_spec (hc : fs.geo.Real .inode c)
    (hlinks : body.hardLinkCnt = (fs.record d).hardLinkCnt) (f : UInt16 → UInt16) (now : UInt32) :
    Runs (stampLinks f now d c body (fs.record c)) fs₁ fun ok fs₂ => ok = true ∧
      Stamped static fs fs₁ fs₂ d body ∧ ∀ m, fs.geo.Real .inode m → (fs₂.record m).hardLinkCnt =
        if m = c then f (fs.record m).hardLinkCnt else (fs.record m).hardLinkCnt := by
  have hframe := htrade.frame
  have hlayout := hcons.layout.of_geo hframe.geo
  have hd := FsInfo.real_of_marked howner.1
  have hrework := htrade.rework hcons howner
  have hrecord : ∀ m, fs.geo.Real .inode m → fs₁.record m = fs.record m := fun m hm =>
    hcons.record_eq_of_trade howner htrade hm
  rw [stampLinks]
  split_ifs with heq
  · subst heq
    refine (setInode_spec hframe.mounted hlayout (by rwa [hframe.geo]) _).mono fun ok fs₂ hstored => ?_
    obtain ⟨hok, hstored⟩ := hstored
    refine ⟨hok, ?_, fun m hm => ?_⟩
    · refine ⟨hrework.stored hstored, hstored.frame.inodes, hstored.frame.dirCnt, hstored.data, hstored.used,
        by rw [hstored.record]; exact ⟨_, _, rfl⟩, fun m hm hmd => ?_⟩
      rw [hstored.others m (by rwa [hframe.geo]) hmd, hrecord m hm]
    · by_cases hmd : m = d
      · rw [if_pos hmd, hmd, hstored.record, ← hlinks]
      · rw [if_neg hmd, hstored.others m (by rwa [hframe.geo]) hmd, hrecord m hm]
  · refine (setInode_spec hframe.mounted hlayout (by rwa [hframe.geo]) _).bind fun ok mid hchild => ?_
    obtain ⟨rfl, hchild⟩ := hchild
    rw [if_pos rfl]
    have hgeo := hchild.frame.geo.trans hframe.geo
    have hreworkMid := hrework.relinked (by rw [hrecord c hc]; exact ⟨_, _, rfl⟩) hchild
    refine (setInode_spec hchild.frame.mounted (hcons.layout.of_geo hgeo) (by rwa [hgeo]) _).mono
      fun ok fs₂ hstored => ?_
    obtain ⟨hok, hstored⟩ := hstored
    refine ⟨hok, ?_, fun m hm => ?_⟩
    · refine ⟨hreworkMid.stored hstored, hstored.frame.inodes.trans hchild.frame.inodes,
        hstored.frame.dirCnt.trans hchild.frame.dirCnt, fun b hb => (hstored.data b hb).trans (hchild.data b hb),
        fun b => (hstored.used b).trans (hchild.used b), by rw [hstored.record]; exact ⟨_, _, rfl⟩, fun m hm hmd => ?_⟩
      rw [hstored.others m (by rwa [hgeo]) hmd]
      by_cases hmc : m = c
      · rw [hmc, hchild.record]
      · rw [hchild.others m (by rwa [hframe.geo]) hmc, hrecord m hm]
    · by_cases hmd : m = d
      · subst hmd
        rw [if_neg heq, hstored.record, ← hlinks]
      · rw [hstored.others m (by rwa [hgeo]) hmd]
        by_cases hmc : m = c
        · rw [if_pos hmc, hmc, hchild.record]
        · rw [if_neg hmc, hchild.others m (by rwa [hframe.geo]) hmc, hrecord m hm]

end Traded

section Pending

variable (hcons : Consistent static fs) (howner : fs.Owner d) (hpending : Pending static fs fs₁ d body)

include hcons howner hpending

theorem Pending.settled (hstamped : Stamped static fs fs₁ fs₂ d body) : Settled static fs fs₁ fs₂ d body := by
  have hframe := hpending.trade.frame
  have hok := hpending.ok
  have hrecord := hstamped.record
  obtain ⟨hok', hrefs, hsame⟩ := hok.of_data (fun b hb => (hstamped.used b).mpr (hok.tree.used b hb))
    fun b hb => hstamped.data b (hok.tree.notStatic b hb)
  have hmarks : fs₂.marked .inode = fs.marked .inode := hstamped.marks.trans hframe.inodes
  have hold : ∀ b, b ∈ fs.owns d ↔ fs.Owner d ∧ b ∈ fs.owns d := fun b => (and_iff_right howner).symm
  have hnew : ∀ b, b ∈ refs fs₁.entries body ↔ fs₂.Owner d ∧ b ∈ fs₂.owns d := by
    intro b
    rw [FsInfo.owns, FsInfo.Owner, hrecord.refs_eq, hrefs, hrecord.inline_iff, hmarks, and_assoc,
      and_iff_right howner.1]
    exact ⟨fun hb => ⟨hok.not_inline hb, hb⟩, And.right⟩
  have hrework := hstamped.rework
  refine ⟨⟨hrework.consistent hcons hold hnew fun _ => hrecord.inodeOk hok', hrework.geo, hmarks,
    hstamped.dirCnt.trans hframe.dirCnt, fun m hm hne => hrework.sameBody hcons hold hm hne⟩, hrecord, hstamped.used,
    fun j hj => ?_, ?_, fun m hm hne => (hrework.other hcons hold hm hne).2.1, hstamped.times⟩
  · exact (hsame j hj).of_root hrecord.root_eq
  · rw [FsInfo.owns, hrecord.refs_eq, hrefs]

theorem Pending.stampLinks_spec (hc : fs.geo.Real .inode c)
    (hlinks : body.hardLinkCnt = (fs.record d).hardLinkCnt) (f : UInt16 → UInt16) (now : UInt32) :
    Runs (stampLinks f now d c body (fs.record c)) fs₁ fun ok fs₂ => ok = true ∧
      Settled static fs fs₁ fs₂ d body ∧ ∀ m, fs.geo.Real .inode m → (fs₂.record m).hardLinkCnt =
        if m = c then f (fs.record m).hardLinkCnt else (fs.record m).hardLinkCnt :=
  (hpending.trade.stampLinks_spec hcons howner hc hlinks f now).mono fun _ _ hdone =>
    ⟨hdone.1, hpending.settled hcons howner hdone.2.1, hdone.2.2⟩

end Pending

/-! ### One block is rewritten -/

theorem SameData.fileBlock_eq {j : Nat} (hsame : SameData fs fs' inode inode' j) :
    fs'.fileBlock inode' j = fs.fileBlock inode j := by
  funext k
  rw [FsInfo.fileBlock, FsInfo.fileBlock]
  split_ifs with hk
  · have hdiv : (blockSize * j + k) / blockSize = j := by
      rw [blockSize] at *
      omega
    exact SameData.byte_eq (by rwa [hdiv])
  · rfl

theorem Rewrote.used {i : Nat} {buf : Buf} (htree : TreeOk static fs inode) (hwrote : Rewrote static fs fs₁ inode i buf)
    (q : UInt32) : fs₁.Used q ↔ fs.Used q := by
  rw [hwrote.reshaped.trade.used, hwrote.refs_eq]
  by_cases hq : q ∈ refs fs.entries inode
  · exact iff_of_true (.inr hq) (htree.used q hq)
  · simp [hq]

theorem Pending.of_rewrote {i : Nat} {buf : Buf} (hok : InodeOk static fs (fs.record d))
    (hwrote : Rewrote static fs fs₁ (fs.record d) i buf) : Pending static fs fs₁ d (fs.record d) := by
  refine ⟨hwrote.reshaped.trade, hwrote.reshaped.tree, fun j hj hpast => ?_, ?_⟩
  · rw [hwrote.mapped_eq j hj]
    exact hok.short j hj hpast
  · rw [hwrote.refs_eq]
    exact hok.sectors

theorem Rewrote.settled {i : Nat} {buf : Buf} (hcons : Consistent static fs) (howner : fs.Owner d)
    (hwrote : Rewrote static fs fs₁ (fs.record d) i buf) : Settled static fs fs₁ fs₁ d (fs.record d) := by
  have hpending := Pending.of_rewrote (hcons.inode d howner) hwrote
  refine hpending.settled hcons howner ⟨hpending.trade.rework hcons howner, rfl, rfl, fun _ _ => rfl, fun _ => Iff.rfl,
    ?_, fun m hm _ => ?_⟩
  · rw [hcons.record_eq_of_trade howner hpending.trade (FsInfo.real_of_marked howner.1)]
    exact .refl _
  · rw [hcons.record_eq_of_trade howner hpending.trade hm]

theorem Settled.rewritten {i : Nat} {buf : Buf} (hdir : DirOk fs (fs.record d)) (hi : i < (fs.record d).dirBlocks)
    (hwrote : Rewrote static fs fs₁ (fs.record d) i buf) (hsettled : Settled static fs fs₁ fs₂ d (fs.record d))
    (hblock : BlockOk buf) :
    DirOk fs₂ (fs₂.record d) ∧ fs₂.dirEntries (fs₂.record d) = fs.entriesFrom (fs.record d) 0 i ++
      (blockEntries buf ++ fs.entriesFrom (fs.record d) (i + 1) ((fs.record d).dirBlocks - (i + 1))) := by
  have hsize := hsettled.record.sizeLo_eq
  have hblocks : (fs₂.record d).dirBlocks = (fs.record d).dirBlocks := by
    rw [Inode.dirBlocks, Inode.dirBlocks, hsize]
  have hmapped : ∀ j < (fs.record d).dirBlocks,
      mapped fs₂.entries (fs₂.record d) j = mapped fs.entries (fs.record d) j := by
    intro j hj
    have hlimit := Inode.lt_fileBlkLimit hj
    rw [(hsettled.data j hlimit).1, hwrote.mapped_eq j hlimit]
  have hothers : ∀ j < (fs.record d).dirBlocks, j ≠ i →
      fs₂.fileBlock (fs₂.record d) j = fs.fileBlock (fs.record d) j := by
    intro j hj hne
    have hlimit := Inode.lt_fileBlkLimit hj
    exact ((hwrote.others j hlimit hne).trans (hsettled.data j hlimit)).fileBlock_eq
  have hcontent : fs₂.data (mapped fs.entries (fs.record d) i) = buf := by
    have hlimit := Inode.lt_fileBlkLimit hi
    have hsame := (hsettled.data i hlimit).2
    rw [hwrote.mapped_eq i hlimit] at hsame
    rw [hsame (hdir.mapped i hi), hwrote.data_eq]
  have hself : BlockOk (fs₂.fileBlock (fs₂.record d) i) ∧
      blockEntries (fs₂.fileBlock (fs₂.record d) i) = blockEntries buf := by
    refine hblock.congr fun k hk => ?_
    rw [FsInfo.fileBlock_apply (by rw [hmapped i hi]; exact hdir.mapped i hi) hk, hmapped i hi, hcontent]
  refine ⟨⟨?_, fun j hj => ?_, fun j hj => ?_⟩, ?_⟩
  · rw [hsize]
    exact hdir.aligned
  · rw [hblocks] at hj
    rw [hmapped j hj]
    exact hdir.mapped j hj
  · rw [hblocks] at hj
    by_cases heq : j = i
    · rw [heq]
      exact hself.1
    · rw [hothers j hj heq]
      exact hdir.block j hj
  · have hi' : i < (fs₂.record d).dirBlocks := by rwa [hblocks]
    have hrange : ∀ start cnt, start + cnt ≤ (fs.record d).dirBlocks → (start + cnt ≤ i ∨ i < start) →
        fs₂.entriesFrom (fs₂.record d) start cnt = fs.entriesFrom (fs.record d) start cnt := fun start cnt _ _ =>
      FsInfo.entriesFrom_congr fun j _ hj => by rw [hothers j (by omega) (by omega)]
    rw [FsInfo.dirEntries_split fs₂ hi', hself.2, hblocks, hrange 0 i (by omega) (by omega),
      hrange (i + 1) _ (by omega) (by omega)]

/-! ### Inserting -/

structure Inserted (static : UInt32 → Prop) (fs fs' : FsInfo) (d : UInt32) (e : DirEntry) : Prop
    extends Touched static fs fs' d where
  dir : DirOk fs' (fs'.record d)
  type : (fs'.record d).type = (fs.record d).type
  size : (fs'.record d).sizeLo.toNat ≤ (fs.record d).sizeLo.toNat + 4096
  entries : Inserts (fs.dirEntries (fs.record d)) (fs'.dirEntries (fs'.record d)) e
  links : ∀ m, fs.geo.Real .inode m → (fs'.record m).hardLinkCnt =
    if m = e.inode then (fs.record m).hardLinkCnt + 1 else (fs.record m).hardLinkCnt

theorem Inserts.append {es es' : List DirEntry} {e : DirEntry} (hinserts : Inserts es es' e)
    (left right : List DirEntry) : Inserts (left ++ (es ++ right)) (left ++ (es' ++ right)) e := by
  obtain ⟨before, after, rfl, rfl⟩ := hinserts
  exact ⟨left ++ before, after ++ right, by simp, by simp⟩

/-- What a scan of one block comes to: nothing, or what the loop over the blocks ends with. -/
def Scan.result {α : Type} : Scan α → Option (Option α)
  | .malformed => some none
  | .found result => some (some result)
  | .notFound => none

theorem linkChild_eq {now : UInt32} {parent child : Inode} (hsame : d = c → child = parent) :
    linkChild now d c parent child = stampLinks (· + 1) now d c parent child := by
  rw [linkChild, stampLinks]
  split_ifs with heq
  · subst heq
    rw [hsame rfl]
  · rfl

section Insert

variable (hcons : Consistent static fs) (howner : fs.Owner d) (hdir : DirOk fs (fs.record d))

include hcons howner hdir

theorem insertInBlocks_room (hc : fs.geo.Real .inode c) (name : Buf) {len : Nat} (hlen : len < 256) (now : UInt32) :
    Runs (insertInBlocks now d c (fs.record d) (fs.record c) name len ((fs.record d).sizeLo / 4096).toNat 0) fs
      fun result fs' =>
        (result = none ∧ fs' = fs ∧ ∀ i < (fs.record d).dirBlocks,
          ¬ ∃ p ∈ records (fs.data (mapped fs.entries (fs.record d) i)),
            roomAt (fs.data (mapped fs.entries (fs.record d) i)) len p = true) ∨
        ∃ i < (fs.record d).dirBlocks, ∃ p ∈ records (fs.data (mapped fs.entries (fs.record d) i)),
          roomAt (fs.data (mapped fs.entries (fs.record d) i)) len p = true ∧ result = some true ∧
          Inserted static fs fs' d ⟨(List.range len).map name, c, entryType (fs.record c)⟩ ∧
          (fs.record d).Relinked (fs'.record d) ∧ (∀ q, fs'.Used q ↔ fs.Used q) ∧
          fs'.data (mapped fs'.entries (fs'.record d) i) = placeEntry (fs.data (mapped fs.entries (fs.record d) i)) c
            name len (entryType (fs.record c)) p := by
  have hinode := hcons.inode d howner
  have hne : c ≠ 0 := (UInt32.ne_of_lt hc.1).symm
  obtain ⟨hrun, hnone⟩ | ⟨i, found, hi, hfound, -, hrun⟩ := scanDirBlocks hcons.mounted hinode.tree hdir
    (insertInBlocks now d c (fs.record d) (fs.record c) name len)
    (fun block => (insertInBlock block c name len (entryType (fs.record c)) blockSize 0).result)
    (fun blk found => found.elim (pure (some false)) fun scratch => do
      writeBlock blk scratch
      pure (some (← linkChild now d c (fs.record d) (fs.record c)))) none (fun _ => rfl)
    (fun cnt i blk block hread => by
      rw [insertInBlocks, run_bind_ok hread]
      dsimp only
      cases insertInBlock block c name len (entryType (fs.record c)) blockSize 0 <;> rfl)
  · refine Runs.of_eq hrun (.inl ⟨rfl, rfl, fun i hi => ?_⟩)
    rintro ⟨p, hp, hroom⟩
    have hvisit := hnone i hi
    obtain ⟨-, hfull⟩ | ⟨q, -, -, hplaced⟩ :=
      insertInBlock_eq (data_block hdir hi).1 c name len (entryType (fs.record c))
    · rw [hfull p hp] at hroom
      cases hroom
    · rw [hplaced] at hvisit
      cases hvisit
  · refine Runs.of_prog_eq hrun ?_
    obtain ⟨hblock, hentries⟩ := data_block hdir hi
    obtain ⟨hnone, -⟩ | ⟨p, hp, hroom, hplaced, hblock', hinserts⟩ := insertInBlock_spec hblock hlen hne
    · rw [hnone] at hfound
      cases hfound
    rw [hplaced] at hfound
    cases hfound
    have hlimit := Inode.lt_fileBlkLimit hi
    refine (hinode.tree.writeBlock_spec hcons.mounted hlimit (hdir.mapped i hi) _).bind fun _ fs₁ hwrote => ?_
    have hpending := Pending.of_rewrote hinode hwrote
    rw [linkChild_eq fun heq => by rw [heq]]
    refine (hpending.stampLinks_spec hcons howner hc rfl _ now).bind fun ok fs₂ hstamped => ?_
    obtain ⟨rfl, hsettled, hlinks⟩ := hstamped
    obtain ⟨hdir', hentries'⟩ := hsettled.rewritten hdir hi hwrote hblock'
    refine Runs.pure (.inr ⟨i, hi, p, hp, hroom, rfl,
      ⟨hsettled.toTouched, hdir', hsettled.record.type_eq, ?_, ?_, hlinks⟩, hsettled.record,
      fun q => (hsettled.used q).trans (hwrote.used hinode.tree q), ?_⟩)
    · rw [hsettled.record.sizeLo_eq]
      omega
    · rw [hentries', FsInfo.dirEntries_split fs hi, ← hentries]
      exact hinserts.append _ _
    · obtain ⟨hmapped, hdata⟩ := hsettled.data i hlimit
      rw [hwrote.mapped_eq i hlimit] at hmapped hdata
      rw [hmapped, hdata (hdir.mapped i hi), hwrote.data_eq]

theorem insertInBlocks_spec (hc : fs.geo.Real .inode c) (name : Buf) {len : Nat} (hlen : len < 256) (now : UInt32) :
    Runs (insertInBlocks now d c (fs.record d) (fs.record c) name len ((fs.record d).sizeLo / 4096).toNat 0) fs
      fun result fs' => (result = none ∧ fs' = fs) ∨ (result = some true ∧
        Inserted static fs fs' d ⟨(List.range len).map name, c, entryType (fs.record c)⟩) := by
  refine (insertInBlocks_room hcons howner hdir hc name hlen now).mono fun result fs' hresult => ?_
  obtain ⟨hnone, hsame, -⟩ | ⟨i, -, p, -, -, hdone, hinserted, -⟩ := hresult
  · exact .inl ⟨hnone, hsame⟩
  · exact .inr ⟨hdone, hinserted⟩

omit hcons howner in
theorem Settled.grown {grown : Inode} {buf : Buf} {cnt : Nat}
    (hplaced : Placed static fs fs₁ (fs.record d) grown (fs.record d).dirBlocks buf cnt)
    (hsettled : Settled static fs fs₁ fs₂ d body) (hroot : body.root = grown.root)
    (hsize : body.sizeLo.toNat = (fs.record d).sizeLo.toNat + 4096) (hblock : BlockOk buf) :
    DirOk fs₂ (fs₂.record d) ∧
      fs₂.dirEntries (fs₂.record d) = fs.dirEntries (fs.record d) ++ blockEntries buf := by
  have hsize : (fs₂.record d).sizeLo.toNat = (fs.record d).sizeLo.toNat + 4096 := by
    rw [hsettled.record.sizeLo_eq, hsize]
  have hblocks : (fs₂.record d).dirBlocks = (fs.record d).dirBlocks + 1 := by
    rw [Inode.dirBlocks, Inode.dirBlocks, hsize, blockSize]
    omega
  have hlimit : ∀ j < (fs.record d).dirBlocks + 1, j < fileBlkLimit := fun j hj =>
    Inode.lt_fileBlkLimit (hblocks.symm ▸ hj)
  have hothers : ∀ j < (fs.record d).dirBlocks, SameData fs fs₂ (fs.record d) (fs₂.record d) j := by
    intro j hj
    have hlt := hlimit j (by omega)
    exact ((hplaced.others j hlt (by omega)).of_root hroot).trans (hsettled.data j hlt)
  have hmapped : mapped fs₁.entries body (fs.record d).dirBlocks ≠ 0 := by
    rw [mapped_of_root hroot]
    exact hplaced.mapped_ne
  obtain ⟨hlast, hcontent⟩ := hsettled.data _ (hlimit (fs.record d).dirBlocks (by omega))
  have hself : BlockOk (fs₂.fileBlock (fs₂.record d) (fs.record d).dirBlocks) ∧
      blockEntries (fs₂.fileBlock (fs₂.record d) (fs.record d).dirBlocks) = blockEntries buf := by
    refine hblock.congr fun k hk => ?_
    rw [FsInfo.fileBlock_apply (by rwa [hlast]) hk, hlast, hcontent hmapped, mapped_of_root hroot,
      hplaced.content_eq]
  refine ⟨⟨?_, fun j hj => ?_, fun j hj => ?_⟩, ?_⟩
  · rw [hsize]
    exact Nat.dvd_add hdir.aligned (dvd_refl _)
  · rw [hblocks] at hj
    obtain hlt | rfl := Nat.lt_succ_iff_lt_or_eq.mp hj
    · rw [(hothers j hlt).1]
      exact hdir.mapped j hlt
    · rwa [hlast]
  · rw [hblocks] at hj
    obtain hlt | rfl := Nat.lt_succ_iff_lt_or_eq.mp hj
    · rw [(hothers j hlt).fileBlock_eq]
      exact hdir.block j hlt
    · exact hself.1
  · have hfront : fs₂.entriesFrom (fs₂.record d) 0 (fs.record d).dirBlocks =
        fs.entriesFrom (fs.record d) 0 (fs.record d).dirBlocks :=
      FsInfo.entriesFrom_congr fun j _ hj => by rw [(hothers j (by omega)).fileBlock_eq]
    rw [FsInfo.dirEntries_eq, FsInfo.dirEntries_eq, hblocks, FsInfo.entriesFrom_add, Nat.zero_add,
      FsInfo.entriesFrom_succ, hself.2, hfront, FsInfo.entriesFrom_zero, List.append_nil]

theorem growDir_spec (hsize : (fs.record d).sizeLo.toNat < maxSize) (hc : fs.geo.Real .inode c) (name : Buf)
    {len : Nat} (hlen : len < 256) (now : UInt32) :
    Runs (growDir now d c (fs.record d) (fs.record c) name len) fs fun ok fs' =>
      (ok = false ∧ Kept static fs fs') ∨ (ok = true ∧
        Inserted static fs fs' d ⟨(List.range len).map name, c, entryType (fs.record c)⟩) := by
  have hinode := hcons.inode d howner
  have hne : c ≠ 0 := (UInt32.ne_of_lt hc.1).symm
  have haligned := hdir.aligned
  have hroom : ¬ maxFileSize < (fs.record d).sizeLo.toNat + align4 (8 + len) := by
    rw [maxSize] at hsize
    rw [align4, maxFileSize]
    omega
  have hbound : (fs.record d).sizeLo.toNat + (4096 : UInt32).toNat < 4294967296 := by
    rw [maxSize] at hsize
    change _ + 4096 < _
    omega
  have hsizeBlocks : sizeBlocks (fs.record d).sizeLo = (fs.record d).dirBlocks := by
    rw [sizeBlocks, Inode.dirBlocks]
    rw [blockSize] at haligned ⊢
    omega
  have hidx : (blocksFor (fs.record d).sizeLo).toNat = (fs.record d).dirBlocks :=
    (toNat_blocksFor hsize.le).trans hsizeBlocks
  have hlimit : (fs.record d).dirBlocks < fileBlkLimit := by
    have hlt := (fs.record d).dirBlocks_lt
    rw [fileBlkLimit]
    omega
  have hstart := Appending.start hcons.mounted hinode.tree (seedBlock c name len (entryType (fs.record c))) 4096
  rw [growDir, if_neg hroom]
  refine (mapFileBlock_alloc_within hcons.mounted hinode.tree (by rwa [hidx]) (some 0)).bind fun call fs₀ hcall => ?_
  rw [hidx] at hcall
  obtain ⟨⟨rfl, hframe, hused, -⟩ | ⟨diskBlk, adds, hstatus, hblkOut, hdisk, hcnt, hgrew, -⟩, hwithin⟩ := hcall
  · rw [if_neg (show Status.blockError ≠ .writeSuccess by decide)]
    refine Runs.pure (.inl ⟨rfl, ?_⟩)
    have hidle := (Unmapped.of_frame hframe hused hinode.tree).congr fun j =>
      (iff_of_false id Append.start_added : False ↔ (Append.start (fs.record d) 4096).Added
        (sizeBlocks (fs.record d).sizeLo) 0 j)
    exact (hstart.restored hinode hidle).kept hcons howner
  rw [if_pos hstatus]
  simp only [Mapped.blkOut, hblkOut, pure_bind]
  refine (hgrew.writeBlock_spec hinode.tree hlimit hdisk hwithin _).bind fun _ fs₁ hplaced => ?_
  obtain ⟨seed, hseed⟩ : ∃ seed, seed = seedBlock c name len (entryType (fs.record c)) := ⟨_, rfl⟩
  rw [← hseed] at hplaced hstart
  obtain ⟨hblock, hentries⟩ : BlockOk seed ∧ blockEntries seed = _ := hseed ▸ seedBlock_spec hlen hne
  have hwhole : splice seed 0 seed 0 4096 = seed := by
    funext k
    rw [splice]
    split_ifs
    · congr 1
      omega
    · rfl
  have hfirst : Placed static fs fs₁ (fs.record d) call.inode (sizeBlocks (fs.record d).sizeLo + 0)
      (splice seed 0 seed 0 4096) adds.length := by rwa [hwhole, hsizeBlocks]
  have happended : Appending static fs fs₁ (fs.record d) seed 4096
      ⟨call.inode, call.allocCnt.getD 0, 4096, 0, false⟩ (0 + 1) := by
    refine hstart.step hbound ?_ (show 0 < (4096 : UInt32).toNat by decide) rfl hfirst (by rw [hcnt]; rfl) rfl rfl rfl
    change _ + 0 = _
    rw [hsizeBlocks, Inode.dirBlocks]
    rw [blockSize] at haligned ⊢
    omega
  obtain ⟨hsize', hok'⟩ := happended.inodeOk_extended hinode hbound rfl now
  have hroot : (call.inode.extended (call.allocCnt.getD 0) 4096 now).root = call.inode.root :=
    Inode.root_extended ..
  have htrade := hplaced.reshaped.trade
  rw [← refs_of_root hroot] at htrade
  have hpending : Pending static fs fs₁ d (call.inode.extended (call.allocCnt.getD 0) 4096 now) := ⟨htrade, hok'⟩
  have hfields := hplaced.reshaped.fields
  have hlinks : (call.inode.extended (call.allocCnt.getD 0) 4096 now).hardLinkCnt = (fs.record d).hardLinkCnt := by
    rw [Inode.hardLinkCnt_extended]
    change call.inode.clearPtrs.hardLinkCnt = (fs.record d).clearPtrs.hardLinkCnt
    rw [hfields]
  have hstamp := hpending.stampLinks_spec hcons howner hc hlinks (· + 1) now
  refine (Runs.of_prog_eq (?_ : _ = stampLinks (· + 1) now d c
    (call.inode.extended (call.allocCnt.getD 0) 4096 now) (fs.record c) fs₁) hstamp).mono fun ok fs₂ hstamped => ?_
  · simp only [stampLinks, Inode.extended]
  obtain ⟨hok, hsettled, hlinks'⟩ := hstamped
  obtain ⟨hdir', hentries'⟩ := hsettled.grown hdir hplaced hroot hsize' hblock
  refine .inr ⟨hok, hsettled.toTouched, hdir', ?_, ?_, ?_, hlinks'⟩
  · rw [hsettled.record.type_eq, Inode.type_extended]
    change call.inode.clearPtrs.type = (fs.record d).clearPtrs.type
    rw [hfields]
  · rw [hsettled.record.sizeLo_eq, hsize']
    exact le_rfl
  · rw [hentries', hentries]
    exact ⟨_, [], (List.append_nil _).symm, rfl⟩

theorem insertEntry_spec (htype : (fs.record d).type = inodeDirType) (hsize : (fs.record d).sizeLo.toNat < maxSize)
    (hc : fs.geo.Real .inode c) (name : Buf) {len : Nat} (hlen : len < 256) (now : UInt32) :
    Runs (insertEntry now d name len c (fs.record c)) fs fun ok fs' =>
      (ok = false ∧ Kept static fs fs') ∨ (ok = true ∧
        Inserted static fs fs' d ⟨(List.range len).map name, c, entryType (fs.record c)⟩) := by
  rw [insertEntry]
  refine Runs.bind_eq (getInode_run hcons.mounted hcons.layout (FsInfo.real_of_marked howner.1)) ?_
  dsimp only
  rw [if_neg (not_not.mpr htype)]
  refine (insertInBlocks_spec hcons howner hdir hc name hlen now).bind fun result fs' hresult => ?_
  obtain ⟨rfl, rfl⟩ | ⟨rfl, hinserted⟩ := hresult
  · exact growDir_spec hcons howner hdir hsize hc name hlen now
  · exact Runs.pure (.inr ⟨rfl, hinserted⟩)

end Insert

/-! ### Removing -/

/-- Directory `d` lost `e`, the first entry with its name, and the inode it named a link. -/
structure Removed (static : UInt32 → Prop) (fs fs' : FsInfo) (d : UInt32) (e : DirEntry) : Prop
    extends Touched static fs fs' d where
  dir : DirOk fs' (fs'.record d)
  type : (fs'.record d).type = (fs.record d).type
  size : (fs'.record d).sizeLo = (fs.record d).sizeLo
  entries : ∃ before after, fs.dirEntries (fs.record d) = before ++ e :: after ∧
    fs'.dirEntries (fs'.record d) = before ++ after ∧ ∀ e' ∈ before, e'.name ≠ e.name
  links : ∀ m, fs.geo.Real .inode m → (fs'.record m).hardLinkCnt =
    if m = e.inode then (fs.record m).hardLinkCnt - 1 else (fs.record m).hardLinkCnt
  record : (fs.record d).Relinked (fs'.record d)
  times : ∀ m, fs.geo.Real .inode m → m ≠ d → (fs'.record m).lastModTime = (fs.record m).lastModTime
  owns : ∀ m, fs.Owner m → fs'.owns m = fs.owns m

section Remove

variable (hcons : Consistent static fs) (howner : fs.Owner d) (hdir : DirOk fs (fs.record d))
  (hascii : AsciiNames (fs.dirEntries (fs.record d)))

include hcons howner

theorem unlinkChild_run (hpending : Pending static fs fs₁ d (fs.record d)) (hc : fs.geo.Real .inode c) (now : UInt32) :
    unlinkChild now d c (fs.record d) fs₁ = stampLinks (· - 1) now d c (fs.record d) (fs.record c) fs₁ := by
  have hframe := hpending.trade.frame
  have hget := getInode_run hframe.mounted (hcons.layout.of_geo hframe.geo) (by rwa [hframe.geo])
  rw [hcons.record_eq_of_trade howner hpending.trade hc] at hget
  rw [unlinkChild, run_bind_ok hget, stampLinks]
  dsimp only
  split_ifs with heq
  · rw [heq]
  · rfl

include hdir

omit hcons howner in
theorem entriesFrom_not_named {name : Name} {i : Nat} (hi : i ≤ (fs.record d).dirBlocks)
    (hnone : ∀ j < i, findEntry (blockEntries (fs.data (mapped fs.entries (fs.record d) j))) name = none) :
    ∀ e ∈ fs.entriesFrom (fs.record d) 0 i, e.name ≠ name := by
  intro e he heq
  obtain ⟨j, ⟨-, hj⟩, he⟩ := FsInfo.mem_entriesFrom.mp he
  have hj : j < i := by omega
  have hfind := hnone j hj
  rw [(data_block hdir (hj.trans_le hi)).2, findEntry, List.find?_eq_none] at hfind
  exact hfind e he (decide_eq_true heq)

theorem removeInBlocks_spec {name : Buf} (hsearch : Searchable name (fs.dirEntries (fs.record d)))
    (hreal : ∀ e ∈ fs.dirEntries (fs.record d), e.name = nameOf name → fs.geo.Real .inode e.inode) (now : UInt32) :
    Runs (removeInBlocks now d (fs.record d) name ((fs.record d).sizeLo / 4096).toNat 0) fs fun result fs' =>
      (result = none ∧ fs' = fs ∧ findEntry (fs.dirEntries (fs.record d)) (nameOf name) = none) ∨
      ∃ e, result = some e.inode ∧ e.name = nameOf name ∧ Removed static fs fs' d e := by
  have hinode := hcons.inode d howner
  have hnotFound : ∀ i < (fs.record d).dirBlocks,
      (removeInBlock (fs.data (mapped fs.entries (fs.record d) i)) name blockSize 0 0).result = none →
      findEntry (blockEntries (fs.data (mapped fs.entries (fs.record d) i))) (nameOf name) = none := by
    intro i hi hnone
    obtain ⟨hblock, hentries⟩ := data_block hdir hi
    obtain ⟨-, hfind⟩ | ⟨_, _, _, _, hfound, -⟩ :=
      removeInBlock_spec hblock (by rw [hentries]; exact hsearch.block hi)
    · exact hfind
    · rw [hfound] at hnone
      cases hnone
  obtain ⟨hrun, hall⟩ | ⟨i, found, hi, hfound, hbefore, hrun⟩ := scanDirBlocks hcons.mounted hinode.tree hdir
    (removeInBlocks now d (fs.record d) name)
    (fun block => (removeInBlock block name blockSize 0 0).result)
    (fun blk found => found.elim (pure none) fun (inodeN, scratch) => do
      writeBlock blk scratch
      if ← unlinkChild now d inodeN (fs.record d) then pure (some inodeN) else pure none) none (fun _ => rfl)
    (fun cnt i blk block hread => by
      rw [removeInBlocks, run_bind_ok hread]
      dsimp only
      cases removeInBlock block name blockSize 0 0 <;> rfl)
  · refine Runs.of_eq hrun (.inl ⟨rfl, rfl, ?_⟩)
    rw [findEntry, List.find?_eq_none, FsInfo.dirEntries_eq]
    intro e he heq
    exact entriesFrom_not_named hdir le_rfl (fun j hj => hnotFound j hj (hall j hj)) e he
      (of_decide_eq_true heq)
  · refine Runs.of_prog_eq hrun ?_
    obtain ⟨hblock, hentries⟩ := data_block hdir hi
    obtain ⟨hnone, -⟩ | ⟨before, e, after, buf, hremoved, hname, hsplit, hfirst, hblock', hentries'⟩ :=
      removeInBlock_spec hblock (by rw [hentries]; exact hsearch.block hi)
    · rw [hnone] at hfound
      cases hfound
    rw [hremoved] at hfound
    cases hfound
    have hall : fs.dirEntries (fs.record d) = (fs.entriesFrom (fs.record d) 0 i ++ before) ++ e ::
        (after ++ fs.entriesFrom (fs.record d) (i + 1) ((fs.record d).dirBlocks - (i + 1))) := by
      rw [FsInfo.dirEntries_split fs hi, ← hentries, hsplit]
      simp
    have hc : fs.geo.Real .inode e.inode := hreal e (by rw [hall]; simp) hname
    have hlimit := Inode.lt_fileBlkLimit hi
    refine (hinode.tree.writeBlock_spec hcons.mounted hlimit (hdir.mapped i hi) buf).bind fun _ fs₁ hwrote => ?_
    have hpending := Pending.of_rewrote hinode hwrote
    refine (Runs.of_prog_eq (unlinkChild_run hcons howner hpending hc now)
      (hpending.stampLinks_spec hcons howner hc rfl _ now)).bind fun ok fs₂ hstamped => ?_
    obtain ⟨rfl, hsettled, hlinks⟩ := hstamped
    rw [if_pos rfl]
    obtain ⟨hdir', hafter⟩ := hsettled.rewritten hdir hi hwrote hblock'
    refine Runs.pure (.inr ⟨e, rfl, hname, hsettled.toTouched, hdir', hsettled.record.type_eq,
      hsettled.record.sizeLo_eq, ⟨_, _, hall, ?_, fun e' he' => ?_⟩, hlinks, hsettled.record, hsettled.times,
      fun m hm => ?_⟩)
    · rw [hafter, hentries']
      simp
    · rw [hname]
      rcases List.mem_append.mp he' with he' | he'
      · exact entriesFrom_not_named hdir hi.le
          (fun j hj => hnotFound j (hj.trans hi) (hbefore j hj)) e' he'
      · exact hfirst e' he'
    · by_cases hmd : m = d
      · rw [hmd, hsettled.owns, hwrote.refs_eq]
        rfl
      · exact hsettled.otherOwns m hm hmd

theorem removeEntry_spec (htype : (fs.record d).type = inodeDirType) {name : Buf}
    (hsearch : Searchable name (fs.dirEntries (fs.record d)))
    (hreal : ∀ e ∈ fs.dirEntries (fs.record d), e.name = nameOf name → fs.geo.Real .inode e.inode) (now : UInt32) :
    Runs (removeEntry now d name) fs fun result fs' =>
      (result = none ∧ fs' = fs ∧ findEntry (fs.dirEntries (fs.record d)) (nameOf name) = none) ∨
      ∃ e, result = some e.inode ∧ e.name = nameOf name ∧ Removed static fs fs' d e := by
  rw [removeEntry]
  refine Runs.bind_eq (getInode_run hcons.mounted hcons.layout (FsInfo.real_of_marked howner.1)) ?_
  dsimp only
  rw [if_neg (not_not.mpr htype)]
  exact removeInBlocks_spec hcons howner hdir hsearch hreal now

include hascii

end Remove

end DeprecatOS
