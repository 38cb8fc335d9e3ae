import DeprecatOS.LookupPath
import DeprecatOS.Proof.InodeTable
import DeprecatOS.Proof.MapFileBlock

/-!
# No operation changes the geometry, or leaves its buffers

Whatever a program on one filesystem does to the disk, the counters and the bitmaps, it leaves the geometry alone: the
sizes, where the tables are, and where the filesystem is mounted. The geometry is what the superblock says and nothing
checks it, so it also decides whether the code stays inside its buffers: inside the descriptors of `bgdt_buf`, the block
of a bitmap, and the block an inode record is copied from.
-/

namespace DeprecatOS

open Bytes Bits Fault

/-! ### Geometries that keep the code in its buffers -/

/-- Groups that all have a descriptor in `bgdt_buf` and a bitmap of one block, and inodes with a descriptor whose record
does not reach past the block it starts in. -/
structure Geo.InBounds (geo : Geo) : Prop where
  perGrp_pos : ∀ kind, 0 < geo.perGrp kind
  perGrp_le : ∀ kind, geo.perGrp kind ≤ 8 * blockSize
  ngroups_le : geo.ngroups.toNat ≤ bgdtLen
  slot : ∀ n, geo.Real .inode n → ((n - 1) / geo.inodesPerGrp).toNat < bgdtLen ∧
    ((n - 1) % geo.inodesPerGrp * geo.inodeSize % UInt32.ofNat blockSize).toNat + 128 ≤ blockSize

namespace Geo.InBounds

variable {fs : FsInfo} (hgeo : fs.geo.InBounds)

include hgeo

theorem inodesPerGrp_ne_zero : fs.inodesPerGrp ≠ 0 := fun hzero => by
  have hpos : 0 < fs.inodesPerGrp.toNat := hgeo.perGrp_pos .inode
  rw [hzero] at hpos
  exact Nat.lt_irrefl 0 hpos

theorem blksPerGrp_ne_zero : fs.blksPerGrp ≠ 0 := fun hzero => by
  have hpos : 0 < fs.blksPerGrp.toNat := hgeo.perGrp_pos .block
  rw [hzero] at hpos
  exact Nat.lt_irrefl 0 hpos

theorem mod_inodesPerGrp_lt (n : UInt32) : (n % fs.inodesPerGrp).toNat < 8 * blockSize := by
  rw [UInt32.toNat_mod]
  exact (Nat.mod_lt _ (hgeo.perGrp_pos .inode)).trans_le (hgeo.perGrp_le .inode)

theorem mod_blksPerGrp_lt (n : UInt32) : (n % fs.blksPerGrp).toNat < 8 * blockSize := by
  rw [UInt32.toNat_mod]
  exact (Nat.mod_lt _ (hgeo.perGrp_pos .block)).trans_le (hgeo.perGrp_le .block)

theorem group_lt {g : UInt32} (hg : ¬ fs.ngroups ≤ g) : g.toNat < bgdtLen :=
  (UInt32.lt_iff_toNat_lt.mp (UInt32.not_le.mp hg)).trans_le hgeo.ngroups_le

theorem scanBits_le (kind : Kind) : fs.scanBits kind ≤ 8 * blockSize := by
  cases kind with
  | block => exact Nat.le_refl _
  | inode => exact (Nat.mul_div_le _ _).trans (hgeo.perGrp_le .inode)

end Geo.InBounds

theorem FsInfo.inBounds {fs : FsInfo} (hpos : ∀ kind, 0 < fs.geo.perGrp kind)
    (hle : ∀ kind, fs.geo.perGrp kind ≤ 8 * blockSize) (hgroups : fs.ngroups.toNat ≤ bgdtLen)
    (hcnt : fs.inodeCnt.toNat ≤ fs.ngroups.toNat * fs.inodesPerGrp.toNat) (hsizeGe : 128 ≤ fs.inodeSize.toNat)
    (hsizeDvd : fs.inodeSize.toNat ∣ 4096) : fs.geo.InBounds where
  perGrp_pos := hpos
  perGrp_le := hle
  ngroups_le := hgroups
  slot n hn := by
    have hfits := FsInfo.slot_fits hsizeDvd (hpos .inode) (hle .inode) n
    exact ⟨(Geo.Real.group_lt hn hcnt).trans_le hgroups, (Nat.add_le_add_left hsizeGe _).trans hfits⟩

theorem Layout.inBounds {static : UInt32 → Prop} {fs : FsInfo} (hlayout : Layout static fs) (hgeo : fs.geo.Valid) :
    fs.geo.InBounds :=
  FsInfo.inBounds hgeo.perGrp_pos hgeo.perGrp_le hgeo.ngroups_le hgeo.inodeCnt_eq.le hlayout.inodeSize_ge
    hlayout.inodeSize_dvd

/-! ### File block indices -/

theorem blocksFor_small (size : UInt32) : (blocksFor size).toNat < 1048576 := by
  have hlt := (size + 4095).toNat_lt
  rw [blocksFor, UInt32.toNat_div]
  exact Nat.div_lt_of_lt_mul (by simp; omega)

theorem blocksFor_lt (size : UInt32) : (blocksFor size).toNat < fileBlkLimit :=
  (blocksFor_small size).trans (by decide)

theorem chunk_lt_fileBlkLimit {size n : UInt32} (hn : ¬ blocksFor size ≤ n) : n.toNat < fileBlkLimit :=
  (UInt32.lt_iff_toNat_lt.mp (UInt32.not_le.mp hn)).trans (blocksFor_lt size)

/-- The `cnt` block indices from `i` on are indices of a file. -/
def InFile (i : UInt32) (cnt : Nat) : Prop := i.toNat + cnt ≤ fileBlkLimit

namespace InFile

variable {i : UInt32} {cnt : Nat}

theorem head (hin : InFile i (cnt + 1)) : i.toNat < fileBlkLimit := by
  rw [InFile] at hin
  omega

theorem tail (hin : InFile i (cnt + 1)) : InFile (i + 1) cnt := by
  have hlimit : fileBlkLimit = 1074791436 := rfl
  rw [InFile] at hin ⊢
  rw [toNat_add_one (by omega)]
  omega

theorem of_size (size : UInt32) : InFile 0 (size / 4096).toNat := by
  have hlt := size.toNat_lt
  rw [InFile, UInt32.toNat_div, fileBlkLimit]
  simp
  omega

end InFile

/-- In a file whose size is so close to 2³² that rounding it up to blocks wraps, the last block has no index. -/
def RoundsUp (size : UInt32) : Prop := size % 4096 = 0 ∨ size.toNat ≤ 2 ^ 32 - 4096

theorem blocksFor_sub_one_lt {size : UInt32} (hmod : size % 4096 ≠ 0) (hrounds : RoundsUp size) :
    (blocksFor size - 1).toNat < fileBlkLimit := by
  have hlt := blocksFor_lt size
  have hsize := hrounds.resolve_left hmod
  have hmodNat : (size % 4096).toNat = size.toNat % 4096 := UInt32.toNat_mod ..
  have hne : size.toNat % 4096 ≠ 0 := fun hzero => hmod (UInt32.toNat_inj.mp (hmodNat.trans hzero))
  have hsum : (size + 4095).toNat = size.toNat + 4095 := by
    rw [UInt32.toNat_add]
    exact Nat.mod_eq_of_lt (by simp; omega)
  have hpos : (1 : UInt32) ≤ blocksFor size := by
    rw [UInt32.le_iff_toNat_le, blocksFor, UInt32.toNat_div, hsum]
    simp
    omega
  rw [UInt32.toNat_sub_of_le _ _ hpos]
  exact (Nat.sub_le _ _).trans_lt hlt

theorem mapRoot_diskBlk {n idx : Nat} {field : UInt32} {mode : MapMode} {allocCnt : Option UInt32} {rooted : Rooted}
    {fs fs' : FsInfo} (hrun : mapRoot n field idx mode allocCnt fs = .ok (rooted, fs'))
    (hdone : rooted.status = .writeSuccess) : rooted.diskBlk ≠ none := by
  obtain ⟨root, mid, -, hrun⟩ := run_bind_eq_ok hrun
  cases root with
  | error failure =>
    cases hrun
    cases failure <;> cases hdone
  | ok root =>
    obtain ⟨p, minted, cnt⟩ := root
    obtain ⟨⟨ended, cnt'⟩, mid', -, hrun⟩ := run_bind_eq_ok hrun
    cases ended with
    | empty =>
      cases hrun
      cases hdone
    | noSpace =>
      cases minted with
      | true =>
        obtain ⟨freed, mid'', -, hrun⟩ := run_bind_eq_ok hrun
        cases hrun
        cases hdone
      | false =>
        cases hrun
        cases hdone
    | stuck =>
      cases hrun
      cases hdone
    | emptied diskBlk =>
      obtain ⟨freed, mid'', -, hrun⟩ := run_bind_eq_ok hrun
      cases hrun
      exact Option.some_ne_none _
    | done diskBlk =>
      cases hrun
      exact Option.some_ne_none _

theorem mapLeaf_diskBlk {field : UInt32} {mode : MapMode} {allocCnt : Option UInt32} {rooted : Rooted}
    {fs fs' : FsInfo} (hrun : mapLeaf field mode allocCnt fs = .ok (rooted, fs'))
    (hdone : rooted.status = .writeSuccess) : rooted.diskBlk ≠ none := by
  rw [mapLeaf] at hrun
  split at hrun
  · split at hrun
    · cases hrun
      cases hdone
    · obtain ⟨blockN, mid, -, hrun⟩ := run_bind_eq_ok hrun
      split at hrun
      · cases hrun
        cases hdone
      · cases hrun
        exact Option.some_ne_none _
  · split at hrun <;> cases hrun <;> exact Option.some_ne_none _

/-- A call that reports success has written `*disk_blk_out`. -/
theorem mapFileBlock_diskBlk {inode : Inode} {idx : UInt32} {mode : MapMode} {allocCnt : Option UInt32} {call : Mapped}
    {fs fs' : FsInfo} (hidx : idx.toNat < fileBlkLimit) (hrun : mapFileBlock inode idx mode allocCnt fs = .ok (call, fs'))
    (hdone : call.status = .writeSuccess) : call.diskBlk ≠ none := by
  rw [mapFileBlock_eq inode hidx, ← bind_pure_comp] at hrun
  obtain ⟨rooted, mid, hslot, hrun⟩ := run_bind_eq_ok hrun
  cases hrun
  change rooted.diskBlk ≠ none
  cases hheight : rootHeight (locate idx.toNat).1 with
  | zero =>
    rw [hheight] at hslot
    exact mapLeaf_diskBlk hslot hdone
  | succ height =>
    rw [hheight] at hslot
    exact mapRoot_diskBlk hslot hdone

/-! ### One lemma for each function -/

abbrev KeepsGeo {α : Type} (prog : FsM α) : Prop := Keeps FsInfo.geo prog

/-- The program keeps the geometry and stays in its buffers, under the condition `c`, if the geometry lets it. -/
abbrev Stays {α : Type} (c : Geo → Prop) (prog : FsM α) : Prop := Avoids Stop.undefined FsInfo.geo Geo.InBounds c prog

namespace Stays

variable {c : Geo → Prop}

theorem keepsGeo {α : Type} {prog : FsM α} (hstays : Stays (fun _ => True) prog) : KeepsGeo prog := hstays.keeps

theorem defined {α : Type} {prog : FsM α} {fs : FsInfo} (hstays : Stays (fun _ => True) prog) (hgeo : fs.geo.InBounds) :
    prog fs ≠ .error .undefined :=
  hstays.avoids fs hgeo trivial

theorem panic {α : Type} (msg : String) : Stays c (DeprecatOS.panic msg : FsM α) := .fault fun _ _ heq => by cases heq

theorem outOfPartition {α : Type} : Stays c (DeprecatOS.outOfPartition : FsM α) := panic _

theorem readBlock (b : UInt32) : Stays c (readBlock b) :=
  .bind .get fun _ => .ite outOfPartition (.pure _)

theorem writeBlock (b : UInt32) (buf : Buf) : Stays c (writeBlock b buf) where
  keeps := by
    refine .get_bind fun fs a fs' hrun => ?_
    split at hrun
    · cases hrun
    · cases hrun
      rfl
  avoids fs _ _ hrun := by
    rw [DeprecatOS.writeBlock, run_bind_ok (run_get fs)] at hrun
    split at hrun <;> cases hrun

theorem writeBgdt : Stays c writeBgdt :=
  .bind .get fun _ => writeBlock _ _

theorem writeSuperblk : Stays c writeSuperblk where
  keeps := by
    refine .get_bind fun fs a fs' hrun => ?_
    split at hrun
    · cases hrun
    · cases hrun
      rfl
  avoids fs _ _ hrun := by
    rw [DeprecatOS.writeSuperblk, run_bind_ok (run_get fs)] at hrun
    split at hrun <;> cases hrun

theorem writeBack (kind : Kind) (g : Nat) (bitmap : Buf) : Stays c (writeBack kind g bitmap) :=
  .bind writeBgdt fun _ => .bind writeSuperblk fun _ => .bind .get fun _ => writeBlock _ _

theorem allocBit (kind : Kind) : Stays c (allocBit kind) where
  keeps fs a fs' hrun := by
    obtain ⟨-, -, rfl⟩ | ⟨g, bitmap, idx, -, -, -, hback, -⟩ := allocBit_eq_ok hrun
    · rfl
    · rw [(writeBack kind g _).keepsGeo _ _ _ hback]
      exact geo_bumpCounts
  avoids fs hgeo _ := by
    have hgroups : fs.ngroups.toNat ≤ bgdtLen := hgeo.ngroups_le
    have hbits := hgeo.scanBits_le kind
    rw [DeprecatOS.allocBit, run_bind_ok (run_get fs)]
    cases hgroup : firstGroup (fs.unallocCnt kind) fs.ngroups.toNat 0 with
    | none =>
      dsimp only
      rw [if_neg (Nat.not_lt.mpr hgroups)]
      exact defined (.pure _) hgeo
    | some g =>
      have hg := (firstGroup_eq_some hgroup).2.1
      dsimp only
      rw [if_neg (by omega)]
      refine run_bind_ne_error ((readBlock _).defined hgeo) fun bitmap mid hread => ?_
      obtain rfl := (readBlock_eq_ok hread).1
      cases hclear : firstClear bitmap (mid.scanBits kind) 0 with
      | none =>
        dsimp only
        rw [if_neg (Nat.not_lt.mpr hbits)]
        exact (panic _).defined hgeo
      | some idx =>
        have hidx := (firstClear_eq_some hclear).2.1
        dsimp only
        rw [if_neg (by omega), run_bind_ok (run_set _ _)]
        exact defined (.bind (writeBack _ _ _) fun _ => .pure _) (by rwa [geo_bumpCounts])

theorem releaseBit (kind : Kind) (g idx : Nat) :
    Stays (fun _ => g < bgdtLen ∧ idx < 8 * blockSize) (releaseBit kind g idx) where
  keeps fs a fs' hrun := by
    obtain ⟨bitmap, -, ⟨-, hback⟩ | ⟨-, rfl⟩⟩ := releaseBit_eq_ok hrun
    · rw [(writeBack kind g _).keepsGeo _ _ _ hback]
      exact geo_bumpCounts
    · rfl
  avoids fs hgeo hin := by
    rw [DeprecatOS.releaseBit, run_bind_ok (run_get fs), if_neg (Nat.not_le.mpr hin.1)]
    refine run_bind_ne_error ((readBlock _).defined hgeo) fun bitmap mid hread => ?_
    obtain rfl := (readBlock_eq_ok hread).1
    rw [if_neg (Nat.not_le.mpr hin.2)]
    split
    · rw [run_bind_ok (run_set _ _)]
      exact (writeBack _ _ _).defined (by rwa [geo_bumpCounts])
    · exact defined (.pure _) hgeo

theorem allocBlock : Stays c allocBlock := allocBit .block

theorem allocInode : Stays c allocInode := allocBit .inode

theorem freeInode (n : UInt32) : Stays c (freeInode n) :=
  .get_bind fun _ => .guard (fun _ h => h.2.2.inodesPerGrp_ne_zero) (.ite_of (.pure _)
    (.bind ((releaseBit _ _ _).mono fun _ h =>
      ⟨h.1.2.2.group_lt (not_or.mp h.2).1, h.1.2.2.mod_inodesPerGrp_lt _⟩) fun _ => .pure _))

theorem freeBlock (b : UInt32) : Stays c (freeBlock b) :=
  .ite (.pure _) (.get_bind fun _ => .guard (fun _ h => h.2.2.blksPerGrp_ne_zero) (.ite_of (.pure _)
    (.bind ((releaseBit _ _ _).mono fun _ h =>
      ⟨h.1.2.2.group_lt (not_or.mp h.2).1, h.1.2.2.mod_blksPerGrp_lt _⟩) fun _ => .pure _)))

theorem inodeExists (n : UInt32) : Stays c (inodeExists n) :=
  .get_bind fun _ => .guard (fun _ h => h.2.2.inodesPerGrp_ne_zero) (.ite_of (.pure _)
    (.guard (fun _ h => Nat.not_le.mpr (h.1.2.2.group_lt (not_or.mp h.2).1))
      (.bind (readBlock _) fun _ => .guard (fun _ h => Nat.not_le.mpr (h.1.2.2.mod_inodesPerGrp_lt _)) (.pure _))))

theorem readSlot (n : UInt32) : Stays (fun geo => geo.Real .inode n) (readSlot n) := by
  refine .get_bind fun fs => .guard ?_ (.bind (readBlock _) fun _ => .guard ?_ (.pure _))
  · rintro _ ⟨hn, rfl, hgeo⟩
    exact Nat.not_le.mpr (hgeo.slot n hn).1
  · rintro _ ⟨hn, rfl, hgeo⟩
    exact Nat.not_lt.mpr (hgeo.slot n hn).2

theorem readSlot_accepted (n : UInt32) (fs : FsInfo) :
    Stays (fun geo => (c geo ∧ geo = fs.geo ∧ fs.geo.InBounds) ∧ ¬ (n = 0 ∨ fs.inodeCnt < n)) (DeprecatOS.readSlot n) := by
  refine (readSlot n).mono ?_
  rintro _ ⟨⟨-, rfl, -⟩, hn⟩
  exact real_iff.mpr hn

theorem getInode (n : UInt32) : Stays c (getInode n) :=
  .get_bind fun fs => .guard (fun _ h => h.2.2.inodesPerGrp_ne_zero) (.ite_of (.pure _)
    (.bind (readSlot_accepted n fs) fun _ => .pure _))

theorem setInode (n : UInt32) (inode : Inode) : Stays c (setInode n inode) :=
  .get_bind fun fs => .guard (fun _ h => h.2.2.inodesPerGrp_ne_zero) (.ite_of (.pure _)
    (.bind (readSlot_accepted n fs) fun _ => .bind (writeBlock _ _) fun _ => .pure _))

theorem indirFreeBlock (layer : Nat) (b : UInt32) : Stays c (indirFreeBlock layer b) := by
  induction layer generalizing b with
  | zero => exact .ite (.pure _) (.bind (freeBlock b) fun _ => .pure _)
  | succ layer ih =>
    unfold DeprecatOS.indirFreeBlock
    split
    · exact .pure _
    · exact .bind (readBlock b) fun entries => .bind (.forM fun i => ih _) fun _ =>
        .bind (freeBlock b) fun _ => .pure _

theorem freeEntries (layer : Nat) (entries : Buf) : Stays c (freeEntries layer entries) :=
  .forM fun _ => indirFreeBlock layer _

theorem freeDirect (inode : Inode) : Stays c (freeDirect inode) := .forM fun _ => indirFreeBlock 0 _

section Walks

variable (inode : Inode) (mode : MapMode) (allocCnt : Option UInt32)

theorem rootBlock (field : UInt32) : Stays c (rootBlock field mode allocCnt) :=
  .ite (.ite (.pure _) (.bind allocBlock fun _ => .ite (.pure _)
    (.bind (writeBlock _ _) fun _ => .pure _))) (.pure _)

theorem childBlock (parent : UInt32) (k : Nat) : Stays c (childBlock parent k mode allocCnt) :=
  .bind (readBlock _) fun _ => .ite (.ite (.pure _) (.bind allocBlock fun _ => .ite (.pure _)
    (.bind (writeBlock _ _) fun _ => .bind (writeBlock _ _) fun _ => .pure _))) (.pure _)

theorem dataBlock (indir : UInt32) (k : Nat) : Stays c (dataBlock indir k mode allocCnt) :=
  .bind (readBlock _) fun _ => .ite (.ite (.pure _) (.bind allocBlock fun _ => .ite (.pure _)
    (.bind (writeBlock _ _) fun _ => .pure _))) (.pure _)

theorem mapDirect (idx : Fin 12) : Stays c (mapDirect inode idx mode allocCnt) :=
  .ite (.ite (.pure _) (.bind allocBlock fun _ => .ite (.pure _) (.pure _))) (.ite (.pure _) (.pure _))

theorem mapSingly (relIdx : Nat) : Stays c (mapSingly inode relIdx mode allocCnt) :=
  .bind (rootBlock _ _ _) fun
    | .error _ => .pure _
    | .ok _ => .bind (dataBlock _ _ _ _) fun
      | .error _ => .ite (.bind (freeBlock _) fun _ => .pure _) (.pure _)
      | .ok _ => .ite (.ite (.bind (writeBlock _ _) fun _ => .pure _) (.bind (freeBlock _) fun _ => .pure _))
          (.pure _)

theorem mapDoubly (relIdx : Nat) : Stays c (mapDoubly inode relIdx mode allocCnt) :=
  .bind (rootBlock _ _ _) fun
    | .error _ => .pure _
    | .ok _ => .bind (childBlock _ _ _ _) fun
      | .error _ => .ite (.bind (freeBlock _) fun _ => .pure _) (.pure _)
      | .ok _ => .bind (dataBlock _ _ _ _) fun
        | .error _ => .ite (.bind (freeBlock _) fun _ =>
          .ite (.bind (freeBlock _) fun _ => .pure _) (.bind (writeBlock _ _) fun _ => .pure _)) (.pure _)
        | .ok _ => .ite (.ite (.bind (writeBlock _ _) fun _ => .pure _) (.bind (freeBlock _) fun _ =>
          .ite (.bind (writeBlock _ _) fun _ => .pure _) (.bind (freeBlock _) fun _ => .pure _))) (.pure _)

theorem mapTriply (relIdx : Nat) : Stays (fun _ => relIdx < ptrsPerBlk ^ 3) (mapTriply inode relIdx mode allocCnt) :=
  .bind (rootBlock _ _ _) fun
    | .error _ => .pure _
    | .ok _ => .guard (fun _ hidx => Nat.not_le.mpr (Nat.div_lt_of_lt_mul hidx)) (.bind (childBlock _ _ _ _) fun
      | .error _ => .ite (.bind (freeBlock _) fun _ => .pure _) (.pure _)
      | .ok _ => .bind (childBlock _ _ _ _) fun
        | .error _ => .ite (.bind (freeBlock _) fun _ =>
          .ite (.bind (freeBlock _) fun _ => .pure _) (.bind (writeBlock _ _) fun _ => .pure _)) (.pure _)
        | .ok _ => .bind (dataBlock _ _ _ _) fun
          | .error _ => .ite (.bind (freeBlock _) fun _ => .ite (.bind (freeBlock _) fun _ =>
            .ite (.bind (freeBlock _) fun _ => .pure _) (.bind (writeBlock _ _) fun _ => .pure _))
            (.bind (writeBlock _ _) fun _ => .pure _)) (.pure _)
          | .ok _ => .ite (.ite (.bind (writeBlock _ _) fun _ => .pure _) (.bind (freeBlock _) fun _ =>
            .ite (.bind (writeBlock _ _) fun _ => .pure _) (.bind (freeBlock _) fun _ =>
              .ite (.bind (writeBlock _ _) fun _ => .pure _) (.bind (freeBlock _) fun _ => .pure _)))) (.pure _))

theorem mapFileBlock (idx : UInt32) :
    Stays (fun _ => idx.toNat < fileBlkLimit) (mapFileBlock inode idx mode allocCnt) := by
  unfold DeprecatOS.mapFileBlock
  split
  · exact mapDirect inode mode allocCnt _
  · refine .ite (mapSingly inode mode allocCnt _) (.ite (mapDoubly inode mode allocCnt _)
      ((mapTriply inode mode allocCnt _).mono fun _ hidx => ?_))
    simp only [fileBlkLimit, ptrsPerBlk, inodeBlkPtrAmt] at hidx ⊢
    omega

end Walks

theorem blkOut (call : Mapped) : Stays (fun _ => call.diskBlk ≠ none) call.blkOut := by
  unfold Mapped.blkOut
  split
  · exact .pure _
  · next hnone => exact .fault fun _ hsome => absurd hnone hsome

/-- After `map_file_block`, what follows may rely on `*disk_blk_out` when the call reports success. -/
theorem mapFileBlock_bind {β : Type} {inode : Inode} {idx : UInt32} {mode : MapMode} {allocCnt : Option UInt32}
    {rest : Mapped → FsM β} (hidx : ∀ geo, c geo → idx.toNat < fileBlkLimit)
    (hrest : ∀ call, Stays (fun geo => c geo ∧ (call.status = .writeSuccess → call.diskBlk ≠ none)) (rest call)) :
    Stays c (DeprecatOS.mapFileBlock inode idx mode allocCnt >>= rest) :=
  .bind_run ((mapFileBlock inode mode allocCnt idx).mono hidx) fun call _ _ hcall =>
    (hrest call).mono fun geo hc => ⟨hc, mapFileBlock_diskBlk (hidx geo hc) hcall⟩

theorem freeAll (inode : Inode) : Stays c (freeAll inode) :=
  .bind (freeDirect _) fun _ => .bind (indirFreeBlock 1 _) fun _ => .bind (indirFreeBlock 2 _) fun _ =>
    indirFreeBlock 3 _

theorem deleteInode (now n : UInt32) : Stays c (deleteInode now n) := by
  have hcount : Stays c (do
      let fs ← MonadState.get
      set (fs.setDirCnt ((n - firstInodeN) / fs.inodesPerGrp).toNat
        (fs.dirCnt ((n - firstInodeN) / fs.inodesPerGrp).toNat - 1))
      DeprecatOS.writeBgdt
      DeprecatOS.freeInode n : FsM Bool) :=
    .get_set_bind (fun _ => geo_setDirCnt) fun _ => .bind writeBgdt fun _ => freeInode n
  have hrest : ∀ inode : Inode, Stays c (do
      if ← DeprecatOS.setInode n inode then
        if inode.type = inodeDirType then
          let fs ← MonadState.get
          set (fs.setDirCnt ((n - firstInodeN) / fs.inodesPerGrp).toNat
            (fs.dirCnt ((n - firstInodeN) / fs.inodesPerGrp).toNat - 1))
          DeprecatOS.writeBgdt
        DeprecatOS.freeInode n
      else Pure.pure false : FsM Bool) := fun inode =>
    .bind (setInode n inode) fun _ => .ite (.ite hcount (freeInode n)) (.pure _)
  refine .bind (getInode n) fun found => ?_
  cases found with
  | none => exact .pure _
  | some inode => exact .ite (.bind (freeAll inode) fun _ => hrest _) (hrest _)

theorem mintInode (now size : UInt32) (type : UInt16) : Stays c (mintInode now size type) :=
  .bind allocInode fun _ => .ite (.pure _) (.pure _)

theorem writeDirect (buf : Buf) (fuel i : Nat) (w : Progress) : Stays c (writeDirect buf fuel i w) := by
  induction fuel generalizing i w with
  | zero => exact .pure _
  | succ fuel ih =>
    exact .ite (.pure _) (.bind allocBlock fun _ => .ite (.bind (freeDirect _) fun _ => .pure _)
      (.bind (writeBlock _ _) fun _ => ih _ _))

theorem writeIndir (buf : Buf) (fuel i : Nat) (blk : Buf) (w : Progress) :
    Stays c (writeIndir buf fuel i blk w) := by
  induction fuel generalizing i blk w with
  | zero => exact .pure _
  | succ fuel ih =>
    exact .ite (.pure _) (.bind allocBlock fun _ => .ite (.pure _)
      (.bind (writeBlock _ _) fun _ => ih _ _ _))

theorem writeDoubly (buf : Buf) (triple doubly : UInt32) (blk : Buf) (fuel idx : Nat) (d : Doubly) :
    Stays c (writeDoubly buf triple doubly blk fuel idx d) := by
  induction fuel generalizing idx d with
  | zero => exact .pure _
  | succ fuel ih =>
    refine .ite (.pure _) (.bind allocBlock fun indir => .ite ?_ ?_)
    · exact .bind (freeDirect _) fun _ => .bind (indirFreeBlock 1 _) fun _ =>
        .bind (indirFreeBlock 2 _) fun _ => .bind (freeEntries 2 _) fun _ => .bind (freeEntries 1 _) fun _ =>
        .bind (freeBlock _) fun _ => .bind (freeBlock _) fun _ => .pure _
    · refine .bind (writeIndir buf ptrsPerBlk 0 zero _) fun r => .ite (.ite ?_ (ih _ _)) ?_
      · exact .ite (.bind (writeBlock _ _) fun _ => .ite (ih _ _) (ih _ _)) (.ite (ih _ _) (ih _ _))
      · exact .bind (freeDirect _) fun _ => .bind (indirFreeBlock 1 _) fun _ =>
          .bind (indirFreeBlock 2 _) fun _ => .bind (freeEntries 2 _) fun _ => .bind (freeEntries 1 _) fun _ =>
          .bind (freeEntries 0 _) fun _ => .bind (freeBlock _) fun _ => .bind (freeBlock _) fun _ =>
          .bind (freeBlock _) fun _ => .pure _

theorem writeTriply (buf : Buf) (triple : UInt32) (fuel idx : Nat) (t : Triply) :
    Stays c (writeTriply buf triple fuel idx t) := by
  induction fuel generalizing idx t with
  | zero => exact .pure _
  | succ fuel ih =>
    refine .ite (.pure _) (.bind allocBlock fun doubly => .ite ?_ ?_)
    · exact .bind (freeDirect _) fun _ => .bind (freeEntries 2 _) fun _ => .bind (indirFreeBlock 1 _) fun _ =>
        .bind (indirFreeBlock 2 _) fun _ => .bind (freeBlock _) fun _ => .pure _
    · refine .bind (writeDoubly buf triple doubly _ ptrsPerBlk 0 _) fun d => .ite (.ite ?_ ?_) (.pure _)
      · exact .bind (writeBlock _ _) fun _ => .ite (ih _ _) (ih _ _)
      · exact .bind (freeBlock _) fun _ => ih _ _

theorem writeInode (buf : Buf) (inode : Inode) : Stays c (writeInode buf inode) :=
  .bind (writeDirect _ _ _ _) fun _ => .ite (.bind allocBlock fun _ =>
    .ite (.bind (freeDirect _) fun _ => .pure _) (.bind (writeTriply _ _ _ _ _) fun _ =>
      .ite (.ite (.bind (writeBlock _ _) fun _ => .pure _) (.bind (freeBlock _) fun _ => .pure _)) (.pure _)))
    (.pure _)

theorem putInode (now : UInt32) (buf : Buf) (size : UInt32) (isDir : Bool) :
    Stays c (putInode now buf size isDir) := by
  have hcount : ∀ (g : Nat) (result : Option (UInt32 × Inode)), Stays c (do
      let fs ← MonadState.get
      set (fs.setDirCnt g (fs.dirCnt g + 1))
      DeprecatOS.writeBgdt
      Pure.pure result : FsM (Option (UInt32 × Inode))) := fun g result =>
    .get_set_bind (fun _ => geo_setDirCnt) fun _ => .bind writeBgdt fun _ => .pure result
  unfold DeprecatOS.putInode
  refine .bind (mintInode now size _) fun minted => ?_
  split
  · exact .pure _
  · refine .bind (writeInode buf _) fun written => ?_
    dsimp only
    split
    · refine .bind .get fun fs => ?_
      split
      · exact panic _
      · refine .bind (setInode _ _) fun ok => ?_
        split
        · split
          · exact hcount _ _
          · exact .pure _
        · exact .pure _
    · exact .bind (freeInode _) fun _ => .pure _

theorem readFileBlock (inode : Inode) (i : UInt32) :
    Stays (fun _ => i.toNat < fileBlkLimit) (readFileBlock inode i) :=
  mapFileBlock_bind (fun _ => id) fun call => .ite_of
    (.bind ((blkOut call).mono fun _ h => h.1.2 h.2) fun _ => .bind (readBlock _) fun _ => .pure _) (.pure _)

/-- A loop over the blocks of a directory: each round reads its block, and what it then does with the block and the
rounds behind it stays in the buffers. -/
theorem blockLoop {α : Type} {inode : Inode} {loop : Nat → UInt32 → FsM α}
    {round : Nat → UInt32 → Option (UInt32 × Buf) → FsM α} (hzero : ∀ i, Stays (fun _ => InFile i 0) (loop 0 i))
    (hsucc : ∀ cnt i, loop (cnt + 1) i = DeprecatOS.readFileBlock inode i >>= round cnt i)
    (hround : ∀ cnt i, Stays (fun _ => InFile i (cnt + 1)) (loop cnt (i + 1)) →
      ∀ found, Stays (fun _ => InFile i (cnt + 1)) (round cnt i found)) (cnt : Nat) (i : UInt32) :
    Stays (fun _ => InFile i cnt) (loop cnt i) := by
  induction cnt generalizing i with
  | zero => exact hzero i
  | succ cnt ih =>
    rw [hsucc]
    exact .bind ((readFileBlock inode i).mono fun _ => InFile.head)
      (hround cnt i ((ih (i + 1)).mono fun _ => InFile.tail))

theorem nameIn (inode : Inode) (name : Buf) : Stays c (nameIn inode name) := by
  have hblocks : ∀ cnt i, Stays (fun _ => InFile i cnt) (nameInBlocks inode name cnt i) := by
    refine blockLoop (fun _ => .pure _) (fun _ _ => rfl) fun cnt i ih found => ?_
    cases found with
    | none => exact .pure _
    | some found =>
      dsimp only
      split
      · exact .pure _
      · exact ih
  exact (hblocks _ _).mono fun _ _ => .of_size _

/-- Whether `lookup` stays in its buffer depends on the records of the block. -/
theorem keeps_lookupInBlocks (inode : Inode) (name : Buf) (cnt : Nat) (i : UInt32) :
    KeepsGeo (lookupInBlocks inode name cnt i) := by
  induction cnt generalizing i with
  | zero => exact .pure _
  | succ cnt ih =>
    refine .bind (readFileBlock inode i).keeps fun found => ?_
    cases found with
    | none => exact .pure _
    | some found =>
      dsimp only
      split
      · exact .fault _
      · exact .pure _
      · exact ih _

theorem linkText (inode : Inode) : Stays c (linkText inode) :=
  .ite (.pure _) (readBlock _)

theorem dirIsEmpty (inode : Inode) : Stays c (dirIsEmpty inode) := by
  have hblocks : ∀ cnt i, Stays (fun _ => InFile i cnt) (blocksAreEmpty inode cnt i) := by
    refine blockLoop (fun _ => .pure _) (fun _ _ => rfl) fun cnt i ih found => ?_
    cases found with
    | none => exact .pure _
    | some found => exact .ite ih (.pure _)
  exact (hblocks _ _).mono fun _ _ => .of_size _

section Entries

variable (now parentN childN : UInt32) (parent child : Inode) (name : Buf) (len : Nat)

theorem linkChild : Stays c (linkChild now parentN childN parent child) :=
  .ite (setInode _ _) (.bind (setInode _ _) fun _ => .ite (setInode _ _) (.pure _))

theorem insertInBlocks (cnt : Nat) (i : UInt32) :
    Stays (fun _ => InFile i cnt) (insertInBlocks now parentN childN parent child name len cnt i) := by
  refine blockLoop (fun _ => .pure _) (fun _ _ => rfl) (fun cnt i ih found => ?_) cnt i
  cases found with
  | none => exact .pure _
  | some found =>
    dsimp only
    split
    · exact .pure _
    · exact .bind (writeBlock _ _) fun _ => .bind (linkChild _ _ _ _ _) fun _ => .pure _
    · exact ih

theorem growDir : Stays c (growDir now parentN childN parent child name len) :=
  .ite (.pure _) (mapFileBlock_bind (fun _ _ => blocksFor_lt _) fun call => .ite_of
    (.bind ((blkOut call).mono fun _ h => h.1.2 h.2) fun _ => .bind (writeBlock _ _) fun _ => .ite (setInode _ _)
      (.bind (setInode _ _) fun _ => .ite (setInode _ _) (.pure _))) (.pure _))

theorem insertEntry : Stays c (insertEntry now parentN name len childN child) :=
  .bind (getInode _) fun
    | none => .pure _
    | some _ => .ite (.pure _) (.bind ((insertInBlocks _ _ _ _ _ _ _ _ _).mono fun _ _ => .of_size _) fun
      | some _ => .pure _
      | none => growDir _ _ _ _ _ _ _)

theorem unlinkChild : Stays c (unlinkChild now parentN childN parent) :=
  .bind (getInode _) fun
    | none => .pure _
    | some _ => .ite (setInode _ _) (.bind (setInode _ _) fun _ => .ite (setInode _ _) (.pure _))

theorem removeEntry : Stays c (removeEntry now parentN name) := by
  have hblocks : ∀ parent cnt i, Stays (fun _ => InFile i cnt) (removeInBlocks now parentN parent name cnt i) := by
    refine fun parent => blockLoop (fun _ => .pure _) (fun _ _ => rfl) fun cnt i ih found => ?_
    cases found with
    | none => exact .pure _
    | some found =>
      dsimp only
      split
      · exact .pure _
      · exact .bind (writeBlock _ _) fun _ => .bind (unlinkChild _ _ _ _) fun _ => .ite (.pure _) (.pure _)
      · exact ih
  exact .bind (getInode _) fun
    | none => .pure _
    | some _ => .ite (.pure _) ((hblocks _ _ _).mono fun _ _ => .of_size _)

theorem dropDir : Stays c (dropDir now parentN childN) :=
  .bind (getInode _) fun
    | none => .pure _
    | some _ => .bind (setInode _ _) fun _ => .ite (.bind (getInode _) fun
      | none => .pure _
      | some _ => deleteInode _ _) (.pure _)

theorem dirSetParentEntry : Stays c (dirSetParentEntry childN parentN) := by
  have hblocks : ∀ child cnt i, Stays (fun _ => InFile i cnt) (setParentInBlocks child parentN cnt i) := by
    refine fun child => blockLoop (fun _ => .pure _) (fun _ _ => rfl) fun cnt i ih found => ?_
    cases found with
    | none => exact .pure _
    | some found =>
      dsimp only
      split
      · exact .pure _
      · exact .bind (writeBlock _ _) fun _ => .pure _
      · exact ih
  exact .bind (getInode _) fun
    | none => .pure _
    | some _ => .ite (.pure _) (.bind (getInode _) fun
      | none => .pure _
      | some _ => .ite (.pure _) ((hblocks _ _ _).mono fun _ _ => .of_size _))

theorem isAncestor : Stays c (isAncestor parentN childN) := by
  have hfrom : ∀ depth cur, Stays c (isAncestorFrom parentN depth cur) := by
    intro depth
    induction depth with
    | zero => exact fun _ => .pure _
    | succ depth ih =>
      exact fun cur => .ite (.pure _) (.ite (.pure _) (.bind (getInode cur) fun
        | none => .pure _
        | some inode => .bind (nameIn inode _) fun
          | none => .pure _
          | some parent => ih parent))
  exact hfrom _ _

theorem moveParentLink (oldParentN : UInt32) : Stays c (moveParentLink childN oldParentN parentN) := by
  exact .bind (dirSetParentEntry _ _) fun _ => .ite (.bind (getInode _) fun
    | none => .pure _
    | some _ => .bind (setInode _ _) fun _ => .ite (.bind (getInode _) fun
      | none => .pure _
      | some _ => setInode _ _) (.pure _)) (.pure _)

end Entries

section Contents

variable (now n size : UInt32) (buf junk : Buf) (inode : Inode)

theorem replaceInode : Stays c (replaceInode now n buf size) :=
  .bind (getInode _) fun
    | none => .pure _
    | some _ => .bind (freeAll _) fun _ => .bind (writeInode _ _) fun _ => .ite
      (.bind (setInode _ _) fun _ => .ite (.pure _) (.pure _))
      (.bind (setInode _ _) fun _ => .ite (.pure _) (panic _))

theorem truncateBlocks (cnt : Nat) (blk freeCnt : UInt32) :
    Stays (fun _ => InFile blk cnt) (truncateBlocks cnt blk inode freeCnt) := by
  induction cnt generalizing blk inode freeCnt with
  | zero => exact .pure _
  | succ cnt ih =>
    refine mapFileBlock_bind (fun _ => InFile.head) fun call => ?_
    have hnext : ∀ inode freeCnt, Stays (fun _ => InFile blk (cnt + 1) ∧ (call.status = .writeSuccess → call.diskBlk ≠ none))
        (DeprecatOS.truncateBlocks cnt (blk + 1) inode freeCnt) := fun inode freeCnt =>
      (ih inode (blk + 1) freeCnt).mono fun _ h => h.1.tail
    split
    · exact hnext _ _
    · next hstatus =>
      exact .bind ((blkOut call).mono fun _ h => h.2 hstatus) fun _ => .bind (freeBlock _) fun _ => hnext _ _
    · exact .pure _

theorem div_lt_fileBlkLimit : (size / 4096).toNat < fileBlkLimit := by
  have hlt := size.toNat_lt
  rw [UInt32.toNat_div, fileBlkLimit]
  exact Nat.div_lt_of_lt_mul (by simp; omega)

theorem clearTail : Stays c (clearTail inode size) := by
  refine mapFileBlock_bind (fun _ _ => div_lt_fileBlkLimit size) fun call => ?_
  split
  · exact .pure _
  · next hstatus =>
    exact .bind ((blkOut call).mono fun _ h => h.2 hstatus) fun _ => .bind (readBlock _) fun _ =>
      .bind (writeBlock _ _) fun _ => .pure _
  · exact .pure _

theorem truncateInode : Stays c (truncateInode now n size) := by
  refine .bind (getInode _) fun found => ?_
  cases found with
  | none => exact .pure _
  | some inode =>
    refine .ite (.pure _) (.bind ((truncateBlocks _ _ _ _).mono fun _ _ => ?_) fun done => ?_)
    · have hstart := blocksFor_lt size
      have hcnt := blocksFor_lt inode.sizeLo
      rw [InFile]
      omega
    · cases done with
      | none => exact .pure _
      | some done =>
        have htail : Stays c (if size % 4096 = 0 then Pure.pure true else DeprecatOS.clearTail done.1 size) :=
          .ite (.pure _) (clearTail _ _)
        exact .bind htail fun _ => .ite (.bind (setInode _ _) fun _ => .ite (.pure _) (.pure _)) (.pure _)

theorem fillTail (a : Append) :
    Stays (fun _ => (blocksFor a.inode.sizeLo - 1).toNat < fileBlkLimit) (fillTail buf a) := by
  refine mapFileBlock_bind (fun _ => id) fun found => ?_
  dsimp only
  split
  · exact mapFileBlock_bind (fun _ h => h.1) fun call => .ite_of
      (.bind ((blkOut call).mono fun _ h => h.1.2 h.2) fun _ => .bind (writeBlock _ _) fun _ => .pure _) (.pure _)
  · next hstatus =>
    exact .bind ((blkOut found).mono fun _ h => h.2 hstatus) fun _ => .bind (readBlock _) fun _ =>
      .bind (writeBlock _ _) fun _ => .pure _
  · exact .pure _

theorem unwindBlock (idx : UInt32) : Stays (fun _ => idx.toNat < fileBlkLimit) (unwindBlock inode idx) :=
  mapFileBlock_bind (fun _ => id) fun call => .ite_of
    (.bind ((blkOut call).mono fun _ h => h.1.2 h.2) fun _ => .bind (freeBlock _) fun _ => .pure _) (panic _)

/-- The `cnt` block indices from `start + i` on are indices of a file. -/
theorem unwindBlocks (start : UInt32) (cnt : Nat) (i : UInt32) :
    Stays (fun _ => InFile (start + i) cnt) (unwindBlocks start cnt i inode) := by
  induction cnt generalizing i inode with
  | zero => exact .pure _
  | succ cnt ih =>
    refine .bind ((unwindBlock inode (start + i)).mono fun _ => InFile.head) fun inode => (ih inode (i + 1)).mono ?_
    intro _ hin
    rw [← UInt32.add_assoc]
    exact hin.tail

theorem appendBlocks (oldBlkCnt : UInt32) (fuel : Nat) (blkIdx : UInt32) (a : Append) :
    Stays (fun _ => oldBlkCnt.toNat + blkIdx.toNat + fuel ≤ fileBlkLimit ∧
        (a.allocedBackward = true → (oldBlkCnt - 1).toNat < fileBlkLimit))
      (appendBlocks buf junk oldBlkCnt fuel blkIdx a) := by
  have hlimit : fileBlkLimit = 1074791436 := rfl
  induction fuel generalizing blkIdx a with
  | zero => exact .pure _
  | succ fuel ih =>
    refine .ite (.pure _) (mapFileBlock_bind (fun _ h => ?_) fun call => .ite_of ?_ ?_)
    · rw [UInt32.toNat_add]
      omega
    · refine .bind ((blkOut call).mono fun _ h => h.1.2 h.2) fun _ => .bind (writeBlock _ _) fun _ => (ih _ _).mono ?_
      rintro _ ⟨⟨⟨hin, hback⟩, -⟩, -⟩
      have hnext : (blkIdx + 1).toNat = blkIdx.toNat + 1 := toNat_add_one (by omega)
      exact ⟨by omega, hback⟩
    · refine .bind ((unwindBlocks _ _ _ _).mono ?_) fun _ => .ite_of
        (.bind ((unwindBlock _ _).mono fun _ h => h.1.1.1.2 h.2) fun _ => .pure _) (.pure _)
      rintro _ ⟨⟨⟨hin, -⟩, -⟩, -⟩
      rw [InFile, UInt32.add_zero]
      omega

theorem appendToInode_defined {fs : FsInfo} (hgeo : fs.geo.InBounds)
    (hsize : ∀ inode fs', DeprecatOS.getInode n fs = .ok (some inode, fs') → RoundsUp inode.sizeLo) :
    appendToInode now junk n buf size fs ≠ .error .undefined := by
  refine run_bind_ne_error ((getInode n).defined hgeo) fun found mid hfound => ?_
  obtain rfl := (getInode_eq_ok hfound).1
  cases found with
  | none => exact defined (.pure _) hgeo
  | some inode =>
    have hrounds := hsize inode _ hfound
    dsimp only
    split
    · exact defined (.pure _) hgeo
    have hblocks : ∀ (a : Append) {rest : Option Append → FsM (Option Inode)},
        (∀ done, Stays (fun _ => True) (rest done)) →
        (a.allocedBackward = true → (blocksFor inode.sizeLo - 1).toNat < fileBlkLimit) →
        Stays (fun _ => True)
          (DeprecatOS.appendBlocks buf junk (blocksFor inode.sizeLo) (size.toNat / 4096 + 1) 0 a >>= rest) := by
      intro a rest hrest hback
      refine .bind ((appendBlocks _ _ _ _ _ _).mono fun _ _ => ⟨?_, hback⟩) hrest
      have hcnt := blocksFor_small inode.sizeLo
      have hlt := size.toNat_lt
      rw [fileBlkLimit]
      simp
      omega
    by_cases hmod : inode.sizeLo % 4096 = 0
    · rw [if_pos hmod, run_bind_ok (run_pure _ _)]
      refine (hblocks _ (fun done => ?_) fun hback => by cases hback).defined hgeo
      cases done with
      | none => exact .pure _
      | some a => exact .bind (setInode _ _) fun _ => .ite (.pure _) (.pure _)
    · have hidx := blocksFor_sub_one_lt hmod hrounds
      rw [if_neg hmod]
      refine defined (.bind ((fillTail _ _).mono fun _ _ => hidx) fun tail => ?_) hgeo
      cases tail with
      | none => exact .pure _
      | some a =>
        refine hblocks a (fun done => ?_) fun _ => hidx
        cases done with
        | none => exact .pure _
        | some a => exact .bind (setInode _ _) fun _ => .ite (.pure _) (.pure _)

/-- Whether `append_to_inode` stays in its buffers depends on the size of the file. -/
theorem keeps_appendToInode : KeepsGeo (appendToInode now junk n buf size) := by
  refine .bind (keepsGeo (getInode n)) fun found => ?_
  cases found with
  | none => exact .pure _
  | some inode =>
    refine .ite (.pure _) (.bind (.ite (.pure _) (fillTail _ _).keeps) fun tail => ?_)
    cases tail with
    | none => exact .pure _
    | some a =>
      refine .bind (appendBlocks _ _ _ _ _ _).keeps fun done => ?_
      cases done with
      | none => exact .pure _
      | some a => exact .bind (keepsGeo (setInode _ _)) fun _ => .ite (.pure _) (.pure _)

end Contents

end Stays

end DeprecatOS
