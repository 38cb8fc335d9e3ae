import DeprecatOS.Proof.Allocation
import DeprecatOS.Proof.InodeTable

/-!
# The inode tables are a store

For any geometry whose tables lie apart in the partition, whatever else the filesystem holds: `set_inode` replaces one
record and `get_inode` reads it back, and not a byte outside the record changes. The one thing asked of the inode is that
its group has a descriptor in `bgdt_buf`; behind its 128 descriptors the code takes other bytes for the table's address.
-/

namespace DeprecatOS

open Bytes Bits Fault

variable {fs : FsInfo} {m n : UInt32}

def FsInfo.tableBlocks (fs : FsInfo) : Nat := (fs.inodesPerGrp.toNat * fs.inodeSize.toNat + 4095) / 4096

def FsInfo.InTable (fs : FsInfo) (g : Nat) (b : UInt32) : Prop :=
  (fs.inodeTableStartAddr g).toNat ≤ b.toNat ∧ b.toNat < (fs.inodeTableStartAddr g).toNat + fs.tableBlocks

/-- How many groups have a descriptor in `bgdt_buf`. -/
def FsInfo.describedGroups (fs : FsInfo) : Nat := min fs.ngroups.toNat bgdtLen

/-- A geometry with room for every inode, and with tables of whole records that lie in the partition, no two of them on
one block. The sector count is a 32-bit field of the partition table. There may be more groups than descriptors in
memory: the tables of those the code does not know. -/
structure InodeTables (fs : FsInfo) : Prop where
  inodeSize_ge : 128 ≤ fs.inodeSize.toNat
  inodeSize_dvd : fs.inodeSize.toNat ∣ 4096
  perGrp_pos : 0 < fs.inodesPerGrp.toNat
  perGrp_le : fs.inodesPerGrp.toNat ≤ 32768
  inodeCnt_le : fs.inodeCnt.toNat ≤ fs.ngroups.toNat * fs.inodesPerGrp.toNat
  sectorCount_lt : fs.sectorCount < 2 ^ 32
  inside : ∀ g < fs.describedGroups, 8 * ((fs.inodeTableStartAddr g).toNat + fs.tableBlocks) ≤ fs.sectorCount
  apart : ∀ g < fs.describedGroups, ∀ h < fs.describedGroups, g ≠ h → ∀ b, fs.InTable g b → ¬ fs.InTable h b

namespace InodeTables

variable (htables : InodeTables fs)

include htables

theorem perGrp_ne_zero : fs.inodesPerGrp ≠ 0 := fun hzero => absurd htables.perGrp_pos (by rw [hzero]; decide)

theorem group_lt (hn : fs.geo.Real .inode n) (hdescribed : fs.Described n) :
    ((n - 1) / fs.inodesPerGrp).toNat < fs.describedGroups :=
  lt_min (hn.group_lt htables.inodeCnt_le) hdescribed

theorem position_lt (n : UInt32) : ((n - 1) % fs.inodesPerGrp * fs.inodeSize).toNat / 4096 < fs.tableBlocks := by
  have hsize := htables.inodeSize_ge
  have hindex := Nat.mod_lt (n - 1).toNat htables.perGrp_pos
  rw [FsInfo.toNat_position htables.inodeSize_dvd htables.perGrp_pos htables.perGrp_le]
  have hlast : (n - 1).toNat % fs.inodesPerGrp.toNat * fs.inodeSize.toNat + fs.inodeSize.toNat
      ≤ fs.inodesPerGrp.toNat * fs.inodeSize.toNat :=
    calc _ = ((n - 1).toNat % fs.inodesPerGrp.toNat + 1) * fs.inodeSize.toNat := by ring
      _ ≤ _ := Nat.mul_le_mul_right _ hindex
  unfold FsInfo.tableBlocks
  omega

theorem slot_inTable (hn : fs.geo.Real .inode n) (hdescribed : fs.Described n) :
    fs.InTable ((n - 1) / fs.inodesPerGrp).toNat (fs.inodeSlot n).1 := by
  have hpos := htables.position_lt n
  have hinside := htables.inside _ (htables.group_lt hn hdescribed)
  have hsectors := htables.sectorCount_lt
  have hquot : ((n - 1) % fs.inodesPerGrp * fs.inodeSize / UInt32.ofNat blockSize).toNat
      = ((n - 1) % fs.inodesPerGrp * fs.inodeSize).toNat / 4096 := UInt32.toNat_div _ _
  have hblock : (fs.inodeSlot n).1.toNat = (fs.inodeTableStartAddr ((n - 1) / fs.inodesPerGrp).toNat).toNat
      + ((n - 1) % fs.inodesPerGrp * fs.inodeSize).toNat / 4096 := by
    rw [← hquot]
    apply (UInt32.toNat_add _ _).trans
    rw [hquot]
    omega
  unfold FsInfo.InTable
  omega

theorem slot_holds (hn : fs.geo.Real .inode n) (hdescribed : fs.Described n) : fs.geo.Holds (fs.inodeSlot n).1 := by
  have htable := (htables.slot_inTable hn hdescribed).2
  have hinside := htables.inside _ (htables.group_lt hn hdescribed)
  have hsectors := htables.sectorCount_lt
  have hcount : fs.geo.sectorCount = fs.sectorCount := rfl
  unfold Geo.Holds
  rw [hcount]
  omega

theorem slot_inside (n : UInt32) : (fs.inodeSlot n).2 + 128 ≤ blockSize := by
  have hsize := htables.inodeSize_ge
  have hfits := FsInfo.slot_fits htables.inodeSize_dvd htables.perGrp_pos htables.perGrp_le n
  omega

theorem slots_disjoint (hm : fs.geo.Real .inode m) (hmDescribed : fs.Described m) (hn : fs.geo.Real .inode n)
    (hnDescribed : fs.Described n) (hne : m ≠ n) (hblock : (fs.inodeSlot m).1 = (fs.inodeSlot n).1) :
    (fs.inodeSlot m).2 + 128 ≤ (fs.inodeSlot n).2 ∨ (fs.inodeSlot n).2 + 128 ≤ (fs.inodeSlot m).2 := by
  refine FsInfo.slots_disjoint htables.inodeSize_ge htables.inodeSize_dvd htables.perGrp_pos htables.perGrp_le hm hn hne
    ?_ hblock
  by_contra hgroups
  refine htables.apart _ (htables.group_lt hm hmDescribed) _ (htables.group_lt hn hnDescribed)
    (mt UInt32.toNat_inj.mp hgroups) _ (htables.slot_inTable hm hmDescribed) ?_
  rw [hblock]
  exact htables.slot_inTable hn hnDescribed

theorem readSlot_run (hn : fs.geo.Real .inode n) (hdescribed : fs.Described n) :
    readSlot n fs = .ok (fs.disk (fs.inodeSlot n).1, fs) :=
  readSlot_eq hdescribed (htables.slot_inside n) (readBlock_run (htables.slot_holds hn hdescribed))

theorem getInode_run (hn : fs.geo.Real .inode n) (hdescribed : fs.Described n) :
    getInode n fs = .ok (some (Inode.load (fs.disk (fs.inodeSlot n).1) (fs.inodeSlot n).2), fs) := by
  rw [getInode, run_bind_ok (run_get fs), if_neg htables.perGrp_ne_zero, if_neg (real_iff.mp hn),
    run_bind_ok (htables.readSlot_run hn hdescribed)]
  rfl

end InodeTables

def FsInfo.withRecord (fs : FsInfo) (n : UInt32) (v : Inode) : FsInfo :=
  { fs with
    disk := Function.update fs.disk (fs.inodeSlot n).1 (v.store (fs.disk (fs.inodeSlot n).1) (fs.inodeSlot n).2) }

theorem InodeTables.setInode_run (htables : InodeTables fs) (hn : fs.geo.Real .inode n) (hdescribed : fs.Described n)
    (v : Inode) : setInode n v fs = .ok (true, fs.withRecord n v) := by
  rw [setInode, run_bind_ok (run_get fs), if_neg htables.perGrp_ne_zero, if_neg (real_iff.mp hn),
    run_bind_ok (htables.readSlot_run hn hdescribed), run_bind_ok (writeBlock_run (htables.slot_holds hn hdescribed) _)]
  rfl

theorem InodeTables.setInode_undescribed (htables : InodeTables fs) (hn : fs.geo.Real .inode n)
    (hdescribed : ¬ fs.Described n) (v : Inode) : setInode n v fs = .error .undefined := by
  have hslot : readSlot n fs = .error .undefined := by
    rw [readSlot, run_bind_ok (run_get fs), if_pos (Nat.not_lt.mp hdescribed)]
    rfl
  rw [setInode, run_bind_ok (run_get fs), if_neg htables.perGrp_ne_zero, if_neg (real_iff.mp hn),
    run_bind_error hslot]

/-! ### Reading after writing -/

theorem InodeTables.withRecord (htables : InodeTables fs) (n : UInt32) (v : Inode) : InodeTables (fs.withRecord n v) :=
  ⟨htables.inodeSize_ge, htables.inodeSize_dvd, htables.perGrp_pos, htables.perGrp_le, htables.inodeCnt_le,
    htables.sectorCount_lt, htables.inside, htables.apart⟩

theorem FsInfo.disk_withRecord_self (fs : FsInfo) (n : UInt32) (v : Inode) : (fs.withRecord n v).disk (fs.inodeSlot n).1
    = v.store (fs.disk (fs.inodeSlot n).1) (fs.inodeSlot n).2 := Function.update_self _ _ _

theorem FsInfo.disk_withRecord_of_ne {b : UInt32} (hb : b ≠ (fs.inodeSlot n).1) (v : Inode) :
    (fs.withRecord n v).disk b = fs.disk b := Function.update_of_ne hb _ _

theorem InodeTables.load_withRecord (htables : InodeTables fs) (hm : fs.geo.Real .inode m) (hmDescribed : fs.Described m)
    (hn : fs.geo.Real .inode n) (hnDescribed : fs.Described n) (hne : m ≠ n) (v : Inode) :
    Inode.load ((fs.withRecord n v).disk (fs.inodeSlot m).1) (fs.inodeSlot m).2
      = Inode.load (fs.disk (fs.inodeSlot m).1) (fs.inodeSlot m).2 := by
  by_cases hblock : (fs.inodeSlot m).1 = (fs.inodeSlot n).1
  · have hdisjoint := htables.slots_disjoint hm hmDescribed hn hnDescribed hne hblock
    rw [hblock, fs.disk_withRecord_self]
    apply Inode.load_congr
    intro k hlow hhigh
    exact Inode.store_apply_of_disjoint _ _ (by omega)
  · rw [FsInfo.disk_withRecord_of_ne hblock]

theorem setInode_none (hper : fs.inodesPerGrp ≠ 0) (hn : ¬ fs.geo.Real .inode n) (v : Inode) :
    setInode n v fs = .ok (false, fs) := by
  rw [setInode, run_bind_ok (run_get fs), if_neg hper, if_pos (not_real_iff.mp hn)]
  rfl

/-- **The inode tables are a store, as far as the descriptors go.** When the group of `n` has a descriptor in
`bgdt_buf`, and only then: a record that was written is read back, other inodes are read as before, and nothing changes
but the 128 bytes of the record, which lie in a block of the table. Both functions fail, and change nothing, when there
is no such inode. -/
theorem inodeTables_store (htables : InodeTables fs) (n : UInt32) :
    (∀ v, (0 < n ∧ n ≤ fs.inodeCnt → ∃ fs', setInode n v fs = .ok (true, fs') ∧ getInode n fs' = .ok (some v, fs') ∧
        (∀ m, m ≠ n → (0 < m ∧ m ≤ fs.inodeCnt → fs.Described m) →
          ∃ r, getInode m fs = .ok (r, fs) ∧ getInode m fs' = .ok (r, fs')) ∧
        (∀ b k, b ≠ (fs.inodeSlot n).1 ∨ k < (fs.inodeSlot n).2 ∨ (fs.inodeSlot n).2 + 128 ≤ k →
          fs'.disk b k = fs.disk b k) ∧
        (∀ b, (∀ g < fs.describedGroups, ¬ fs.InTable g b) → fs'.disk b = fs.disk b) ∧
        (fs.inodeSlot n).2 + 128 ≤ 4096 ∧ fs' = { fs with disk := fs'.disk }) ∧
      (n = 0 ∨ fs.inodeCnt < n → setInode n v fs = .ok (false, fs) ∧ getInode n fs = .ok (none, fs))) ↔
    (0 < n ∧ n ≤ fs.inodeCnt → fs.Described n) := by
  constructor
  · intro hstore hn
    obtain ⟨fs', hset, -⟩ := (hstore .zero).1 hn
    by_contra hdescribed
    rw [htables.setInode_undescribed hn hdescribed] at hset
    cases hset
  intro hdescribed v
  refine ⟨fun hn => ⟨fs.withRecord n v, htables.setInode_run hn (hdescribed hn) v, ?_, fun m hne hm => ?_,
    fun b k hk => ?_, fun b hb => ?_, htables.slot_inside n, rfl⟩, fun hnone => ?_⟩
  · rw [(htables.withRecord n v).getInode_run hn (hdescribed hn)]
    change Except.ok (some (Inode.load ((fs.withRecord n v).disk (fs.inodeSlot n).1) (fs.inodeSlot n).2), _) = _
    rw [fs.disk_withRecord_self, Inode.load_store_self]
  · by_cases hreal : fs.geo.Real .inode m
    · refine ⟨_, htables.getInode_run hreal (hm hreal), ?_⟩
      rw [(htables.withRecord n v).getInode_run hreal (hm hreal),
        ← htables.load_withRecord hreal (hm hreal) hn (hdescribed hn) hne v]
      rfl
    · exact ⟨none, getInode_none htables.perGrp_ne_zero hreal,
        getInode_none (htables.withRecord n v).perGrp_ne_zero hreal⟩
  · by_cases hblock : b = (fs.inodeSlot n).1
    · rw [hblock, fs.disk_withRecord_self]
      exact Inode.store_apply_of_disjoint _ _ (hk.resolve_left (not_not.mpr hblock))
    · rw [FsInfo.disk_withRecord_of_ne hblock]
  · apply FsInfo.disk_withRecord_of_ne
    rintro rfl
    exact hb _ (htables.group_lt hn (hdescribed hn)) (htables.slot_inTable hn (hdescribed hn))
  · exact ⟨setInode_none htables.perGrp_ne_zero (not_real_iff.mpr hnone) v,
      getInode_none htables.perGrp_ne_zero (not_real_iff.mpr hnone)⟩

theorem smallFs_inodeTables : InodeTables smallFs := by
  have hone : smallFs.describedGroups = 1 := rfl
  refine ⟨by decide, by decide, by decide, by decide, by decide, by decide, ?_, ?_⟩
  · rw [hone]
    decide
  · rw [hone]
    intro g hg h hh hne
    omega

/-- A file of the sample gets its size changed: the new record is read back, and the root's record is still there. -/
theorem inodeTables_store_smallFs : ∃ fs', setInode 3 { smallFile with sizeLo := 7 } smallFs = .ok (true, fs') ∧
    getInode 3 fs' = .ok (some { smallFile with sizeLo := 7 }, fs') ∧
    ∃ r, getInode 2 smallFs = .ok (r, smallFs) ∧ getInode 2 fs' = .ok (r, fs') := by
  obtain ⟨fs', hset, hget, hothers, -⟩ :=
    ((inodeTables_store smallFs_inodeTables 3).mpr (fun _ => by decide) { smallFile with sizeLo := 7 }).1 (by decide)
  exact ⟨fs', hset, hget, hothers 2 (by decide) fun _ => by decide⟩

/-- One inode and one block of inode table in each of 129 groups, the tables one after another from block 3 on: a
descriptor more than `bgdt_buf` holds. -/
def wideFs : FsInfo where
  disk _ := zero
  sprblkBuf := store32 (store32 zero 0 129) 4 1032
  bgdtBuf k := if k % 32 = 8 then UInt8.ofNat (k / 32 + 3) else 0
  sectorCount := 8256
  inodeSize := 128
  inodesPerGrp := 1
  blksPerGrp := 8
  ngroups := 129
  mountpoint := 0

theorem wideFs_inodeTables : InodeTables wideFs := by
  have hgroups : wideFs.describedGroups = 128 := rfl
  have haddr : ∀ g < 128, (wideFs.inodeTableStartAddr g).toNat = g + 3 := by decide +kernel
  have hblocks : wideFs.tableBlocks = 1 := rfl
  have hsectors : wideFs.sectorCount = 8256 := rfl
  refine ⟨by decide, by decide, by decide, by decide, by decide, by decide, fun g hg => ?_, fun g hg h hh hne b hb hb' => ?_⟩
  · rw [hgroups] at hg
    rw [haddr g hg, hblocks, hsectors]
    omega
  · rw [hgroups] at hg hh
    rw [FsInfo.InTable, haddr _ hg, hblocks] at hb
    rw [FsInfo.InTable, haddr _ hh, hblocks] at hb'
    omega

/-- The last inode is in the group without a descriptor. -/
theorem setInode_undescribed_wideFs : InodeTables wideFs ∧
    wideFs.ngroups = (wideFs.blockCnt + wideFs.blksPerGrp - 1) / wideFs.blksPerGrp ∧
    (0 < (129 : UInt32) ∧ 129 ≤ wideFs.inodeCnt) ∧ setInode 129 .zero wideFs = .error .undefined :=
  ⟨wideFs_inodeTables, by decide, by decide, wideFs_inodeTables.setInode_undescribed (by decide) (by decide) _⟩

end DeprecatOS
