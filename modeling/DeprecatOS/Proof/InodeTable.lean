import DeprecatOS.Consistent
import DeprecatOS.Proof.Blocks
import DeprecatOS.Proof.InodeRecord

/-!
# The inode table

`get_inode` returns the record of an inode and `set_inode` replaces it; no other record and no block
outside the table changes.
-/

namespace DeprecatOS

open Bytes Bits Fault PointerTree

variable {static : UInt32 → Prop} {fs fs' : FsInfo} {m n : UInt32}

/-! ### Slots -/

/-- The group of inode `n` has a descriptor in `bgdt_buf`. -/
def FsInfo.Described (fs : FsInfo) (n : UInt32) : Prop := ((n - 1) / fs.inodesPerGrp).toNat < bgdtLen

instance (fs : FsInfo) (n : UInt32) : Decidable (fs.Described n) := inferInstanceAs (Decidable (_ < _))

theorem FsInfo.inodeSlot_of_geo (hgeo : fs'.geo = fs.geo) (n : UInt32) :
    fs'.inodeSlot n = fs.inodeSlot n := by
  have hper : fs'.inodesPerGrp = fs.inodesPerGrp := congrArg Geo.inodesPerGrp hgeo
  have hsize : fs'.inodeSize = fs.inodeSize := congrArg Geo.inodeSize hgeo
  have htable : fs'.inodeTableStartAddr = fs.inodeTableStartAddr :=
    congrArg Geo.inodeTableStartAddr hgeo
  simp only [FsInfo.inodeSlot, hper, hsize, htable]

theorem Layout.of_geo (hlayout : Layout static fs) (hgeo : fs'.geo = fs.geo) : Layout static fs' := by
  have hper : fs'.inodesPerGrp = fs.inodesPerGrp := congrArg Geo.inodesPerGrp hgeo
  have hsize : fs'.inodeSize = fs.inodeSize := congrArg Geo.inodeSize hgeo
  refine ⟨?_, ?_, fun n => ?_, fun n => ?_, fun m n => ?_⟩
  · rw [hsize]
    exact hlayout.inodeSize_ge
  · rw [hsize]
    exact hlayout.inodeSize_dvd
  · rw [hgeo, FsInfo.inodeSlot_of_geo hgeo]
    exact hlayout.static n
  · rw [hgeo, FsInfo.inodeSlot_of_geo hgeo]
    exact hlayout.notBook n
  · rw [hgeo, hper, FsInfo.inodeSlot_of_geo hgeo, FsInfo.inodeSlot_of_geo hgeo]
    exact hlayout.apart m n

theorem Geo.Real.toNat_pos {geo : Geo} (hn : geo.Real .inode n) : 0 < n.toNat := UInt32.lt_iff_toNat_lt.mp hn.1

theorem Geo.Real.toNat_sub_one {geo : Geo} (hn : geo.Real .inode n) : (n - 1).toNat = n.toNat - 1 :=
  UInt32.toNat_sub_of_le _ _ (UInt32.le_iff_toNat_le.mpr hn.toNat_pos)

theorem Geo.Real.sub_one_inj {geo : Geo} (hm : geo.Real .inode m) (hn : geo.Real .inode n)
    (heq : (m - 1).toNat = (n - 1).toNat) : m = n := by
  have hmPos := hm.toNat_pos
  have hnPos := hn.toNat_pos
  rw [hm.toNat_sub_one, hn.toNat_sub_one] at heq
  apply UInt32.toNat_inj.mp
  omega

theorem Geo.Real.group_lt (hn : fs.geo.Real .inode n)
    (hcnt : fs.inodeCnt.toNat ≤ fs.ngroups.toNat * fs.inodesPerGrp.toNat) :
    ((n - 1) / fs.inodesPerGrp).toNat < fs.ngroups.toNat := by
  have hle : n.toNat ≤ fs.inodeCnt.toNat := UInt32.le_iff_toNat_le.mp hn.2
  have hpos := hn.toNat_pos
  rw [UInt32.toNat_div, hn.toNat_sub_one]
  apply Nat.div_lt_of_lt_mul
  rw [Nat.mul_comm]
  omega

section Slots

variable (hsizeGe : 128 ≤ fs.inodeSize.toNat) (hsizeDvd : fs.inodeSize.toNat ∣ 4096) (hperPos : 0 < fs.inodesPerGrp.toNat)
  (hperLe : fs.inodesPerGrp.toNat ≤ 32768)

include hsizeDvd hperPos hperLe

theorem FsInfo.toNat_position (n : UInt32) : ((n - 1) % fs.inodesPerGrp * fs.inodeSize).toNat
    = (n - 1).toNat % fs.inodesPerGrp.toNat * fs.inodeSize.toNat := by
  have hsizeLe : fs.inodeSize.toNat ≤ 4096 := Nat.le_of_dvd (by decide) hsizeDvd
  have hlt := Nat.mod_lt (n - 1).toNat hperPos
  have hprod : (n - 1).toNat % fs.inodesPerGrp.toNat * fs.inodeSize.toNat ≤ 32768 * 4096 :=
    Nat.mul_le_mul (by omega) hsizeLe
  rw [UInt32.toNat_mul, UInt32.toNat_mod, Nat.mod_eq_of_lt (by omega)]

theorem FsInfo.slot_fits (n : UInt32) : (fs.inodeSlot n).2 + fs.inodeSize.toNat ≤ blockSize := by
  have hpos := FsInfo.toNat_position hsizeDvd hperPos hperLe n
  obtain ⟨cnt, hcnt⟩ := hsizeDvd
  have hcntPos : 0 < cnt := Nat.pos_of_ne_zero fun hzero => by simp [hzero] at hcnt
  -- a record starts at a multiple of the size, and a block is a whole number of sizes
  have hoff : (fs.inodeSlot n).2 = fs.inodeSize.toNat * ((n - 1).toNat % fs.inodesPerGrp.toNat % cnt) := by
    have hblockSize : (UInt32.ofNat blockSize).toNat = fs.inodeSize.toNat * cnt := hcnt
    simp only [FsInfo.inodeSlot]
    rw [UInt32.toNat_mod, hpos, hblockSize, Nat.mul_comm _ fs.inodeSize.toNat, Nat.mul_mod_mul_left]
  rw [hoff]
  calc _ = fs.inodeSize.toNat * ((n - 1).toNat % fs.inodesPerGrp.toNat % cnt + 1) := by ring
    _ ≤ fs.inodeSize.toNat * cnt := Nat.mul_le_mul_left _ (Nat.mod_lt _ hcntPos)
    _ = blockSize := hcnt.symm

include hsizeGe

theorem FsInfo.slots_disjoint (hm : fs.geo.Real .inode m) (hn : fs.geo.Real .inode n) (hne : m ≠ n)
    (hgroup : (m - 1) / fs.inodesPerGrp = (n - 1) / fs.inodesPerGrp)
    (hblock : (fs.inodeSlot m).1 = (fs.inodeSlot n).1) :
    (fs.inodeSlot m).2 + 128 ≤ (fs.inodeSlot n).2 ∨ (fs.inodeSlot n).2 + 128 ≤ (fs.inodeSlot m).2 := by
  have hpos := FsInfo.toNat_position hsizeDvd hperPos hperLe
  have hgroup' : (m - 1).toNat / fs.inodesPerGrp.toNat = (n - 1).toNat / fs.inodesPerGrp.toNat := by
    have := congrArg UInt32.toNat hgroup
    rwa [UInt32.toNat_div, UInt32.toNat_div] at this
  have hindex : (m - 1).toNat % fs.inodesPerGrp.toNat ≠ (n - 1).toNat % fs.inodesPerGrp.toNat := by
    intro heq
    apply hne
    apply hm.sub_one_inj hn
    rw [← Nat.div_add_mod (m - 1).toNat fs.inodesPerGrp.toNat, hgroup', heq, Nat.div_add_mod]
  simp only [FsInfo.inodeSlot] at hblock ⊢
  rw [hgroup, UInt32.add_right_inj] at hblock
  have hquot := congrArg UInt32.toNat hblock
  have hblockSize : (UInt32.ofNat blockSize).toNat = 4096 := rfl
  rw [UInt32.toNat_div, UInt32.toNat_div, hpos, hpos, hblockSize] at hquot
  rw [UInt32.toNat_mod, UInt32.toNat_mod, hpos, hpos, hblockSize]
  have hgap : ∀ i j : Nat, i < j → i * fs.inodeSize.toNat + 128 ≤ j * fs.inodeSize.toNat := by
    intro i j hij
    calc i * fs.inodeSize.toNat + 128 ≤ i * fs.inodeSize.toNat + fs.inodeSize.toNat := by omega
      _ = (i + 1) * fs.inodeSize.toNat := by ring
      _ ≤ j * fs.inodeSize.toNat := Nat.mul_le_mul_right _ hij
  obtain hlt | hgt := Nat.lt_or_gt_of_ne hindex
  · have := hgap _ _ hlt
    omega
  · have := hgap _ _ hgt
    omega

end Slots

theorem Layout.slot_inside (hlayout : Layout static fs) (hgeo : fs.geo.Valid) (n : UInt32) :
    (fs.inodeSlot n).2 + 128 ≤ blockSize := by
  have hsize := hlayout.inodeSize_ge
  have hfits := FsInfo.slot_fits hlayout.inodeSize_dvd (hgeo.perGrp_pos .inode) (hgeo.perGrp_le .inode) n
  omega

theorem Geo.Valid.described (hgeo : fs.geo.Valid) (hn : fs.geo.Real .inode n) : fs.Described n :=
  Nat.lt_of_lt_of_le (Geo.Real.group_lt hn hgeo.inodeCnt_eq.le) hgeo.ngroups_le

theorem Layout.slots_disjoint (hlayout : Layout static fs) (hgeo : fs.geo.Valid)
    (hm : fs.geo.Real .inode m) (hn : fs.geo.Real .inode n) (hne : m ≠ n)
    (hblock : (fs.inodeSlot m).1 = (fs.inodeSlot n).1) :
    (fs.inodeSlot m).2 + 128 ≤ (fs.inodeSlot n).2 ∨ (fs.inodeSlot n).2 + 128 ≤ (fs.inodeSlot m).2 :=
  FsInfo.slots_disjoint hlayout.inodeSize_ge hlayout.inodeSize_dvd (hgeo.perGrp_pos .inode) (hgeo.perGrp_le .inode) hm hn
    hne (hlayout.apart m n hm hn hblock) hblock

/-! ### Reading and writing a record -/

theorem not_real_iff : ¬ fs.geo.Real .inode n ↔ n = 0 ∨ fs.inodeCnt < n := by
  rw [Geo.Real, not_and_or, UInt32.not_lt, UInt32.le_zero_iff, UInt32.not_le]
  rfl

theorem real_iff : fs.geo.Real .inode n ↔ ¬ (n = 0 ∨ fs.inodeCnt < n) := by rw [← not_real_iff, not_not]

theorem readSlot_eq {buf : Buf} (hgroup : fs.Described n)
    (hinside : (fs.inodeSlot n).2 + 128 ≤ blockSize) (hread : readBlock (fs.inodeSlot n).1 fs = .ok (buf, fs)) :
    readSlot n fs = .ok (buf, fs) := by
  rw [readSlot, run_bind_ok (run_get fs), if_neg (Nat.not_le.mpr hgroup), run_bind_ok hread,
    if_neg (Nat.not_lt.mpr hinside), run_pure]

theorem readSlot_eq_ok {buf : Buf} (hrun : readSlot n fs = .ok (buf, fs')) :
    readBlock (fs.inodeSlot n).1 fs = .ok (buf, fs) ∧ fs' = fs := by
  rw [readSlot, run_bind_ok (run_get fs)] at hrun
  split at hrun
  · cases hrun
  obtain ⟨found, mid, hread, hrun⟩ := run_bind_eq_ok hrun
  obtain rfl := (readBlock_eq_ok hread).1
  split_ifs at hrun <;> cases hrun
  exact ⟨hread, rfl⟩

theorem getInode_eq_ok {result : Option Inode} (hrun : getInode n fs = .ok (result, fs')) :
    fs' = fs ∧ ∀ inode, result = some inode → fs.geo.Real .inode n := by
  rw [getInode, run_bind_ok (run_get fs)] at hrun
  split at hrun
  · cases hrun
  split at hrun
  · cases hrun
    exact ⟨rfl, fun _ h => by cases h⟩
  · next haccepted =>
    obtain ⟨buf, mid, hread, hlast⟩ := run_bind_eq_ok hrun
    cases hlast
    exact ⟨(readSlot_eq_ok hread).2, fun _ _ => real_iff.mpr haccepted⟩

theorem setInode_eq_ok {inode : Inode} {ok : Bool} (hrun : setInode n inode fs = .ok (ok, fs')) :
    ok = true ↔ fs.geo.Real .inode n := by
  rw [setInode, run_bind_ok (run_get fs)] at hrun
  split at hrun
  · cases hrun
  split at hrun
  · next hrejected =>
    cases hrun
    exact iff_of_false Bool.false_ne_true (not_real_iff.mpr hrejected)
  · next haccepted =>
    obtain ⟨buf, mid, -, hnext⟩ := run_bind_eq_ok hrun
    obtain ⟨_, last, -, hlast⟩ := run_bind_eq_ok hnext
    cases hlast
    exact iff_of_true rfl (real_iff.mpr haccepted)

section Records

variable (hmounted : Mounted static fs) (hlayout : Layout static fs)

include hmounted hlayout

theorem readBlock_slot (hn : fs.geo.Real .inode n) :
    readBlock (fs.inodeSlot n).1 fs = .ok (fs.data (fs.inodeSlot n).1, fs) := by
  rw [readBlock_run (hmounted.holds (hmounted.used _ (hlayout.static n hn))), FsInfo.data,
    hlayout.notBook n hn]
  rfl

theorem readSlot_run (hn : fs.geo.Real .inode n) : readSlot n fs = .ok (fs.data (fs.inodeSlot n).1, fs) := by
  have hgeo := hmounted.sound.geo
  exact readSlot_eq (hgeo.described hn) (hlayout.slot_inside hgeo n) (readBlock_slot hmounted hlayout hn)

theorem getInode_run (hn : fs.geo.Real .inode n) : getInode n fs = .ok (some (fs.record n), fs) := by
  rw [getInode, run_bind_ok (run_get fs), if_neg (perGrp_ne_zero hmounted.sound.geo).2, if_neg (real_iff.mp hn),
    run_bind_ok (readSlot_run hmounted hlayout hn)]
  rfl

omit hmounted hlayout in
theorem getInode_none (hper : fs.inodesPerGrp ≠ 0) (hn : ¬ fs.geo.Real .inode n) : getInode n fs = .ok (none, fs) := by
  rw [getInode, run_bind_ok (run_get fs), if_neg hper, if_pos (not_real_iff.mp hn)]
  rfl

structure Stored (static : UInt32 → Prop) (fs fs' : FsInfo) (n : UInt32) (inode : Inode) : Prop where
  frame : Frame static static fs fs'
  used : ∀ b, fs'.Used b ↔ fs.Used b
  data : ∀ b, ¬ static b → fs'.data b = fs.data b
  record : fs'.record n = inode
  others : ∀ m, fs.geo.Real .inode m → m ≠ n → fs'.record m = fs.record m

theorem setInode_spec (hn : fs.geo.Real .inode n) (inode : Inode) :
    Runs (setInode n inode) fs fun ok fs' => ok = true ∧ Stored static fs fs' n inode := by
  have hstatic := hlayout.static n hn
  rw [setInode]
  refine Runs.bind_eq (run_get fs) ?_
  rw [if_neg (perGrp_ne_zero hmounted.sound.geo).2, if_neg (real_iff.mp hn)]
  refine Runs.bind_eq (readSlot_run hmounted hlayout hn) ?_
  refine (hmounted.writeBlock_notBook (hmounted.used _ hstatic) (hlayout.notBook n hn) _).bind
    fun _ fs' hwrote => Runs.pure ⟨rfl, ?_⟩
  have hslot := FsInfo.inodeSlot_of_geo hwrote.frame.geo
  refine ⟨hwrote.frame.mono ?_, hwrote.used, ?_, ?_, ?_⟩
  · rintro b rfl
    exact hstatic
  · intro b hb
    rw [hwrote.data, Function.update_of_ne]
    rintro rfl
    exact hb hstatic
  · rw [FsInfo.record, hslot, hwrote.data, Function.update_self, Inode.load_store_self]
  · intro m hm hne
    rw [FsInfo.record, FsInfo.record, hslot, hwrote.data]
    by_cases hblock : (fs.inodeSlot m).1 = (fs.inodeSlot n).1
    · have hdisjoint := hlayout.slots_disjoint hmounted.sound.geo hm hn hne hblock
      rw [hblock, Function.update_self]
      apply Inode.load_congr
      intro k hlow hhigh
      exact Inode.store_apply_of_disjoint _ _ (by omega)
    · rw [Function.update_of_ne hblock]

end Records

/-! ### Inode marks and directory counters -/

structure Remarked (static : UInt32 → Prop) (fs fs' : FsInfo) (n : UInt32) (value : Bool) : Prop where
  mounted : Mounted static fs'
  geo : fs'.geo = fs.geo
  data : fs'.data = fs.data
  used : ∀ b, fs'.Used b ↔ fs.Used b
  dirCnt : fs'.dirCnt = fs.dirCnt
  inodes : fs'.marked .inode = Function.update (fs.marked .inode) n value

theorem Remarked.of_view {value : Bool} (hmounted : Mounted static fs) (hsound : fs'.Sound)
    (hview : fs'.view = fs.view.mark .inode n value) : Remarked static fs fs' n value := by
  have hgeo : fs'.geo = fs.geo := congrArg View.geo hview
  have hmarked : fs'.marked = (fs.view.mark .inode n value).marked := congrArg View.marked hview
  have hused : ∀ b, fs'.Used b ↔ fs.Used b := fun b => by
    rw [FsInfo.Used, hmarked]
    rfl
  refine ⟨hmounted.of_geo hsound hgeo fun b hb => (hused b).mpr (hmounted.used b hb), hgeo,
    congrArg View.data hview, hused, congrArg View.dirCnt hview, ?_⟩
  rw [hmarked]
  change Function.update fs.marked .inode (Function.update (fs.marked .inode) n value) .inode = _
  rw [Function.update_self]

theorem Mounted.allocInode_spec (hmounted : Mounted static fs) :
    Runs allocInode fs fun n fs' => (n = inodeError ∧ fs' = fs) ∨
      (n ≠ inodeError ∧ fs.geo.Real .inode n ∧ fs.marked .inode n = false ∧
        Remarked static fs fs' n true) := by
  refine (allocBit_spec hmounted.sound).mono fun n fs' hstep => ?_
  obtain ⟨hnone, hsame, -⟩ | ⟨hne, hreal, hfree, hsound, hview⟩ := hstep
  · exact Or.inl ⟨hnone, hsame⟩
  · exact Or.inr ⟨hne, hreal, hfree, Remarked.of_view hmounted hsound hview⟩

theorem Mounted.freeInode_spec (hmounted : Mounted static fs) (hn : n ≠ inodeError)
    (hreal : fs.geo.Real .inode n) :
    Runs (freeInode n) fs fun ok fs' => ok = true ∧ Remarked static fs fs' n false := by
  refine (DeprecatOS.freeInode_spec hmounted.sound hn).mono fun ok fs' hstep => ?_
  obtain ⟨-, hreject, -⟩ | ⟨hok, -, -, hsound, hview, -⟩ := hstep
  · exact absurd ⟨hreal, hn⟩ hreject
  · exact ⟨hok, Remarked.of_view hmounted hsound hview⟩

structure DirCounted (static : UInt32 → Prop) (fs fs' : FsInfo) (g : Nat) (cnt : UInt16) : Prop where
  mounted : Mounted static fs'
  geo : fs'.geo = fs.geo
  data : fs'.data = fs.data
  marked : fs'.marked = fs.marked
  dirCnt : fs'.dirCnt = Function.update fs.dirCnt g cnt

def FsInfo.countDir (fs : FsInfo) (g : Nat) (cnt : UInt16) : FsInfo :=
  { fs.setDirCnt g cnt with disk := Function.update fs.disk bgdtBlkN (fs.setDirCnt g cnt).bgdtBuf }

section CountDir

variable {g : Nat} {cnt : UInt16}

theorem geo_setDirCnt : (fs.setDirCnt g cnt).geo = fs.geo := by
  have haddr : (fs.setDirCnt g cnt).bitmapAddr = fs.bitmapAddr := by
    funext kind' g'
    apply load32_store16_of_disjoint
    cases kind' <;> simp only [Kind.addrOff] <;> omega
  have htable : (fs.setDirCnt g cnt).inodeTableStartAddr = fs.inodeTableStartAddr := by
    funext g'
    apply load32_store16_of_disjoint
    omega
  simp only [FsInfo.geo, haddr, htable]
  rfl

theorem geo_countDir : (fs.countDir g cnt).geo = fs.geo := by
  change (fs.setDirCnt g cnt).geo = fs.geo
  exact geo_setDirCnt

theorem unallocCnt_countDir (kind : Kind) (g' : Nat) :
    (fs.countDir g cnt).unallocCnt kind g' = fs.unallocCnt kind g' := by
  apply load16_store16_of_disjoint
  cases kind <;> simp only [Kind.cntOff] <;> omega

theorem bitmap_countDir (hgeo : fs.geo.Valid) (kind : Kind) {g' : Nat} (hg' : g' < fs.ngroups.toNat) :
    (fs.countDir g cnt).bitmap kind g' = fs.bitmap kind g' := by
  have haddr : (fs.countDir g cnt).bitmapAddr kind g' = fs.bitmapAddr kind g' :=
    congrArg (fun geo => geo.bitmapAddr kind g') geo_countDir
  rw [FsInfo.bitmap, FsInfo.bitmap, haddr]
  refine Function.update_of_ne (fun heq => ?_) _ _
  have hge := hgeo.bitmapAddr_ge kind g' hg'
  rw [show fs.geo.bitmapAddr = fs.bitmapAddr from rfl, heq] at hge
  exact absurd hge (by decide)

theorem agree_countDir (hsound : fs.Sound) : (fs.countDir g cnt).Agree := by
  obtain ⟨hgeo, hagree⟩ := hsound
  refine ⟨?_, ?_, ?_, ?_, ?_, ?_⟩
  · intro kind g' hg'
    rw [unallocCnt_countDir, bitmap_countDir hgeo kind hg', geo_countDir]
    exact hagree.cnt kind g' hg'
  · intro kind
    simp only [unallocCnt_countDir]
    exact hagree.total kind
  · intro k hk
    have hne : (0 : UInt32) ≠ bgdtBlkN := by decide
    have hzero : (fs.countDir g cnt).disk 0 = fs.disk 0 := by
      change Function.update fs.disk bgdtBlkN (fs.setDirCnt g cnt).bgdtBuf 0 = _
      rw [Function.update_of_ne hne]
    rw [hzero]
    exact hagree.superblk k hk
  · intro k _
    exact congrFun (Function.update_self bgdtBlkN (fs.setDirCnt g cnt).bgdtBuf fs.disk) k
  · intro kind hpos
    rw [bitmap_countDir hgeo kind hpos]
    exact hagree.first kind hpos
  · intro g' hg' i hi hpast
    rw [bitmap_countDir hgeo .block hg']
    have hcnt : (fs.countDir g cnt).blockCnt = fs.blockCnt := congrArg Geo.blockCnt geo_countDir
    rw [hcnt] at hpast
    exact hagree.padding g' hg' i hi hpast

theorem marked_countDir (hgeo : fs.geo.Valid) : (fs.countDir g cnt).marked = fs.marked := by
  funext kind n
  rw [FsInfo.marked, FsInfo.marked, geo_countDir]
  by_cases hreal : fs.geo.Real kind n
  · rw [bitmap_countDir hgeo kind (hgeo.group_lt hreal)]
  · rw [decide_eq_false hreal, Bool.false_and, Bool.false_and]

theorem data_countDir : (fs.countDir g cnt).data = fs.data := by
  funext b
  rw [FsInfo.data, FsInfo.data, geo_countDir]
  cases hbook : fs.geo.isBook b with
  | true => rfl
  | false =>
    refine Function.update_of_ne ?_ _ _
    rintro rfl
    simp [Geo.isBook] at hbook

theorem dirCnt_countDir : (fs.countDir g cnt).dirCnt = Function.update fs.dirCnt g cnt := by
  funext g'
  rw [Function.update_apply]
  change load16 (store16 fs.bgdtBuf (32 * g + 16) cnt) (32 * g' + 16) = _
  split_ifs with heq
  · rw [heq, load16_store16_self]
  · exact load16_store16_of_disjoint _ _ (by omega)

theorem Mounted.writeBgdt_spec (hmounted : Mounted static fs) :
    Runs writeBgdt (fs.setDirCnt g cnt) fun _ fs' => DirCounted static fs fs' g cnt := by
  have hone : fs.geo.Holds bgdtBlkN :=
    hmounted.holds (hmounted.used _ (hmounted.book _ (by simp [Geo.isBook])))
  have hmarked : (fs.countDir g cnt).marked = fs.marked := marked_countDir hmounted.sound.geo
  have hsound : (fs.countDir g cnt).Sound :=
    ⟨by rw [geo_countDir]; exact hmounted.sound.geo, agree_countDir hmounted.sound⟩
  refine Runs.of_eq (writeBgdt_run hone) ⟨?_, geo_countDir, data_countDir, hmarked, dirCnt_countDir⟩
  refine hmounted.of_geo hsound geo_countDir fun b hb => ?_
  change (fs.countDir g cnt).marked .block b = true
  rw [hmarked]
  exact hmounted.used b hb

end CountDir

end DeprecatOS
