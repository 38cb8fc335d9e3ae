import DeprecatOS.View
import Mathlib.Algebra.Order.BigOperators.Group.Finset

/-!
# The bitmap controller keeps bitmaps and counters in step

Taking and releasing a bit are the same change of state: one group's bitmap is replaced, its counter
and the superblock's total move with it, and the three are written back. `settle` is that change, and
the two facts about it, that it keeps the filesystem sound and that the view only sees the marks of one
group move, are all the allocators need.
-/

namespace DeprecatOS

open Bytes Bits Fault

/-! ### Numbers, groups and bits -/

namespace Geo.Valid

variable {geo : Geo} (hgeo : geo.Valid)

include hgeo

theorem blockCnt_le : geo.blockCnt.toNat ≤ geo.ngroups.toNat * geo.blksPerGrp.toNat := by
  have hpos := hgeo.perGrp_pos .block
  have hgroups := hgeo.ngroups_eq
  simp only [perGrp] at hpos
  have hmod := Nat.div_add_mod (geo.blockCnt.toNat + geo.blksPerGrp.toNat - 1) geo.blksPerGrp.toNat
  have hlt := Nat.mod_lt (geo.blockCnt.toNat + geo.blksPerGrp.toNat - 1) hpos
  rw [← hgroups, Nat.mul_comm] at hmod
  omega

theorem blockCnt_lt : geo.blockCnt.toNat ≤ 4194304 := by
  have hle := hgeo.perGrp_le .block
  simp only [perGrp] at hle
  calc geo.blockCnt.toNat ≤ geo.ngroups.toNat * geo.blksPerGrp.toNat := hgeo.blockCnt_le
    _ ≤ 128 * 32768 := Nat.mul_le_mul hgeo.ngroups_le hle
    _ = 4194304 := by norm_num

theorem inodeCnt_lt : geo.inodeCnt.toNat ≤ 4194304 := by
  have hle := hgeo.perGrp_le .inode
  simp only [perGrp] at hle
  rw [hgeo.inodeCnt_eq]
  calc geo.ngroups.toNat * geo.inodesPerGrp.toNat ≤ 128 * 32768 :=
        Nat.mul_le_mul hgeo.ngroups_le hle
    _ = 4194304 := by norm_num

theorem group_lt {kind : Kind} {n : UInt32} (hreal : geo.Real kind n) :
    position kind n / geo.perGrp kind < geo.ngroups.toNat := by
  rw [Nat.div_lt_iff_lt_mul (hgeo.perGrp_pos kind)]
  cases kind with
  | block =>
    have hle := hgeo.blockCnt_le
    simp only [Real, UInt32.lt_iff_toNat_lt, position, perGrp] at hreal ⊢
    omega
  | inode =>
    have heq := hgeo.inodeCnt_eq
    simp only [Real, UInt32.lt_iff_toNat_lt, UInt32.le_iff_toNat_le, UInt32.toNat_zero, position,
      perGrp] at hreal ⊢
    omega

end Geo.Valid

def Kind.base : Kind → Nat
  | .block => 0
  | .inode => 1

def Geo.number (geo : Geo) (kind : Kind) (g idx : Nat) : UInt32 :=
  UInt32.ofNat (g * geo.perGrp kind + idx + kind.base)

theorem Geo.number_bound {geo : Geo} {kind : Kind} {g idx : Nat} (hg : g < geo.ngroups.toNat)
    (hidx : idx < geo.perGrp kind) : g * geo.perGrp kind + idx < geo.ngroups.toNat * geo.perGrp kind := by
  calc g * geo.perGrp kind + idx < g * geo.perGrp kind + geo.perGrp kind := by omega
    _ = (g + 1) * geo.perGrp kind := by ring
    _ ≤ geo.ngroups.toNat * geo.perGrp kind := Nat.mul_le_mul_right _ hg

namespace Geo.Valid

variable {geo : Geo} (hgeo : geo.Valid)

include hgeo

omit hgeo in
theorem number_position {kind : Kind} {n : UInt32} (hreal : geo.Real kind n) :
    geo.number kind (position kind n / geo.perGrp kind) (position kind n % geo.perGrp kind) = n := by
  apply UInt32.toNat_inj.mp
  have hlt := n.toNat_lt
  rw [number, Nat.div_add_mod', UInt32.toNat_ofNat']
  cases kind with
  | block =>
    simp only [position, Kind.base]
    omega
  | inode =>
    simp only [Real, UInt32.lt_iff_toNat_lt, UInt32.toNat_zero] at hreal
    simp only [position, Kind.base]
    omega

theorem position_number {kind : Kind} {g idx : Nat} (hg : g < geo.ngroups.toNat)
    (hidx : idx < geo.perGrp kind) :
    position kind (geo.number kind g idx) = g * geo.perGrp kind + idx := by
  have hlt := number_bound hg hidx
  have hle : geo.ngroups.toNat * geo.perGrp kind ≤ 128 * 32768 :=
    Nat.mul_le_mul hgeo.ngroups_le (hgeo.perGrp_le kind)
  have htoNat : (geo.number kind g idx).toNat = g * geo.perGrp kind + idx + kind.base := by
    rw [number, UInt32.toNat_ofNat', Nat.mod_eq_of_lt]
    cases kind <;> simp only [Kind.base] <;> omega
  cases kind <;> simp only [position, htoNat, Kind.base] <;> omega

theorem group_number {kind : Kind} {g idx : Nat} (hg : g < geo.ngroups.toNat)
    (hidx : idx < geo.perGrp kind) :
    position kind (geo.number kind g idx) / geo.perGrp kind = g ∧
      position kind (geo.number kind g idx) % geo.perGrp kind = idx := by
  rw [hgeo.position_number hg hidx, Nat.mul_comm]
  exact ⟨by rw [Nat.mul_add_div (hgeo.perGrp_pos kind), Nat.div_eq_of_lt hidx, Nat.add_zero],
    by rw [Nat.mul_add_mod, Nat.mod_eq_of_lt hidx]⟩

end Geo.Valid

/-! ### Reading and writing blocks of the filesystem -/

section Blocks

variable {fs : FsInfo} {b : UInt32}

theorem lba_eq (hb : fs.geo.Holds b) : (b * sectorsPerBlk).toNat = 8 * b.toNat := by
  have hlt := hb.1
  have height : sectorsPerBlk.toNat = 8 := rfl
  rw [UInt32.toNat_mul, height]
  omega

theorem lba_block (hb : fs.geo.Holds b) : b * sectorsPerBlk / sectorsPerBlk = b := by
  apply UInt32.toNat_inj.mp
  have height : sectorsPerBlk.toNat = 8 := rfl
  rw [UInt32.toNat_div, lba_eq hb, height]
  omega

theorem lba_bound (hb : fs.geo.Holds b) : ¬ fs.sectorCount < (b * sectorsPerBlk).toNat + 8 := by
  rw [lba_eq hb]
  exact not_lt.mpr hb.2

theorem readBlock_run (hb : fs.geo.Holds b) : readBlock b fs = .ok (fs.disk b, fs) := by
  rw [readBlock, run_bind_ok (run_get fs), if_neg (lba_bound hb), lba_block hb, run_pure]

def wrapped (b : UInt32) : UInt32 := b * sectorsPerBlk / sectorsPerBlk

theorem readBlock_eq_ok {buf : Buf} {fs' : FsInfo} (hrun : readBlock b fs = .ok (buf, fs')) :
    fs' = fs ∧ buf = fs.disk (wrapped b) := by
  rw [readBlock, run_bind_ok (run_get fs)] at hrun
  split at hrun
  · cases hrun
  · cases hrun
    exact ⟨rfl, rfl⟩

theorem writeBlock_run (hb : fs.geo.Holds b) (buf : Buf) :
    writeBlock b buf fs = .ok (⟨⟩, { fs with disk := Function.update fs.disk b buf }) := by
  rw [writeBlock, run_bind_ok (run_get fs), if_neg (lba_bound hb), lba_block hb, run_set]

theorem writeBgdt_run (hone : fs.geo.Holds bgdtBlkN) :
    writeBgdt fs = .ok (⟨⟩, { fs with disk := Function.update fs.disk bgdtBlkN fs.bgdtBuf }) := by
  rw [writeBgdt, run_bind_ok (run_get _), writeBlock_run hone]

theorem writeSuperblk_run (hfour : ¬ fs.sectorCount < 4) :
    writeSuperblk fs = .ok (⟨⟩, { fs with disk := Function.update fs.disk 0 fun k =>
      if 1024 ≤ k ∧ k < 2048 then fs.sprblkBuf (k - 1024) else fs.disk 0 k }) := by
  rw [writeSuperblk, run_bind_ok (run_get _), if_neg hfour, run_set]

end Blocks

/-! ### One change of a bitmap -/

def FsInfo.settle (fs : FsInfo) (kind : Kind) (g : Nat) (bitmap : Buf) (cnt : UInt16)
    (total : UInt32) : FsInfo :=
  let bumped := fs.bumpCounts kind g cnt total
  let described := Function.update fs.disk bgdtBlkN bumped.bgdtBuf
  let counted := Function.update described 0 fun k =>
    if 1024 ≤ k ∧ k < 2048 then bumped.sprblkBuf (k - 1024) else described 0 k
  { bumped with disk := Function.update counted (bumped.bitmapAddr kind g) bitmap }

section Settle

variable {fs : FsInfo} {kind : Kind} {g : Nat} {bitmap : Buf} {cnt : UInt16} {total : UInt32}

theorem geo_bumpCounts : (fs.bumpCounts kind g cnt total).geo = fs.geo := by
  have haddr : (fs.bumpCounts kind g cnt total).bitmapAddr = fs.bitmapAddr := by
    funext kind' g'
    apply load32_store16_of_disjoint
    cases kind <;> cases kind' <;> simp only [Kind.addrOff, Kind.cntOff] <;> omega
  have htable : (fs.bumpCounts kind g cnt total).inodeTableStartAddr = fs.inodeTableStartAddr := by
    funext g'
    apply load32_store16_of_disjoint
    cases kind <;> simp only [Kind.cntOff] <;> omega
  have hsuper : ∀ off, off + 4 ≤ 12 ∨ 20 ≤ off →
      load32 (fs.bumpCounts kind g cnt total).sprblkBuf off = load32 fs.sprblkBuf off := by
    intro off hoff
    apply load32_store32_of_disjoint
    cases kind <;> simp only [Kind.totalOff] <;> omega
  simp only [FsInfo.geo, haddr, htable, FsInfo.inodeCnt, FsInfo.blockCnt, FsInfo.superBlockNum,
    hsuper 0 (by omega), hsuper 4 (by omega), hsuper 20 (by omega)]
  rfl

theorem geo_settle : (fs.settle kind g bitmap cnt total).geo = fs.geo := by
  have hgeo : (fs.bumpCounts kind g cnt total).geo = fs.geo := geo_bumpCounts
  rw [← hgeo]
  rfl

theorem writeBack_run (hgeo : fs.geo.Valid) (hg : g < fs.ngroups.toNat) :
    writeBack kind g bitmap (fs.bumpCounts kind g cnt total)
      = .ok (⟨⟩, fs.settle kind g bitmap cnt total) := by
  have haddr : (fs.bumpCounts kind g cnt total).bitmapAddr kind g = fs.bitmapAddr kind g :=
    congrArg (fun geo => geo.bitmapAddr kind g) geo_bumpCounts
  have hholds := hgeo.bitmapAddr_holds kind g hg
  have hge := hgeo.bitmapAddr_ge kind g hg
  have hsectors : 24 ≤ fs.sectorCount := by
    have hle : 8 * _ + 8 ≤ fs.sectorCount := hholds.2
    omega
  have hone : (fs.bumpCounts kind g cnt total).geo.Holds bgdtBlkN := by
    refine ⟨by decide, ?_⟩
    change 8 * 1 + 8 ≤ fs.sectorCount
    omega
  rw [writeBack, run_bind_ok (writeBgdt_run hone), run_bind_ok (writeSuperblk_run ?_),
    run_bind_ok (run_get _), writeBlock_run]
  · rfl
  · change fs.geo.Holds ((fs.bumpCounts kind g cnt total).bitmapAddr kind g)
    rw [haddr]
    exact hholds
  · change ¬ fs.sectorCount < 4
    omega

theorem disk_settle (b : UInt32) :
    (fs.settle kind g bitmap cnt total).disk b
      = if b = fs.bitmapAddr kind g then bitmap
        else if b = 0 then fun k =>
          if 1024 ≤ k ∧ k < 2048 then (fs.settle kind g bitmap cnt total).sprblkBuf (k - 1024)
          else fs.disk 0 k
        else if b = bgdtBlkN then (fs.settle kind g bitmap cnt total).bgdtBuf
        else fs.disk b := by
  have haddr : (fs.bumpCounts kind g cnt total).bitmapAddr kind g = fs.bitmapAddr kind g :=
    congrArg (fun geo => geo.bitmapAddr kind g) geo_bumpCounts
  have hzero : (0 : UInt32) ≠ bgdtBlkN := by decide
  simp only [FsInfo.settle, haddr, Function.update_apply, if_neg hzero]

theorem unallocCnt_settle (kind' : Kind) (g' : Nat) :
    (fs.settle kind g bitmap cnt total).unallocCnt kind' g'
      = if kind' = kind ∧ g' = g then cnt else fs.unallocCnt kind' g' := by
  change load16 (store16 fs.bgdtBuf (32 * g + kind.cntOff) cnt) (32 * g' + kind'.cntOff) = _
  split_ifs with hsame
  · rw [hsame.1, hsame.2, load16_store16_self]
  · apply load16_store16_of_disjoint
    cases kind <;> cases kind' <;> simp only [Kind.cntOff] at hsame ⊢ <;> simp at hsame <;> omega

theorem unallocTotal_settle (kind' : Kind) :
    (fs.settle kind g bitmap cnt total).unallocTotal kind'
      = if kind' = kind then total else fs.unallocTotal kind' := by
  change load32 (store32 fs.sprblkBuf kind.totalOff total) kind'.totalOff = _
  cases kind <;> cases kind' <;> first
    | exact load32_store32_self _ _ _
    | exact load32_store32_of_disjoint _ _ (by simp [Kind.totalOff])

theorem dirCnt_settle : (fs.settle kind g bitmap cnt total).dirCnt = fs.dirCnt := by
  funext g'
  apply load16_store16_of_disjoint
  cases kind <;> simp only [Kind.cntOff] <;> omega

theorem bitmap_settle (hgeo : fs.geo.Valid) (hg : g < fs.ngroups.toNat) {kind' : Kind} {g' : Nat}
    (hg' : g' < fs.ngroups.toNat) :
    (fs.settle kind g bitmap cnt total).bitmap kind' g'
      = if kind' = kind ∧ g' = g then bitmap else fs.bitmap kind' g' := by
  have haddr : (fs.settle kind g bitmap cnt total).bitmapAddr kind' g' = fs.bitmapAddr kind' g' :=
    congrArg (fun geo => geo.bitmapAddr kind' g') geo_settle
  have hge := hgeo.bitmapAddr_ge kind' g' hg'
  have hzero : fs.bitmapAddr kind' g' ≠ 0 := fun heq => by
    rw [show fs.geo.bitmapAddr = fs.bitmapAddr from rfl, heq] at hge
    exact absurd hge (by decide)
  have hone : fs.bitmapAddr kind' g' ≠ bgdtBlkN := fun heq => by
    rw [show fs.geo.bitmapAddr = fs.bitmapAddr from rfl, heq] at hge
    exact absurd hge (by decide)
  rw [FsInfo.bitmap, FsInfo.bitmap, haddr, disk_settle, if_neg hzero, if_neg hone]
  refine if_congr ?_ rfl rfl
  constructor
  · exact hgeo.bitmapAddr_inj kind' kind g' hg' g hg
  · rintro ⟨rfl, rfl⟩
    rfl

theorem data_settle (hg : g < fs.ngroups.toNat) :
    (fs.settle kind g bitmap cnt total).data = fs.data := by
  funext b
  rw [FsInfo.data, FsInfo.data, geo_settle]
  cases hbook : fs.geo.isBook b with
  | true => rfl
  | false =>
    simp only [Geo.isBook, Bool.or_eq_false_iff, decide_eq_false_iff_not, List.any_eq_false,
      List.mem_range, Bool.or_eq_true, decide_eq_true_eq, not_or] at hbook
    obtain ⟨⟨hzero, hone⟩, hbitmaps⟩ := hbook
    have haddr : b ≠ fs.bitmapAddr kind g := by
      rintro rfl
      cases kind with
      | block => exact (hbitmaps g hg).1 rfl
      | inode => exact (hbitmaps g hg).2 rfl
    simp only [Bool.false_eq_true, if_false]
    rw [disk_settle, if_neg haddr, if_neg hzero, if_neg hone]

structure Counted (fs : FsInfo) (kind : Kind) (g : Nat) (bitmap : Buf) (cnt : UInt16)
    (total : UInt32) : Prop where
  cnt_eq : cnt.toNat = clearBits bitmap (fs.geo.countBits kind)
  total_eq : total.toNat + (fs.unallocCnt kind g).toNat = (fs.unallocTotal kind).toNat + cnt.toNat
  first : g = 0 → bit bitmap 0 = true
  padding : kind = .block → ∀ i < 8 * blockSize,
    fs.blksPerGrp.toNat ≤ i ∨ fs.blockCnt.toNat ≤ g * fs.blksPerGrp.toNat + i → bit bitmap i = true

theorem sum_unallocCnt_settle (hg : g < fs.ngroups.toNat) :
    (∑ g' ∈ Finset.range fs.ngroups.toNat,
        ((fs.settle kind g bitmap cnt total).unallocCnt kind g').toNat)
        + (fs.unallocCnt kind g).toNat
      = (∑ g' ∈ Finset.range fs.ngroups.toNat, (fs.unallocCnt kind g').toNat) + cnt.toNat := by
  have hmem : g ∈ Finset.range fs.ngroups.toNat := Finset.mem_range.mpr hg
  have hrest : ∑ g' ∈ (Finset.range fs.ngroups.toNat).erase g,
        ((fs.settle kind g bitmap cnt total).unallocCnt kind g').toNat
      = ∑ g' ∈ (Finset.range fs.ngroups.toNat).erase g, (fs.unallocCnt kind g').toNat := by
    apply Finset.sum_congr rfl
    intro g' hg'
    rw [unallocCnt_settle, if_neg fun h => (Finset.mem_erase.mp hg').1 h.2]
  rw [← Finset.sum_erase_add _ _ hmem, ← Finset.sum_erase_add _ _ hmem, hrest, unallocCnt_settle,
    if_pos ⟨rfl, rfl⟩]
  omega

theorem agree_settle (hsound : fs.Sound) (hg : g < fs.ngroups.toNat)
    (hcounted : Counted fs kind g bitmap cnt total) :
    (fs.settle kind g bitmap cnt total).Agree := by
  obtain ⟨hgeo, hagree⟩ := hsound
  have haddr := hgeo.bitmapAddr_ge kind g hg
  have hbook : ∀ b : UInt32, b.toNat < 2 → b ≠ fs.bitmapAddr kind g := by
    rintro b hb rfl
    exact absurd haddr (not_le.mpr hb)
  refine ⟨?_, ?_, ?_, ?_, ?_, ?_⟩
  · intro kind' g' hg'
    rw [unallocCnt_settle, bitmap_settle hgeo hg hg', geo_settle]
    split_ifs with hsame
    · rw [hsame.1]
      exact hcounted.cnt_eq
    · exact hagree.cnt kind' g' hg'
  · intro kind'
    change _ = ∑ g' ∈ Finset.range fs.ngroups.toNat, _
    have htotal := hagree.total kind'
    rw [unallocTotal_settle]
    split_ifs with hsame
    · subst hsame
      have hsum := @sum_unallocCnt_settle fs kind' g bitmap cnt total hg
      have htotalEq := hcounted.total_eq
      omega
    · rw [htotal]
      apply Finset.sum_congr rfl
      intro g' _
      rw [unallocCnt_settle, if_neg fun h => hsame h.1]
  · intro k hk
    rw [disk_settle, if_neg (hbook 0 (by decide)), if_pos rfl, if_pos (by omega),
      Nat.add_sub_cancel_left]
  · intro k _
    rw [disk_settle, if_neg (hbook bgdtBlkN (by decide)), if_neg (by decide), if_pos rfl]
  · intro kind' hpos
    rw [bitmap_settle hgeo hg hpos]
    split_ifs with hsame
    · exact hcounted.first hsame.2.symm
    · exact hagree.first kind' hpos
  · intro g' hg' i hi hpast
    have hcnt : (fs.settle kind g bitmap cnt total).blockCnt = fs.blockCnt :=
      congrArg Geo.blockCnt geo_settle
    rw [hcnt] at hpast
    rw [bitmap_settle hgeo hg hg']
    split_ifs with hsame
    · rw [hsame.2] at hpast
      exact hcounted.padding hsame.1.symm i hi hpast
    · exact hagree.padding g' hg' i hi hpast

theorem marked_settle (hgeo : fs.geo.Valid) (hg : g < fs.ngroups.toNat) {kind' : Kind} {n : UInt32}
    (hreal : fs.geo.Real kind' n) :
    (fs.settle kind g bitmap cnt total).marked kind' n
      = if kind' = kind ∧ Geo.position kind' n / fs.geo.perGrp kind' = g then
          bit bitmap (Geo.position kind' n % fs.geo.perGrp kind')
        else fs.marked kind' n := by
  rw [FsInfo.marked, FsInfo.marked, geo_settle, decide_eq_true hreal, Bool.true_and, Bool.true_and,
    bitmap_settle hgeo hg (hgeo.group_lt hreal)]
  split <;> rfl

theorem view_settle (hgeo : fs.geo.Valid) (hg : g < fs.ngroups.toNat) {idx : Nat} {value : Bool}
    (hidx : idx < fs.geo.perGrp kind) (hreal : fs.geo.Real kind (fs.geo.number kind g idx))
    (hbits : ∀ i, bit bitmap i = if i = idx then value else bit (fs.bitmap kind g) i) :
    (fs.settle kind g bitmap cnt total).view = fs.view.mark kind (fs.geo.number kind g idx) value := by
  have hmarked : ∀ kind' n, (fs.settle kind g bitmap cnt total).marked kind' n
      = Function.update fs.marked kind
        (Function.update (fs.marked kind) (fs.geo.number kind g idx) value) kind' n := by
    intro kind' n
    by_cases hrealN : fs.geo.Real kind' n
    · rw [marked_settle hgeo hg hrealN]
      by_cases hkind : kind' = kind
      · subst hkind
        rw [Function.update_self, Function.update_apply]
        by_cases hn : n = fs.geo.number kind' g idx
        · obtain ⟨hgroup, hbit⟩ := hgeo.group_number hg hidx
          rw [if_pos hn, hn, if_pos ⟨rfl, hgroup⟩, hbit, hbits, if_pos rfl]
        · rw [if_neg hn]
          split_ifs with hgroup
          · have hne : Geo.position kind' n % fs.geo.perGrp kind' ≠ idx := by
              rintro rfl
              rw [← hgroup.2] at hn
              exact hn (Geo.Valid.number_position hrealN).symm
            rw [hbits, if_neg hne, FsInfo.marked, decide_eq_true hrealN, Bool.true_and, hgroup.2]
          · rfl
      · rw [if_neg fun h => hkind h.1, Function.update_of_ne hkind]
    · have hfalse : ∀ fs' : FsInfo, fs'.geo = fs.geo → fs'.marked kind' n = false := by
        intro fs' heq
        rw [FsInfo.marked, heq, decide_eq_false hrealN, Bool.false_and]
      rw [hfalse _ geo_settle]
      by_cases hkind : kind' = kind
      · subst hkind
        have hn : n ≠ fs.geo.number kind' g idx := by
          rintro rfl
          exact hrealN hreal
        rw [Function.update_self, Function.update_of_ne hn, hfalse fs rfl]
      · rw [Function.update_of_ne hkind, hfalse fs rfl]
  simp only [FsInfo.view, View.mark, geo_settle, data_settle hg, dirCnt_settle, View.mk.injEq,
    true_and, and_true]
  funext kind' n
  exact hmarked kind' n

end Settle

/-! ### What a call has done when it returns -/

section Returned

variable {fs fs' : FsInfo} {kind : Kind}

/-- Either no counter says that a bit is clear and nothing has changed, or the first clear bit of the first group
whose counter says so is set. -/
theorem allocBit_eq_ok {n : UInt32} (hrun : allocBit kind fs = .ok (n, fs')) :
    (firstGroup (fs.unallocCnt kind) fs.ngroups.toNat 0 = none ∧ n = kind.errorN ∧ fs' = fs) ∨
      ∃ g bitmap idx, firstGroup (fs.unallocCnt kind) fs.ngroups.toNat 0 = some g ∧
        readBlock (fs.bitmapAddr kind g) fs = .ok (bitmap, fs) ∧
        firstClear bitmap (fs.scanBits kind) 0 = some idx ∧
        writeBack kind g (setBit bitmap idx)
          (fs.bumpCounts kind g (fs.unallocCnt kind g - 1) (fs.unallocTotal kind - 1)) = .ok (⟨⟩, fs') ∧
        n = UInt32.ofNat g * fs.perGrp kind + UInt32.ofNat idx + fs.firstN kind := by
  rw [allocBit, run_bind_ok (run_get fs)] at hrun
  cases hgroup : firstGroup (fs.unallocCnt kind) fs.ngroups.toNat 0 with
  | none =>
    rw [hgroup] at hrun
    dsimp only at hrun
    split_ifs at hrun <;> cases hrun
    exact .inl ⟨rfl, rfl, rfl⟩
  | some g =>
    rw [hgroup] at hrun
    dsimp only at hrun
    split at hrun
    · cases hrun
    obtain ⟨bitmap, mid, hread, hrun⟩ := run_bind_eq_ok hrun
    obtain rfl := (readBlock_eq_ok hread).1
    cases hclear : firstClear bitmap (mid.scanBits kind) 0 with
    | none =>
      rw [hclear] at hrun
      dsimp only at hrun
      split_ifs at hrun <;> cases hrun
    | some idx =>
      rw [hclear] at hrun
      dsimp only at hrun
      split_ifs at hrun
      · cases hrun
      rw [run_bind_ok (run_set _ _)] at hrun
      obtain ⟨u, last, hback, hrun⟩ := run_bind_eq_ok hrun
      cases hrun
      exact .inr ⟨g, bitmap, idx, rfl, hread, hclear, hback, rfl⟩

theorem releaseBit_eq_ok {g idx : Nat} {u : Unit} (hrun : releaseBit kind g idx fs = .ok (u, fs')) :
    ∃ bitmap, readBlock (fs.bitmapAddr kind g) fs = .ok (bitmap, fs) ∧
      ((bit bitmap idx = true ∧ writeBack kind g (clearBit bitmap idx)
          (fs.bumpCounts kind g (fs.unallocCnt kind g + 1) (fs.unallocTotal kind + 1)) = .ok (u, fs')) ∨
        (bit bitmap idx = false ∧ fs' = fs)) := by
  rw [releaseBit, run_bind_ok (run_get fs)] at hrun
  split at hrun
  · cases hrun
  obtain ⟨bitmap, mid, hread, hrun⟩ := run_bind_eq_ok hrun
  obtain rfl := (readBlock_eq_ok hread).1
  refine ⟨bitmap, hread, ?_⟩
  split_ifs at hrun with hidx hbit
  · cases hrun
  · rw [run_bind_ok (run_set _ _)] at hrun
    exact .inl ⟨hbit, hrun⟩
  · cases hrun
    exact .inr ⟨Bool.eq_false_iff.mpr hbit, rfl⟩

theorem freeBlock_eq_ok {b : UInt32} {ok : Bool} (hrun : freeBlock b fs = .ok (ok, fs')) :
    (ok = false ∧ fs' = fs) ∨ (ok = true ∧ (b - fs.superBlockNum) / fs.blksPerGrp < fs.ngroups ∧
      releaseBit .block ((b - fs.superBlockNum) / fs.blksPerGrp).toNat
        ((b - fs.superBlockNum) % fs.blksPerGrp).toNat fs = .ok (⟨⟩, fs')) := by
  rw [freeBlock] at hrun
  split at hrun
  · cases hrun
    exact .inl ⟨rfl, rfl⟩
  rw [run_bind_ok (run_get fs)] at hrun
  split at hrun
  · cases hrun
  dsimp only at hrun
  split_ifs at hrun with hreject
  · cases hrun
    exact .inl ⟨rfl, rfl⟩
  · obtain ⟨u, mid, hrelease, hrun⟩ := run_bind_eq_ok hrun
    cases hrun
    exact .inr ⟨rfl, UInt32.not_le.mp (not_or.mp hreject).1, hrelease⟩

end Returned

/-! ### The allocators -/

theorem firstGroup_eq_some {cnt : Nat → UInt16} {fuel g found : Nat}
    (hfind : firstGroup cnt fuel g = some found) :
    g ≤ found ∧ found < g + fuel ∧ 0 < cnt found := by
  induction fuel generalizing g with
  | zero => simp [firstGroup] at hfind
  | succ fuel ih =>
    rw [firstGroup] at hfind
    split_ifs at hfind with hpos
    · cases hfind
      exact ⟨le_rfl, by omega, hpos⟩
    · obtain ⟨hlow, hhigh, hcnt⟩ := ih hfind
      exact ⟨by omega, by omega, hcnt⟩

theorem firstGroup_eq_none {cnt : Nat → UInt16} {fuel g : Nat} (hfind : firstGroup cnt fuel g = none)
    {g' : Nat} (hlow : g ≤ g') (hhigh : g' < g + fuel) : cnt g' = 0 := by
  induction fuel generalizing g with
  | zero => omega
  | succ fuel ih =>
    rw [firstGroup] at hfind
    split_ifs at hfind with hpos
    by_cases heq : g' = g
    · subst heq
      simpa using hpos
    · exact ih hfind (by omega) (by omega)

section Allocators

variable {fs : FsInfo} {kind : Kind}

theorem scanBits_eq (hgeo : fs.geo.Valid) : fs.scanBits kind = fs.geo.countBits kind := by
  cases kind with
  | block => rfl
  | inode => exact Nat.mul_div_cancel' hgeo.inodesPerGrp_dvd

theorem alloc_number_eq (hgeo : fs.geo.Valid) (g idx : Nat) :
    UInt32.ofNat g * fs.perGrp kind + UInt32.ofNat idx + fs.firstN kind
      = fs.geo.number kind g idx := by
  have hsuper : fs.superBlockNum = 0 := hgeo.superBlockNum_eq
  rw [Geo.number, UInt32.ofNat_add, UInt32.ofNat_add, UInt32.ofNat_mul]
  cases kind with
  | block => simp [FsInfo.perGrp, FsInfo.firstN, hsuper, Geo.perGrp, FsInfo.geo, Kind.base]
  | inode => simp [FsInfo.perGrp, FsInfo.firstN, firstInodeN, Geo.perGrp, FsInfo.geo, Kind.base]

theorem real_of_clear (hsound : fs.Sound) {g idx : Nat} (hg : g < fs.ngroups.toNat)
    (hidx : idx < fs.geo.countBits kind) (hclear : bit (fs.bitmap kind g) idx = false) :
    idx < fs.geo.perGrp kind ∧ fs.geo.Real kind (fs.geo.number kind g idx) := by
  obtain ⟨hgeo, hagree⟩ := hsound
  cases kind with
  | block =>
    have hreal : ¬ (fs.blksPerGrp.toNat ≤ idx ∨
        fs.blockCnt.toNat ≤ g * fs.blksPerGrp.toNat + idx) := fun hpast => by
      rw [hagree.padding g hg idx hidx hpast] at hclear
      exact Bool.noConfusion hclear
    have hper : idx < fs.geo.perGrp .block := by
      simp only [Geo.perGrp, FsInfo.geo]
      omega
    have hposition := hgeo.position_number hg hper
    simp only [Geo.position, Geo.perGrp, FsInfo.geo] at hposition
    refine ⟨hper, ?_⟩
    simp only [Geo.Real, FsInfo.geo, UInt32.lt_iff_toNat_lt]
    omega
  | inode =>
    have hper : idx < fs.geo.perGrp .inode := hidx
    have hcnt := hgeo.inodeCnt_eq
    have hle := hgeo.inodeCnt_lt
    have hbound := Geo.number_bound hg hper
    simp only [Geo.perGrp] at hbound
    have htoNat : (fs.geo.number .inode g idx).toNat = g * fs.geo.inodesPerGrp.toNat + idx + 1 := by
      simp only [Geo.number, Kind.base, Geo.perGrp]
      rw [UInt32.toNat_ofNat']
      apply Nat.mod_eq_of_lt
      change _ < 4294967296
      change g * _ + idx < fs.geo.ngroups.toNat * _ at hbound
      omega
    refine ⟨hper, ?_⟩
    simp only [Geo.Real, UInt32.lt_iff_toNat_lt, UInt32.le_iff_toNat_le, UInt32.toNat_zero]
    change g * _ + idx < fs.geo.ngroups.toNat * _ at hbound
    omega

theorem unallocCnt_le_total (hagree : fs.Agree) (kind : Kind) {g : Nat} (hg : g < fs.ngroups.toNat) :
    (fs.unallocCnt kind g).toNat ≤ (fs.unallocTotal kind).toNat := by
  rw [hagree.total kind]
  exact Finset.single_le_sum (f := fun g => (fs.unallocCnt kind g).toNat) (fun _ _ => Nat.zero_le _)
    (Finset.mem_range.mpr hg)

theorem counted_setBit (hsound : fs.Sound) {g idx : Nat} (hg : g < fs.ngroups.toNat)
    (hidx : idx < fs.geo.countBits kind) (hclear : bit (fs.bitmap kind g) idx = false) :
    Counted fs kind g (setBit (fs.bitmap kind g) idx) (fs.unallocCnt kind g - 1)
      (fs.unallocTotal kind - 1) := by
  have hcnt := hsound.agree.cnt kind g hg
  have hbits := clearBits_setBit hidx hclear
  have htotal := unallocCnt_le_total hsound.agree kind hg
  have hcntSub : (fs.unallocCnt kind g - 1).toNat = (fs.unallocCnt kind g).toNat - 1 :=
    UInt16.toNat_sub_of_le _ _ (by rw [UInt16.le_iff_toNat_le, UInt16.toNat_one]; omega)
  have htotalSub : (fs.unallocTotal kind - 1).toNat = (fs.unallocTotal kind).toNat - 1 :=
    UInt32.toNat_sub_of_le _ _ (by rw [UInt32.le_iff_toNat_le, UInt32.toNat_one]; omega)
  refine ⟨by omega, by omega, ?_, ?_⟩
  · rintro rfl
    rw [bit_setBit, hsound.agree.first kind hg, ite_self]
  · rintro rfl i hi hpast
    rw [bit_setBit, hsound.agree.padding g hg i hi hpast, ite_self]

theorem number_ne_errorN (hsound : fs.Sound) {g idx : Nat} (hg : g < fs.ngroups.toNat)
    (hidx : idx < fs.geo.perGrp kind) (hclear : bit (fs.bitmap kind g) idx = false) :
    fs.geo.number kind g idx ≠ kind.errorN := by
  intro heq
  have hposition := hsound.geo.position_number hg hidx
  have hzero : Geo.position kind (fs.geo.number kind g idx) = 0 := by
    rw [heq]
    cases kind <;> rfl
  have hpos := hsound.geo.perGrp_pos kind
  have hg0 : g = 0 := by
    by_contra hne
    have := Nat.mul_pos (Nat.pos_of_ne_zero hne) hpos
    omega
  have hidx0 : idx = 0 := by omega
  rw [hg0, hidx0, hsound.agree.first kind (hg0 ▸ hg)] at hclear
  exact Bool.noConfusion hclear

theorem bit_lt_countBits (hgeo : fs.geo.Valid) (kind : Kind) (n : UInt32) :
    Geo.position kind n % fs.geo.perGrp kind < fs.geo.countBits kind := by
  have hlt := Nat.mod_lt (Geo.position kind n) (hgeo.perGrp_pos kind)
  have hle := hgeo.perGrp_le kind
  cases kind with
  | block =>
    simp only [Geo.countBits, blockSize]
    omega
  | inode => exact hlt

theorem marked_of_cnt_zero (hsound : fs.Sound)
    (hnone : ∀ g < fs.ngroups.toNat, fs.unallocCnt kind g = 0) {n : UInt32}
    (hreal : fs.geo.Real kind n) : fs.marked kind n = true := by
  have hg := hsound.geo.group_lt hreal
  have hcnt := hsound.agree.cnt kind _ hg
  rw [hnone _ hg] at hcnt
  rw [FsInfo.marked, decide_eq_true hreal, Bool.true_and]
  by_contra hclear
  have hpos := (clearBits_pos_iff _ _).mpr ⟨_, bit_lt_countBits hsound.geo kind n, Bool.eq_false_iff.mpr hclear⟩
  rw [← hcnt] at hpos
  exact absurd hpos (by decide)

theorem mem_number_of_clear (hsound : fs.Sound) {g idx : Nat} (hg : g < fs.ngroups.toNat)
    (hidx : idx < fs.geo.countBits kind) (hclear : bit (fs.bitmap kind g) idx = false) :
    fs.marked kind (fs.geo.number kind g idx) = false := by
  obtain ⟨hper, hreal⟩ := real_of_clear hsound hg hidx hclear
  obtain ⟨hgroup, hbit⟩ := hsound.geo.group_number hg hper
  rw [FsInfo.marked, hgroup, hbit, hclear, Bool.and_false]

def Allocated (fs : FsInfo) (kind : Kind) (n : UInt32) (fs' : FsInfo) : Prop :=
  (n = kind.errorN ∧ fs' = fs ∧ ∀ m, fs.geo.Real kind m → fs.marked kind m = true) ∨
  (n ≠ kind.errorN ∧ fs.geo.Real kind n ∧ fs.marked kind n = false ∧ fs'.Sound ∧
    fs'.view = fs.view.mark kind n true)

theorem countBits_le (hgeo : fs.geo.Valid) (kind : Kind) : fs.geo.countBits kind ≤ 32768 := by
  cases kind with
  | block => exact le_rfl
  | inode => exact hgeo.perGrp_le .inode

theorem not_bitmap_le (hgeo : fs.geo.Valid) {idx : Nat} (hidx : idx < fs.geo.countBits kind) : ¬ 8 * blockSize ≤ idx :=
  Nat.not_le.mpr (hidx.trans_le (countBits_le hgeo kind))

theorem not_bgdtLen_le (hgeo : fs.geo.Valid) {g : Nat} (hg : g < fs.ngroups.toNat) : ¬ bgdtLen ≤ g := by
  have hle : fs.ngroups.toNat ≤ 128 := hgeo.ngroups_le
  rw [bgdtLen]
  omega

theorem perGrp_ne_zero (hgeo : fs.geo.Valid) : fs.blksPerGrp ≠ 0 ∧ fs.inodesPerGrp ≠ 0 :=
  ⟨fun hzero => (hgeo.perGrp_pos .block).ne' (congrArg UInt32.toNat hzero),
    fun hzero => (hgeo.perGrp_pos .inode).ne' (congrArg UInt32.toNat hzero)⟩

theorem allocBit_spec (hsound : fs.Sound) : Runs (allocBit kind) fs (Allocated fs kind) := by
  rw [allocBit]
  refine Runs.bind_eq (run_get fs) ?_
  cases hgroup : firstGroup (fs.unallocCnt kind) fs.ngroups.toNat 0 with
  | none =>
    dsimp only
    rw [if_neg (show ¬ bgdtLen < fs.ngroups.toNat from Nat.not_lt.mpr hsound.geo.ngroups_le)]
    refine Runs.pure (Or.inl ⟨rfl, rfl, fun m hreal => ?_⟩)
    exact marked_of_cnt_zero hsound
      (fun g hg => firstGroup_eq_none hgroup (Nat.zero_le g) (by omega)) hreal
  | some g =>
    obtain ⟨-, hg, hpos⟩ := firstGroup_eq_some hgroup
    rw [Nat.zero_add] at hg
    have hcnt := hsound.agree.cnt kind g hg
    rw [UInt16.lt_iff_toNat_lt, hcnt, UInt16.toNat_zero] at hpos
    obtain ⟨i, hi, hclear⟩ := (clearBits_pos_iff _ _).mp hpos
    dsimp only
    rw [if_neg (not_bgdtLen_le hsound.geo hg)]
    refine Runs.bind_eq (readBlock_run (hsound.geo.bitmapAddr_holds kind g hg)) ?_
    rw [scanBits_eq hsound.geo]
    obtain ⟨idx, hfind⟩ := firstClear_isSome (Nat.zero_le i)
      (by omega : i < 0 + fs.geo.countBits kind) hclear
    obtain ⟨-, hidx, hclearIdx⟩ := firstClear_eq_some hfind
    rw [Nat.zero_add] at hidx
    change firstClear (fs.disk (fs.bitmapAddr kind g)) _ 0 = some idx at hfind
    rw [hfind]
    dsimp only
    rw [if_neg (not_bitmap_le hsound.geo hidx)]
    refine Runs.bind_eq (run_set _ _) (Runs.bind_eq (writeBack_run hsound.geo hg) (Runs.pure ?_))
    obtain ⟨hper, hreal⟩ := real_of_clear hsound hg hidx hclearIdx
    rw [alloc_number_eq hsound.geo]
    refine Or.inr ⟨number_ne_errorN hsound hg hper hclearIdx, hreal,
      mem_number_of_clear hsound hg hidx hclearIdx, ⟨?_, ?_⟩, ?_⟩
    · rw [geo_settle]
      exact hsound.geo
    · exact agree_settle hsound hg (counted_setBit hsound hg hidx hclearIdx)
    · exact view_settle hsound.geo hg hper hreal (bit_setBit _ _)

theorem unallocTotal_le (hsound : fs.Sound) (kind : Kind) : (fs.unallocTotal kind).toNat ≤ 4194304 := by
  rw [hsound.agree.total kind]
  calc ∑ g ∈ Finset.range fs.ngroups.toNat, (fs.unallocCnt kind g).toNat
      ≤ ∑ _g ∈ Finset.range fs.ngroups.toNat, 32768 := by
        apply Finset.sum_le_sum
        intro g hg
        rw [hsound.agree.cnt kind g (Finset.mem_range.mp hg)]
        exact (clearBits_le _ _).trans (countBits_le hsound.geo kind)
    _ = fs.ngroups.toNat * 32768 := by simp
    _ ≤ 4194304 := by
        have hle : fs.ngroups.toNat ≤ 128 := hsound.geo.ngroups_le
        omega

section Release

variable {n : UInt32} (hsound : fs.Sound) (hreal : fs.geo.Real kind n)

include hsound hreal

theorem counted_clearBit (hn : n ≠ kind.errorN) (hset : fs.marked kind n = true) :
    Counted fs kind (Geo.position kind n / fs.geo.perGrp kind)
      (clearBit (fs.bitmap kind (Geo.position kind n / fs.geo.perGrp kind))
        (Geo.position kind n % fs.geo.perGrp kind))
      (fs.unallocCnt kind (Geo.position kind n / fs.geo.perGrp kind) + 1)
      (fs.unallocTotal kind + 1) := by
  have hg := hsound.geo.group_lt hreal
  have hidx := bit_lt_countBits hsound.geo kind n
  rw [FsInfo.marked, decide_eq_true hreal, Bool.true_and] at hset
  have hcnt := hsound.agree.cnt kind _ hg
  have hbits := clearBits_clearBit hidx hset
  have hle := clearBits_le (clearBit (fs.bitmap kind (Geo.position kind n / fs.geo.perGrp kind))
        (Geo.position kind n % fs.geo.perGrp kind)) (fs.geo.countBits kind)
  have hcount := countBits_le hsound.geo kind
  have htotal := unallocTotal_le hsound kind
  refine ⟨?_, ?_, ?_, ?_⟩
  · rw [UInt16.toNat_add, UInt16.toNat_one]
    omega
  · rw [UInt16.toNat_add, UInt16.toNat_one, UInt32.toNat_add, UInt32.toNat_one]
    omega
  · intro hg0
    have hne : 0 ≠ Geo.position kind n % fs.geo.perGrp kind := by
      intro hidx0
      apply hn
      rw [← Geo.Valid.number_position hreal, hg0, ← hidx0]
      cases kind <;> simp [Geo.number, Kind.base, Kind.errorN, blockError, inodeError]
    rw [bit_clearBit, if_neg hne, hg0, hsound.agree.first kind (hg0 ▸ hg)]
  · rintro rfl i hi hpast
    have hne : i ≠ Geo.position .block n % fs.geo.perGrp .block := by
      rintro rfl
      have hdiv := Nat.div_add_mod' (Geo.position .block n) (fs.geo.perGrp .block)
      have hlt := Nat.mod_lt (Geo.position .block n) (hsound.geo.perGrp_pos .block)
      simp only [Geo.Real, UInt32.lt_iff_toNat_lt, Geo.position, Geo.perGrp, FsInfo.geo]
        at hreal hpast hdiv hlt
      omega
    rw [bit_clearBit, if_neg hne, hsound.agree.padding _ hg i hi hpast]

theorem releaseBit_spec (hn : n ≠ kind.errorN) :
    Runs (releaseBit kind (Geo.position kind n / fs.geo.perGrp kind)
        (Geo.position kind n % fs.geo.perGrp kind)) fs fun _ fs' =>
      fs'.Sound ∧ fs'.view = fs.view.mark kind n false ∧ (fs.marked kind n = false → fs' = fs) := by
  have hg := hsound.geo.group_lt hreal
  have hbit : bit (fs.disk (fs.bitmapAddr kind (Geo.position kind n / fs.geo.perGrp kind)))
      (Geo.position kind n % fs.geo.perGrp kind) = fs.marked kind n := by
    rw [FsInfo.marked, decide_eq_true hreal, Bool.true_and]
    rfl
  rw [releaseBit]
  refine Runs.bind_eq (run_get fs) ?_
  rw [if_neg (not_bgdtLen_le hsound.geo hg)]
  refine Runs.bind_eq (readBlock_run (hsound.geo.bitmapAddr_holds kind _ hg)) ?_
  rw [if_neg (not_bitmap_le hsound.geo (bit_lt_countBits hsound.geo kind n)), hbit]
  cases hset : fs.marked kind n with
  | false =>
    refine Runs.pure ⟨hsound, ?_, fun _ => rfl⟩
    have hsame : Function.update (fs.marked kind) n false = fs.marked kind := by
      rw [← hset, Function.update_eq_self]
    simp only [View.mark, FsInfo.view, hsame, Function.update_eq_self]
  | true =>
    refine Runs.bind_eq (run_set _ _) (Runs.of_eq (writeBack_run hsound.geo hg) ⟨⟨?_, ?_⟩, ?_, ?_⟩)
    · rw [geo_settle]
      exact hsound.geo
    · exact agree_settle hsound hg (counted_clearBit hsound hreal hn hset)
    · have hnumber := Geo.Valid.number_position hreal
      refine (view_settle hsound.geo hg (Nat.mod_lt _ (hsound.geo.perGrp_pos kind))
        (hnumber.symm ▸ hreal) (bit_clearBit _ _)).trans ?_
      rw [hnumber]
    · intro hfalse
      cases hfalse

end Release

/-- What releasing `n` may do: unmark it when it exists and is not the reserved number, and nothing
otherwise or when it was not marked. -/
def Released (fs : FsInfo) (kind : Kind) (n : UInt32) (ok : Bool) (fs' : FsInfo) : Prop :=
  (ok = false ∧ ¬ (fs.geo.Real kind n ∧ n ≠ kind.errorN) ∧ fs' = fs) ∨
  (ok = true ∧ fs.geo.Real kind n ∧ n ≠ kind.errorN ∧ fs'.Sound ∧
    fs'.view = fs.view.mark kind n false ∧ (fs.marked kind n = false → fs' = fs))

theorem freeBlock_spec (hsound : fs.Sound) (n : UInt32) :
    Runs (freeBlock n) fs (Released fs .block n) := by
  have hsuper : fs.superBlockNum = 0 := hsound.geo.superBlockNum_eq
  rw [freeBlock]
  split_ifs with hzero
  · exact Runs.pure (Or.inl ⟨rfl, fun h => h.2 hzero, rfl⟩)
  refine Runs.bind_eq (run_get fs) ?_
  rw [if_neg (perGrp_ne_zero hsound.geo).1]
  simp only [hsuper, UInt32.sub_zero]
  split_ifs with hreject
  · refine Runs.pure (Or.inl ⟨rfl, fun h => ?_, rfl⟩)
    have hgroup := hsound.geo.group_lt h.1
    rcases hreject with hgroups | hcnt
    · rw [UInt32.le_iff_toNat_le, UInt32.toNat_div] at hgroups
      exact absurd hgroup (not_lt.mpr hgroups)
    · exact absurd h.1 (UInt32.not_lt.mpr hcnt)
  · rw [not_or] at hreject
    have hreal : fs.geo.Real .block n := UInt32.not_le.mp hreject.2
    rw [UInt32.toNat_div, UInt32.toNat_mod]
    refine Runs.bind (releaseBit_spec hsound hreal hzero) fun _ fs' hreleased => Runs.pure ?_
    exact Or.inr ⟨rfl, hreal, hzero, hreleased⟩

theorem toNat_sub_firstInodeN {n : UInt32} (hpos : 0 < n) :
    (n - firstInodeN).toNat = n.toNat - 1 := by
  rw [UInt32.lt_iff_toNat_lt, UInt32.toNat_zero] at hpos
  exact UInt32.toNat_sub_of_le _ _ (UInt32.le_iff_toNat_le.mpr hpos)

theorem inode_guard_iff (hgeo : fs.geo.Valid) (n : UInt32) :
    (fs.ngroups ≤ (n - firstInodeN) / fs.inodesPerGrp ∨ fs.inodeCnt < n)
      ↔ ¬ fs.geo.Real .inode n := by
  have hpos := hgeo.perGrp_pos .inode
  have hper := hgeo.perGrp_le .inode
  have hgroups := hgeo.ngroups_le
  simp only [Geo.perGrp, FsInfo.geo] at hpos hper hgroups
  constructor
  · rintro hreject hreal
    have hgroup := hgeo.group_lt hreal
    rcases hreject with hle | hlt
    · rw [UInt32.le_iff_toNat_le, UInt32.toNat_div, toNat_sub_firstInodeN hreal.1] at hle
      exact absurd hgroup (not_lt.mpr hle)
    · exact absurd hreal.2 (UInt32.not_le.mpr hlt)
  · intro hreal
    by_cases hlt : fs.inodeCnt < n
    · exact Or.inr hlt
    -- Inode 0 wraps to the last bit of a group far past the last one.
    have hzero : n = 0 := by
      by_contra hne
      exact hreal ⟨UInt32.pos_iff_ne_zero.mpr hne, UInt32.not_lt.mp hlt⟩
    subst hzero
    left
    rw [UInt32.le_iff_toNat_le, UInt32.toNat_div, Nat.le_div_iff_mul_le hpos]
    calc fs.ngroups.toNat * fs.inodesPerGrp.toNat ≤ 128 * 32768 := Nat.mul_le_mul hgroups hper
      _ ≤ ((0 : UInt32) - firstInodeN).toNat := by decide

theorem freeInode_spec (hsound : fs.Sound) {n : UInt32} (hn : n ≠ inodeError) :
    Runs (freeInode n) fs (Released fs .inode n) := by
  rw [freeInode]
  refine Runs.bind_eq (run_get fs) ?_
  rw [if_neg (perGrp_ne_zero hsound.geo).2]
  simp only [inode_guard_iff hsound.geo]
  split_ifs with hreal
  · rw [UInt32.toNat_div, UInt32.toNat_mod, toNat_sub_firstInodeN hreal.1]
    refine Runs.bind (releaseBit_spec hsound hreal hn) fun _ fs' hreleased => Runs.pure ?_
    exact Or.inr ⟨rfl, hreal, hn, hreleased⟩
  · exact Runs.pure (Or.inl ⟨rfl, fun h => hreal h.1, rfl⟩)

end Allocators

end DeprecatOS
