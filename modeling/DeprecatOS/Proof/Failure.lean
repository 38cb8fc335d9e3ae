import DeprecatOS.DirectoryController
import DeprecatOS.Proof.Bookkeeping
import DeprecatOS.Proof.Change
import DeprecatOS.Proof.Geometry

/-!
# Allocations that fail

A call to `map_file_block` that finds no free block gives back what it took, whatever the pointers of the inode point
to: blocks of another file, free blocks, or the bookkeeping itself. The one pointer block that was there before and was
written to gets its old contents back, so nothing in use has changed.
-/

namespace DeprecatOS

open Bytes Bits Fault PointerTree

variable {static : UInt32 → Prop} {fs fs₁ fs' fs'' : FsInfo} {b : UInt32}

structure Idle (static : UInt32 → Prop) (fs fs' : FsInfo) : Prop where
  frame : Frame static (fun _ => False) fs fs'
  used : ∀ q, fs'.Used q ↔ fs.Used q

namespace Idle

theorem refl (hmounted : Mounted static fs) : Idle static fs fs := ⟨Frame.refl hmounted, fun _ => Iff.rfl⟩

theorem change (hidle : Idle static fs' fs'') {n : UInt32} {old new : List UInt32} (hlayout : Layout static fs)
    (hchange : Change static fs fs' n old new) : Change static fs fs'' n old new where
  mounted := hidle.frame.mounted
  geo := hidle.frame.geo.trans hchange.geo
  inodes m hm := by rw [hidle.frame.inodes, hchange.inodes m hm]
  others m hm hne := by
    rw [← hchange.others m hm hne]
    refine Change.record_eq (hlayout.of_geo hchange.geo) hidle.frame.geo (fun b hb => ?_) (by rwa [hchange.geo])
    exact hidle.frame.data b (hchange.mounted.used b hb) not_false
  used q := (hidle.used q).trans (hchange.used q)
  fresh := hchange.fresh
  data q hq hstatic hold := by
    rw [hidle.frame.data q ((hchange.used q).mpr (.inl ⟨hq, hold⟩)) not_false, hchange.data q hq hstatic hold]

end Idle

/-! ### Blocks by any number -/

theorem writeBlock_eq_ok {buf : Buf} {u : Unit} (hrun : writeBlock b buf fs = .ok (u, fs')) :
    fs' = fs.put (wrapped b) buf := by
  rw [writeBlock, run_bind_ok (run_get fs)] at hrun
  split at hrun
  · cases hrun
  · cases hrun
    rfl

theorem FsInfo.put_put (fs : FsInfo) (b : UInt32) (buf buf' : Buf) : (fs.put b buf).put b buf' = fs.put b buf' := by
  rw [FsInfo.put, FsInfo.put, FsInfo.put]
  simp only [Function.update_idem]

theorem FsInfo.put_self (fs : FsInfo) (b : UInt32) : fs.put b (fs.disk b) = fs := by
  rw [FsInfo.put, Function.update_eq_self]

/-! ### The allocator in any state -/

theorem allocBlock_eq_zero (hgeo : fs.geo.Valid) (hfirst : bit (fs.bitmap .block 0) 0 = true)
    (hrun : allocBlock fs = .ok (0, fs')) : fs' = fs ∧ ∀ g < fs.ngroups.toNat, fs.unallocCnt .block g = 0 := by
  obtain ⟨hgroup, -, rfl⟩ | ⟨g, bitmap, idx, hgroup, hread, hclear, -, hnumber⟩ := allocBit_eq_ok hrun
  · exact ⟨rfl, fun g hg => firstGroup_eq_none hgroup (Nat.zero_le g) (by omega)⟩
  · obtain ⟨-, hg, -⟩ := firstGroup_eq_some hgroup
    rw [Nat.zero_add] at hg
    have hbitmap : readBlock (fs.bitmapAddr .block g) fs = .ok (fs.bitmap .block g, fs) :=
      readBlock_run (hgeo.bitmapAddr_holds .block g hg)
    rw [hbitmap] at hread
    cases hread
    obtain ⟨-, hidx, hbit⟩ := firstClear_eq_some hclear
    rw [alloc_number_eq hgeo] at hnumber
    -- only bit 0 of group 0 has the number 0
    have hgroups : fs.ngroups.toNat ≤ 128 := hgeo.ngroups_le
    have hper := hgeo.perGrp_le .block
    have hpos := hgeo.perGrp_pos .block
    have hbound : g * fs.geo.perGrp .block ≤ 128 * 32768 := Nat.mul_le_mul (by omega) hper
    have hlt : idx < 32768 := by
      rw [Nat.zero_add] at hidx
      exact hidx
    have hzero := congrArg UInt32.toNat hnumber.symm
    rw [Geo.number, UInt32.toNat_ofNat', Nat.mod_eq_of_lt (by simp only [Kind.base]; omega)] at hzero
    change g * fs.geo.perGrp .block + idx + 0 = 0 at hzero
    obtain ⟨rfl, rfl⟩ : g = 0 ∧ idx = 0 := by
      refine ⟨?_, by omega⟩
      by_contra hne
      have := Nat.mul_le_mul (Nat.pos_of_ne_zero hne) hpos
      omega
    rw [hbit] at hfirst
    cases hfirst

theorem put_settle_put {t : UInt32} {buf bitmap e : Buf} {kind : Kind} {g : Nat} {cnt : UInt16} {total : UInt32} :
    ((fs.put t buf).settle kind g bitmap cnt total).put t e = (fs.settle kind g bitmap cnt total).put t e := by
  have hdisk : Function.update ((fs.put t buf).settle kind g bitmap cnt total).disk t e =
      Function.update (fs.settle kind g bitmap cnt total).disk t e := by
    funext q
    rw [Function.update_apply, Function.update_apply]
    split_ifs with heq
    · rfl
    · have hsame : (fs.put t buf).disk q = fs.disk q := Function.update_of_ne heq _ _
      rw [disk_settle, disk_settle, hsame]
      by_cases hzero : q = 0
      · rw [hzero] at hsame
        simp only [hsame]
        rfl
      · simp only [if_neg hzero]
        rfl
  exact congrArg (fun disk => { fs.settle kind g bitmap cnt total with disk := disk }) hdisk

section Overwritten

variable (hgeo : fs.geo.Valid) {t : UInt32} {buf : Buf} (ht : ∀ g < fs.ngroups.toNat, fs.bitmapAddr .block g ≠ t)

include hgeo ht

theorem releaseBit_put {g idx : Nat} (hg : g < fs.ngroups.toNat) {u : Unit}
    (hrun : releaseBit .block g idx (fs.put t buf) = .ok (u, fs₁)) :
    ∃ fs₂, releaseBit .block g idx fs = .ok (u, fs₂) ∧ ∀ e, fs₁.put t e = fs₂.put t e := by
  have hread : readBlock (fs.bitmapAddr .block g) fs = .ok (fs.bitmap .block g, fs) :=
    readBlock_run (hgeo.bitmapAddr_holds .block g hg)
  have hbitmap : (fs.put t buf).disk (fs.bitmapAddr .block g) = fs.bitmap .block g :=
    Function.update_of_ne (ht g hg) _ _
  have hread' : readBlock ((fs.put t buf).bitmapAddr .block g) (fs.put t buf) =
      .ok (fs.bitmap .block g, fs.put t buf) := by
    rw [← hbitmap]
    exact readBlock_run (hgeo.bitmapAddr_holds .block g hg)
  have hgroup : ¬ bgdtLen ≤ g := not_bgdtLen_le hgeo hg
  rw [releaseBit, run_bind_ok (run_get _), if_neg hgroup, run_bind_ok hread'] at hrun
  rw [releaseBit, run_bind_ok (run_get _), if_neg hgroup, run_bind_ok hread]
  split_ifs at hrun ⊢
  · cases hrun
  · rw [run_bind_ok (run_set _ _), writeBack_run (show (fs.put t buf).geo.Valid from hgeo) hg] at hrun
    cases hrun
    rw [run_bind_ok (run_set _ _), writeBack_run hgeo hg]
    exact ⟨_, rfl, fun e => put_settle_put⟩
  · cases hrun
    exact ⟨fs, rfl, fun e => FsInfo.put_put fs t buf e⟩

theorem freeBlock_put {ok : Bool} (hrun : freeBlock b (fs.put t buf) = .ok (ok, fs₁)) :
    ∃ fs₂, freeBlock b fs = .ok (ok, fs₂) ∧ ∀ e, fs₁.put t e = fs₂.put t e := by
  rw [freeBlock] at hrun ⊢
  split_ifs at hrun ⊢ with hzero
  · cases hrun
    exact ⟨fs, rfl, fun e => FsInfo.put_put fs t buf e⟩
  rw [run_bind_ok (run_get _)] at hrun ⊢
  rw [if_neg (show ¬ (fs.put t buf).blksPerGrp = 0 from (perGrp_ne_zero hgeo).1)] at hrun
  rw [if_neg (perGrp_ne_zero hgeo).1]
  split_ifs at hrun with hreject
  · cases hrun
    refine ⟨fs, ?_, fun e => FsInfo.put_put fs t buf e⟩
    exact congrFun (if_pos (show fs.ngroups ≤ (b - fs.superBlockNum) / fs.blksPerGrp ∨ _ from hreject)) fs
  · rw [if_neg (show ¬ (fs.ngroups ≤ (b - fs.superBlockNum) / fs.blksPerGrp ∨ fs.blockCnt ≤ b) from hreject)]
    obtain ⟨u, mid, hrelease, hlast⟩ := run_bind_eq_ok hrun
    cases hlast
    obtain ⟨fs₂, hfirst, hsame⟩ := releaseBit_put hgeo ht
      (UInt32.lt_iff_toNat_lt.mp (UInt32.not_le.mp (not_or.mp hreject).1)) hrelease
    exact ⟨fs₂, run_bind_ok hfirst, hsame⟩

end Overwritten

/-! ### Putting a block back -/

structure Rewritten (fs : FsInfo) (t : UInt32) (buf : Buf) : Prop where
  sound : (fs.put t buf).Sound
  view : (fs.put t buf).view = fs.view

theorem put_rewritten (hsound : fs.Sound) {t : UInt32} (ht : fs.geo.isBook t = true) {buf : Buf}
    (hsame : ∀ k < blockSize, buf k = fs.disk t k) : Rewritten fs t buf := by
  have hbyte : ∀ q, ∀ k < blockSize, (fs.put t buf).disk q k = fs.disk q k := by
    intro q k hk
    rw [FsInfo.disk_put]
    split_ifs with heq
    · rw [hsame k hk, heq]
    · rfl
  have hbit : ∀ kind g, ∀ i < 8 * blockSize, bit ((fs.put t buf).bitmap kind g) i = bit (fs.bitmap kind g) i := by
    intro kind g i hi
    rw [bit, bit, FsInfo.bitmap, hbyte _ _ (Nat.div_lt_of_lt_mul hi)]
    rfl
  have hcount : ∀ kind, fs.geo.countBits kind ≤ 8 * blockSize := countBits_le hsound.geo
  have hmarked : (fs.put t buf).marked = fs.marked := by
    funext kind n
    rw [FsInfo.marked, FsInfo.marked]
    refine congrArg _ (hbit kind _ _ (lt_of_lt_of_le (Nat.mod_lt _ (hsound.geo.perGrp_pos kind)) ?_))
    exact hsound.geo.perGrp_le kind
  have hdata : (fs.put t buf).data = fs.data := by
    funext q
    rw [FsInfo.data, FsInfo.data]
    change (if fs.geo.isBook q = true then _ else Function.update fs.disk t buf q) = _
    split_ifs with hq
    · rfl
    · rw [Function.update_of_ne]
      rintro rfl
      exact hq ht
  refine ⟨⟨hsound.geo, fun kind g hg => ?_, hsound.agree.total, fun k hk => ?_, fun k hk => ?_, fun kind hpos => ?_,
    fun g hg i hi hpad => ?_⟩, ?_⟩
  · refine (hsound.agree.cnt kind g hg).trans (clearBits_congr fun i hi => (hbit kind g i ?_).symm)
    exact lt_of_lt_of_le hi (hcount kind)
  · rw [hbyte _ _ (by rw [blockSize]; omega)]
    exact hsound.agree.superblk k hk
  · rw [hbyte _ _ hk]
    exact hsound.agree.bgdt k hk
  · rw [hbit _ _ _ (by decide)]
    exact hsound.agree.first kind hpos
  · rw [hbit _ _ _ hi]
    exact hsound.agree.padding g hg i hi hpad
  · simp only [FsInfo.view, hmarked, hdata]
    rfl

namespace Idle

variable (hmounted : Mounted static fs) (hidle : Idle static fs fs') {t : UInt32}

include hidle

theorem put_free (ht : fs.geo.isBook t = false) (hfree : ¬ fs.Used t) (buf : Buf) :
    Idle static fs (fs'.put t buf) := by
  have hwrote := hidle.frame.mounted.put_wrote (b := t) (by rw [hidle.frame.geo, ht]) buf
  refine ⟨hidle.frame.trans hwrote.frame ?_, fun q => (hwrote.used q).trans (hidle.used q)⟩
  rintro q hq rfl
  exact hfree hq

include hmounted

theorem put_book (ht : fs.geo.isBook t = true) : Idle static fs (fs'.put t (fs.disk t)) := by
  have hgeo := hidle.frame.geo
  have hsame : Rewritten fs' t (fs.disk t) := by
    refine put_rewritten hidle.frame.mounted.sound (by rw [hgeo, ht]) fun k hk => ?_
    exact (book_disk_eq hmounted.sound hidle.frame.mounted.sound hgeo hidle.frame.book
      (hidle.frame.marked_eq hidle.used) ht hk).symm
  have hused : ∀ q, (fs'.put t (fs.disk t)).Used q ↔ fs'.Used q := fun q => by
    rw [FsInfo.used_of_view, hsame.view]
    rfl
  have hback : ∀ q, fs'.disk q = fs.disk q → (fs'.put t (fs.disk t)).disk q = fs.disk q := by
    intro q hq
    rw [FsInfo.disk_put]
    split_ifs with heq
    · rw [heq]
    · exact hq
  refine ⟨⟨?_, hgeo, ?_, hidle.frame.dirCnt, ⟨hidle.frame.book.sprblk, hidle.frame.book.bgdt, fun k hk => ?_,
    fun g hg => ?_⟩, fun q hq _ => ?_, fun q hq _ => ?_⟩, fun q => (hused q).trans (hidle.used q)⟩
  · exact hidle.frame.mounted.of_geo hsame.sound rfl fun q hq => (hused q).mpr (hidle.frame.mounted.used q hq)
  · exact (congrArg (fun view => view.marked .inode) hsame.view).trans hidle.frame.inodes
  · rw [FsInfo.disk_put]
    split_ifs with heq
    · rw [heq]
    · exact hidle.frame.book.first k hk
  · have haddr : fs'.bitmapAddr = fs.bitmapAddr := congrArg Geo.bitmapAddr hgeo
    have hinodes := hidle.frame.book.inodes g hg
    rw [FsInfo.bitmap, FsInfo.bitmap, haddr] at hinodes
    rw [FsInfo.bitmap, FsInfo.bitmap, ← hback _ hinodes, ← haddr]
    rfl
  · exact (hused q).mpr ((hidle.used q).mpr hq)
  · exact (congrFun (congrArg View.data hsame.view) q).trans (hidle.frame.data q hq not_false)

end Idle

/-! ### The walk -/

theorem number_ne (hgeo : fs.geo.Valid) {kind : Kind} {g i j : Nat} (hg : g < fs.ngroups.toNat)
    (hi : i < fs.geo.perGrp kind) (hj : j < fs.geo.perGrp kind) (hne : i ≠ j) :
    fs.geo.number kind g i ≠ fs.geo.number kind g j := by
  intro heq
  have hposition := congrArg (Geo.position kind) heq
  rw [hgeo.position_number hg hi, hgeo.position_number hg hj] at hposition
  omega

theorem Took.bitmap_ne (hmounted : Mounted static fs) {c : UInt32} (htook : Took static fs fs₁ c)
    (hfull : ∀ g < fs.ngroups.toNat, fs₁.unallocCnt .block g = 0) {g : Nat} (hg : g < fs.ngroups.toNat) {k : Nat}
    (hk : k < ptrsPerBlk) : ptr (fs.bitmap .block g) k ≠ 0 := by
  intro hzero
  have hsound := hmounted.sound
  have hgroups : fs₁.ngroups = fs.ngroups := congrArg Geo.ngroups htook.frame.geo
  have hclear : ∀ j < 8, bit (fs.bitmap .block g) (32 * k + j) = false := by
    intro j hj
    have hbyte : fs.bitmap .block g (4 * k + 0) = zero (4 * k + 0) :=
      byte_eq_of_load32 (hzero.trans (load32_zero _).symm) (by omega)
    rw [bit, show (32 * k + j) / 8 = 4 * k + 0 by omega, hbyte]
    simp [zero]
  have hused : ∀ j < 8, fs.geo.number .block g (32 * k + j) = c := by
    intro j hj
    have hlt : 32 * k + j < fs.geo.countBits .block := by
      change _ < 8 * blockSize
      rw [ptrsPerBlk] at hk
      rw [blockSize]
      omega
    have hreal := (real_of_clear hsound hg hlt (hclear j hj)).2
    have hmarked : fs₁.Used (fs.geo.number .block g (32 * k + j)) :=
      marked_of_cnt_zero htook.frame.mounted.sound (by rwa [hgroups]) (by rwa [htook.frame.geo])
    refine ((htook.used _).mp hmarked).resolve_left fun hold => ?_
    rw [FsInfo.Used, mem_number_of_clear hsound hg hlt (hclear j hj)] at hold
    cases hold
  have hper : ∀ j < 8, 32 * k + j < fs.geo.perGrp .block := by
    intro j hj
    refine (real_of_clear hsound hg ?_ (hclear j hj)).1
    change _ < 8 * blockSize
    rw [ptrsPerBlk] at hk
    rw [blockSize]
    omega
  refine number_ne hsound.geo hg (hper 0 (by omega)) (hper 1 (by omega)) (by omega) ?_
  rw [hused 0 (by omega), hused 1 (by omega)]

section Cases

variable {p : UInt32} {k idx : Nat} {cnt : Option UInt32}

theorem dataBlock_alloc_cases (hgeo : fs.geo.Valid) (hfirst : bit (fs.bitmap .block 0) 0 = true)
    {result : Except MapFailure (Buf × Option UInt32)} (hrun : dataBlock p k .alloc cnt fs = .ok (result, fs')) :
    (∃ mapped, result = .ok mapped) ∨
    result = .error .blockError ∧ fs' = fs ∧ ∀ g < fs.ngroups.toNat, fs.unallocCnt .block g = 0 := by
  rw [dataBlock] at hrun
  obtain ⟨entries, mid, hread, hrun⟩ := run_bind_eq_ok hrun
  obtain ⟨rfl, rfl⟩ := readBlock_eq_ok hread
  split_ifs at hrun with hzero hmode
  · exact absurd rfl hmode
  · obtain ⟨blockN, fs₁, halloc, hrun⟩ := run_bind_eq_ok hrun
    split_ifs at hrun with hblock
    · cases hrun
      rw [hblock] at halloc
      exact .inr ⟨rfl, allocBlock_eq_zero hgeo hfirst halloc⟩
    · obtain ⟨-, fs₂, -, hrun⟩ := run_bind_eq_ok hrun
      cases hrun
      exact .inl ⟨_, rfl⟩
  · cases hrun
    exact .inl ⟨_, rfl⟩

variable (hmounted : Mounted static fs)

include hmounted

theorem childBlock_alloc_cases {result : Except MapFailure (Buf × Bool × Option UInt32)}
    (hrun : childBlock p k .alloc cnt fs = .ok (result, fs')) :
    (result = .error .blockError ∧ fs' = fs) ∨
    (∃ entries, result = .ok (entries, false, cnt) ∧ fs' = fs) ∨
    ∃ blockN fs₁, ptr (fs.disk (wrapped p)) k = 0 ∧ Took static fs fs₁ blockN ∧
      result = .ok (setPtr (fs.disk (wrapped p)) k blockN, true, bump cnt) ∧
      fs' = (fs₁.put blockN zero).put (wrapped p) (setPtr (fs.disk (wrapped p)) k blockN) := by
  rw [childBlock] at hrun
  obtain ⟨entries, mid, hread, hrun⟩ := run_bind_eq_ok hrun
  obtain ⟨rfl, rfl⟩ := readBlock_eq_ok hread
  split_ifs at hrun with hzero hmode
  · exact absurd rfl hmode
  · obtain ⟨blockN, fs₁, halloc, hrun⟩ := run_bind_eq_ok hrun
    obtain ⟨rfl, rfl⟩ | htook := hmounted.allocBlock_spec.of_run halloc
    · rw [if_pos rfl] at hrun
      cases hrun
      exact .inl ⟨rfl, rfl⟩
    · rw [if_neg htook.ne_zero] at hrun
      obtain ⟨_, fs₂, hclean, hrun⟩ := run_bind_eq_ok hrun
      obtain ⟨_, fs₃, hlink, hrun⟩ := run_bind_eq_ok hrun
      cases hrun
      have hholds := htook.frame.mounted.holds ((htook.used blockN).mpr (.inr rfl))
      have hwrapped : wrapped blockN = blockN := lba_block hholds
      have hstate := writeBlock_eq_ok hlink
      rw [writeBlock_eq_ok hclean, hwrapped] at hstate
      exact .inr (.inr ⟨blockN, fs₁, hzero, htook, rfl, hstate⟩)
  · cases hrun
    exact .inr (.inl ⟨_, rfl, rfl⟩)

theorem idle_of_undone {blockN : UInt32} (hk : k < ptrsPerBlk) (hzero : ptr (fs.disk (wrapped p)) k = 0)
    (htook : Took static fs fs₁ blockN) {linked : FsInfo}
    (hlinked : linked = (fs₁.put blockN zero).put (wrapped p) (setPtr (fs.disk (wrapped p)) k blockN))
    (hfull : ∀ g < fs.ngroups.toNat, linked.unallocCnt .block g = 0) {ok : Bool} {freed : FsInfo}
    (hfree : freeBlock blockN linked = .ok (ok, freed)) :
    Idle static fs (freed.put (wrapped p) (fs.disk (wrapped p))) := by
  obtain ⟨t, ht⟩ : ∃ t, t = wrapped p := ⟨_, rfl⟩
  rw [← ht] at hzero hlinked ⊢
  have hgroups : fs₁.ngroups = fs.ngroups := congrArg Geo.ngroups htook.frame.geo
  have haddr : fs₁.bitmapAddr = fs.bitmapAddr := congrArg Geo.bitmapAddr htook.frame.geo
  have hused := (htook.used blockN).mpr (.inr rfl)
  have hbook := htook.frame.mounted.notBook htook.notStatic
  have hwrote := htook.frame.mounted.put_wrote hbook zero
  -- the new block is released as if the block that pointed to it had not been written
  rw [hlinked] at hfree
  obtain ⟨fs₂, hfree₂, hsame⟩ := freeBlock_put hwrote.frame.mounted.sound.geo (fun g hg heq => by
    refine htook.bitmap_ne hmounted (fun g hg => ?_) (hgroups ▸ hg) hk ?_
    · have hcnt := hfull g hg
      rw [hlinked] at hcnt
      exact hcnt
    · rw [FsInfo.bitmap, ← haddr, show fs₁.bitmapAddr .block g = t from heq]
      exact hzero) hfree
  rw [hsame]
  have hdropped := (hwrote.frame.mounted.freeBlock_spec ((hwrote.used _).mpr hused) htook.notStatic).of_run hfree₂
  have hidle : Idle static fs fs₂ := by
    refine ⟨(htook.frame.trans hwrote.frame ?_).trans hdropped.frame ?_, fun q => ?_⟩
    · rintro q hq rfl
      exact htook.fresh hq
    · rintro q hq rfl
      exact htook.fresh hq
    · rw [hdropped.used, hwrote.used, htook.used]
      constructor
      · rintro ⟨hq | heq, hne⟩
        · exact hq
        · exact absurd heq hne
      · intro hq
        refine ⟨.inl hq, ?_⟩
        rintro rfl
        exact htook.fresh hq
  cases hkind : fs.geo.isBook t with
  | true => exact hidle.put_book hmounted hkind
  | false =>
    by_cases heq : t = blockN
    · exact hidle.put_free hkind (heq ▸ htook.fresh) _
    · have hdata : fs₂.data t = fs.data t := by
        rw [hdropped.data, hwrote.data, Function.update_of_ne heq, htook.data]
      rw [FsInfo.data, FsInfo.data, hidle.frame.geo, hkind] at hdata
      rw [← show fs₂.disk t = fs.disk t from hdata, FsInfo.put_self]
      exact hidle

theorem Mounted.ngroups_pos : 0 < fs.ngroups.toNat := by
  have hzero : fs.Used 0 := hmounted.used 0 hmounted.zero_static
  rw [FsInfo.Used, FsInfo.marked, Bool.and_eq_true] at hzero
  exact Nat.zero_lt_of_lt (hmounted.sound.geo.group_lt (of_decide_eq_true hzero.1))

theorem Mounted.zero_set : bit (fs.bitmap .block 0) 0 = true :=
  hmounted.sound.agree.first .block hmounted.ngroups_pos

omit hmounted in
theorem walk_zero_cases (hgeo : fs.geo.Valid) (hfirst : bit (fs.bitmap .block 0) 0 = true) {minted : Bool}
    {result : Walk} {cnt' : Option UInt32} (hrun : walk .alloc 0 p k minted cnt fs = .ok ((result, cnt'), fs')) :
    (∃ diskBlk, result = .done diskBlk) ∨
    result = .noSpace ∧ fs' = fs ∧ ∀ g < fs.ngroups.toNat, fs.unallocCnt .block g = 0 := by
  rw [walk] at hrun
  obtain ⟨data, mid, hdata, hrun⟩ := run_bind_eq_ok hrun
  obtain ⟨⟨entries, cnt⟩, rfl⟩ | ⟨rfl, hfailed⟩ := dataBlock_alloc_cases hgeo hfirst hdata
  · dsimp only at hrun
    rw [if_neg (by simp)] at hrun
    cases hrun
    exact .inl ⟨_, rfl⟩
  · cases hrun
    exact .inr ⟨rfl, hfailed⟩

theorem zero_set_linked {t blockN : UInt32} (hzero : ptr (fs.disk t) k = 0) (htook : Took static fs fs₁ blockN) :
    bit (((fs₁.put blockN zero).put t (setPtr (fs.disk t) k blockN)).bitmap .block 0) 0 = true := by
  have haddr : fs₁.bitmapAddr = fs.bitmapAddr := congrArg Geo.bitmapAddr htook.frame.geo
  have hbook := htook.frame.mounted.notBook htook.notStatic
  have hwrote := htook.frame.mounted.put_wrote hbook zero
  rw [FsInfo.bitmap, FsInfo.disk_put]
  split_ifs with heq
  · -- the pointer is empty, so it does not lie over the first bit
    have hset : bit (fs.disk t) 0 = true := by
      have hfirst := hmounted.zero_set
      rwa [FsInfo.bitmap, ← haddr, show fs₁.bitmapAddr .block 0 = t from heq] at hfirst
    have hk : k ≠ 0 := by
      rintro rfl
      have hbyte : fs.disk t (4 * 0 + 0) = zero (4 * 0 + 0) :=
        byte_eq_of_load32 (hzero.trans (load32_zero _).symm) (by omega)
      rw [bit, show fs.disk t (0 / 8) = 0 from hbyte] at hset
      simp at hset
    rw [bit, setPtr, store32_apply_of_disjoint _ _ (by omega)]
    exact hset
  · exact hwrote.frame.mounted.zero_set

theorem walk_one_cases (hidx : idx < ptrsPerBlk ^ 2) {result : Walk} {cnt' : Option UInt32}
    (hrun : walk .alloc 1 p idx false cnt fs = .ok ((result, cnt'), fs')) :
    (∃ diskBlk, result = .done diskBlk) ∨ (result = .noSpace ∨ result = .stuck) ∧ Idle static fs fs' := by
  have hk : idx / ptrsPerBlk ^ 1 < ptrsPerBlk := by
    rw [pow_one]
    exact Nat.div_lt_of_lt_mul (by rwa [← pow_two])
  rw [walk] at hrun
  obtain ⟨child, mid, hchild, hwalk⟩ := run_bind_eq_ok hrun
  obtain ⟨rfl, rfl⟩ | ⟨entries, rfl, rfl⟩ | ⟨blockN, fs₁, hzero, htook, rfl, hlinked⟩ :=
    childBlock_alloc_cases hmounted hchild
  · cases hwalk
    exact .inr ⟨.inl rfl, .refl hmounted⟩
  · obtain ⟨⟨below, cnt₁⟩, fs₁, hbelow, hlast⟩ := run_bind_eq_ok hwalk
    obtain ⟨diskBlk, rfl⟩ | ⟨rfl, rfl, -⟩ := walk_zero_cases hmounted.sound.geo hmounted.zero_set hbelow
    · cases hlast
      exact .inl ⟨diskBlk, rfl⟩
    · cases hlast
      exact .inr ⟨.inr rfl, .refl hmounted⟩
  · have hgeo : mid.geo = fs.geo := by
      rw [hlinked]
      exact htook.frame.geo
    have hgroups : mid.ngroups = fs.ngroups := congrArg Geo.ngroups hgeo
    obtain ⟨⟨below, cnt₁⟩, fs₂, hbelow, hundo⟩ := run_bind_eq_ok hwalk
    obtain ⟨diskBlk, rfl⟩ | ⟨rfl, rfl, hfull⟩ := walk_zero_cases (by rw [hgeo]; exact hmounted.sound.geo)
      (by rw [hlinked]; exact zero_set_linked hmounted hzero htook) hbelow
    · cases hundo
      exact .inl ⟨diskBlk, rfl⟩
    · obtain ⟨ok, freed, hfree, hrestore⟩ := run_bind_eq_ok hundo
      obtain ⟨_, back, hback, hlast⟩ := run_bind_eq_ok hrestore
      cases hlast
      refine .inr ⟨.inl rfl, ?_⟩
      have hrestored := setPtr_setPtr_ptr (fs.disk (wrapped p)) (idx / ptrsPerBlk ^ 1) blockN
      rw [hzero] at hrestored
      rw [ptr_setPtr, Function.update_self] at hfree
      rw [writeBlock_eq_ok hback, hrestored]
      exact idle_of_undone hmounted hk hzero htook hlinked (by rwa [hgroups] at hfull) hfree

end Cases

/-! ### The call -/

section Call

variable (hmounted : Mounted static fs) {cnt : Option UInt32}

include hmounted

theorem mapRoot_alloc_cases {n idx : Nat} (hn : n ≤ 1) (hidx : idx < ptrsPerBlk ^ (n + 1)) {field : UInt32}
    {rooted : Rooted} (hrun : mapRoot n field idx .alloc cnt fs = .ok (rooted, fs')) :
    rooted.status = .writeSuccess ∨ Idle static fs fs' := by
  by_cases hfield : field = 0
  · have hslot : SlotOk static fs (n + 1) field := by
      rw [hfield]
      refine ⟨?_, ?_, ?_, full_zero_ptr⟩ <;> simp
    obtain ⟨-, hframe, hused⟩ | ⟨_, _, _, rfl, -⟩ := (mapRoot_alloc_spec hmounted cnt hslot hidx).of_run hrun
    · exact .inr ⟨hframe, hused⟩
    · exact .inl rfl
  · rw [mapRoot, rootBlock, if_neg hfield, run_bind_ok (run_pure _ _)] at hrun
    obtain ⟨⟨result, cnt'⟩, mid, hwalk, hlast⟩ := run_bind_eq_ok hrun
    have hcases : (∃ diskBlk, result = .done diskBlk) ∨ (result = .noSpace ∨ result = .stuck) ∧ Idle static fs mid := by
      obtain rfl | rfl : n = 0 ∨ n = 1 := by omega
      · obtain hdone | ⟨hfailed, rfl, -⟩ := walk_zero_cases hmounted.sound.geo hmounted.zero_set hwalk
        · exact .inl hdone
        · exact .inr ⟨.inl hfailed, .refl hmounted⟩
      · exact walk_one_cases hmounted hidx hwalk
    obtain ⟨diskBlk, rfl⟩ | ⟨rfl | rfl, hidle⟩ := hcases
    · cases hlast
      exact .inl rfl
    · cases hlast
      exact .inr hidle
    · cases hlast
      exact .inr hidle

theorem mapFileBlock_alloc_cases {inode : Inode} {idx : UInt32} (hidx : idx.toNat < 1049612) {call : Mapped}
    (hrun : mapFileBlock inode idx .alloc cnt fs = .ok (call, fs')) :
    call.status = .writeSuccess ∨ Idle static fs fs' := by
  have hlimit : idx.toNat < fileBlkLimit := by
    rw [fileBlkLimit]
    omega
  obtain ⟨hroot, hslot⟩ := locate_lt hlimit
  have hheight : rootHeight (locate idx.toNat).1 ≤ 2 := by
    rw [locate]
    split_ifs <;> simp only [rootHeight] <;> omega
  rw [mapFileBlock_eq inode hlimit, map_eq_pure_bind] at hrun
  obtain ⟨rooted, mid, hmap, hlast⟩ := run_bind_eq_ok hrun
  cases hlast
  obtain ⟨h, hh⟩ : ∃ h, h = rootHeight (locate idx.toNat).1 := ⟨_, rfl⟩
  rw [← hh] at hheight hslot hmap
  cases h with
  | zero =>
    obtain ⟨-, hframe, hused⟩ | ⟨_, _, _, rfl, -⟩ := (mapLeaf_alloc_spec hmounted cnt _).of_run hmap
    · exact .inr ⟨hframe, hused⟩
    · exact .inl rfl
  | succ n => exact mapRoot_alloc_cases hmounted (by omega) hslot hmap

end Call

/-! ### Lookups -/

section Reading

variable {p : UInt32} {k idx : Nat} {cnt cnt' : Option UInt32}

theorem dataBlock_lookup_cases {result : Except MapFailure (Buf × Option UInt32)}
    (hrun : dataBlock p k .lookup cnt fs = .ok (result, fs')) :
    fs' = fs ∧ (result = .error .emptyBlock ∨ ∃ entries, result = .ok (entries, cnt)) := by
  rw [dataBlock] at hrun
  obtain ⟨entries, mid, hread, hnext⟩ := run_bind_eq_ok hrun
  obtain ⟨rfl, -⟩ := readBlock_eq_ok hread
  rw [if_pos (show MapMode.lookup ≠ .alloc by decide)] at hnext
  split_ifs at hnext
  · cases hnext
    exact ⟨rfl, .inl rfl⟩
  · cases hnext
    exact ⟨rfl, .inr ⟨_, rfl⟩⟩

theorem childBlock_lookup_cases {result : Except MapFailure (Buf × Bool × Option UInt32)}
    (hrun : childBlock p k .lookup cnt fs = .ok (result, fs')) :
    fs' = fs ∧ (result = .error .emptyBlock ∨ ∃ entries, result = .ok (entries, false, cnt)) := by
  rw [childBlock] at hrun
  obtain ⟨entries, mid, hread, hnext⟩ := run_bind_eq_ok hrun
  obtain ⟨rfl, -⟩ := readBlock_eq_ok hread
  rw [if_pos (show MapMode.lookup ≠ .alloc by decide)] at hnext
  split_ifs at hnext
  · cases hnext
    exact ⟨rfl, .inl rfl⟩
  · cases hnext
    exact ⟨rfl, .inr ⟨_, rfl⟩⟩

theorem walk_lookup_cases {n : Nat} {minted : Bool} {result : Walk}
    (hrun : walk .lookup n p idx minted cnt fs = .ok ((result, cnt'), fs')) :
    fs' = fs ∧ (result = .empty ∨ ∃ diskBlk, result = .done diskBlk) := by
  induction n generalizing p idx minted cnt result cnt' fs' with
  | zero =>
    rw [walk] at hrun
    obtain ⟨data, mid, hdata, hnext⟩ := run_bind_eq_ok hrun
    obtain ⟨rfl, rfl | ⟨entries, rfl⟩⟩ := dataBlock_lookup_cases hdata
    · cases hnext
      exact ⟨rfl, .inl rfl⟩
    · dsimp only at hnext
      rw [if_neg (by decide)] at hnext
      cases hnext
      exact ⟨rfl, .inr ⟨_, rfl⟩⟩
  | succ n ih =>
    rw [walk] at hrun
    obtain ⟨child, mid, hchild, hnext⟩ := run_bind_eq_ok hrun
    obtain ⟨rfl, rfl | ⟨entries, rfl⟩⟩ := childBlock_lookup_cases hchild
    · cases hnext
      exact ⟨rfl, .inl rfl⟩
    · obtain ⟨⟨below, cnt₁⟩, fs₁, hbelow, hlast⟩ := run_bind_eq_ok hnext
      obtain ⟨rfl, rfl | ⟨diskBlk, rfl⟩⟩ := ih hbelow
      · cases hlast
        exact ⟨rfl, .inl rfl⟩
      · cases hlast
        exact ⟨rfl, .inr ⟨_, rfl⟩⟩

theorem mapRoot_lookup_read {n : Nat} {field : UInt32} {rooted : Rooted}
    (hrun : mapRoot n field idx .lookup cnt fs = .ok (rooted, fs')) : fs' = fs := by
  rw [mapRoot, rootBlock] at hrun
  split_ifs at hrun with hfield hmode
  · cases hrun
    rfl
  · exact absurd (show MapMode.lookup ≠ .alloc by decide) hmode
  · rw [run_bind_ok (run_pure _ _)] at hrun
    obtain ⟨⟨below, cnt₁⟩, fs₁, hbelow, hlast⟩ := run_bind_eq_ok hrun
    obtain ⟨rfl, rfl | ⟨diskBlk, rfl⟩⟩ := walk_lookup_cases hbelow
    · cases hlast
      rfl
    · cases hlast
      rfl

variable {inode : Inode} {i : UInt32}

theorem mapFileBlock_lookup_read (hi : i.toNat < fileBlkLimit) {call : Mapped}
    (hrun : mapFileBlock inode i .lookup cnt fs = .ok (call, fs')) : fs' = fs := by
  rw [mapFileBlock_eq inode hi, map_eq_pure_bind] at hrun
  obtain ⟨rooted, mid, hmap, hlast⟩ := run_bind_eq_ok hrun
  cases hlast
  cases hheight : rootHeight (locate i.toNat).1 with
  | zero =>
    rw [hheight] at hmap
    exact ((mapLeaf_lookup_spec cnt _).of_run hmap).2
  | succ n =>
    rw [hheight] at hmap
    exact mapRoot_lookup_read hmap

theorem blkOut_read {call : Mapped} {blk : UInt32} (hrun : call.blkOut fs = .ok (blk, fs')) : fs' = fs := by
  rw [Mapped.blkOut] at hrun
  cases hdisk : call.diskBlk with
  | none =>
    rw [hdisk] at hrun
    cases hrun
  | some diskBlk =>
    rw [hdisk] at hrun
    cases hrun
    rfl

theorem readFileBlock_read (hi : i.toNat < fileBlkLimit) {result : Option (UInt32 × Buf)}
    (hrun : readFileBlock inode i fs = .ok (result, fs')) : fs' = fs := by
  rw [readFileBlock] at hrun
  obtain ⟨call, mid, hcall, hnext⟩ := run_bind_eq_ok hrun
  obtain rfl := mapFileBlock_lookup_read hi hcall
  split_ifs at hnext
  · obtain ⟨blk, mid, hblk, hread⟩ := run_bind_eq_ok hnext
    obtain ⟨scan, last, hscan, hlast⟩ := run_bind_eq_ok hread
    cases hlast
    rw [(readBlock_eq_ok hscan).1, blkOut_read hblk]
  · cases hnext
    rfl

theorem nameInBlocks_read {name : Buf} {todo : Nat} (htodo : i.toNat + todo ≤ 1048576) {result : Option UInt32}
    (hrun : nameInBlocks inode name todo i fs = .ok (result, fs')) : fs' = fs := by
  induction todo generalizing i fs' with
  | zero =>
    cases hrun
    rfl
  | succ todo ih =>
    have hnext : (i + 1).toNat = i.toNat + 1 := toNat_add_one (by omega)
    rw [nameInBlocks] at hrun
    obtain ⟨block, mid, hblock, hrest⟩ := run_bind_eq_ok hrun
    obtain rfl := readFileBlock_read (by rw [fileBlkLimit]; omega) hblock
    obtain _ | ⟨blk, scan⟩ := block
    · cases hrest
      rfl
    · dsimp only at hrest
      cases hfind : nameInBlock scan name blockSize 0 with
      | some n =>
        rw [hfind] at hrest
        cases hrest
        rfl
      | none =>
        rw [hfind] at hrest
        exact ih (by omega) hrest

theorem nameIn_read {name : Buf} {result : Option UInt32} (hrun : nameIn inode name fs = .ok (result, fs')) :
    fs' = fs := by
  refine nameInBlocks_read ?_ hrun
  have hlt := inode.sizeLo.toNat_lt
  rw [UInt32.toNat_div]
  change 0 + inode.sizeLo.toNat / 4096 ≤ 1048576
  omega

end Reading

/-! ### Inserting -/

section Insert

variable {now parentN childN : UInt32} {parent child : Inode} {name : Buf} {len : Nat}

theorem linkChild_eq_ok (hparent : fs.geo.Real .inode parentN) (hchild : fs.geo.Real .inode childN) {ok : Bool}
    (hrun : linkChild now parentN childN parent child fs = .ok (ok, fs')) : ok = true := by
  rw [linkChild] at hrun
  dsimp only at hrun
  split_ifs at hrun with hsame
  · exact (setInode_eq_ok hrun).mpr hchild
  · obtain ⟨stored, mid, hfirst, hnext⟩ := run_bind_eq_ok hrun
    rw [(setInode_eq_ok hfirst).mpr hchild, if_pos rfl] at hnext
    refine (setInode_eq_ok hnext).mpr ?_
    rwa [(Stays.setInode _ _).keepsGeo _ _ _ hfirst]

theorem insertInBlocks_cases (hparent : fs.geo.Real .inode parentN) (hchild : fs.geo.Real .inode childN) {todo : Nat}
    {i : UInt32} (htodo : i.toNat + todo ≤ 1048576) {result : Option Bool}
    (hrun : insertInBlocks now parentN childN parent child name len todo i fs = .ok (result, fs')) :
    result = some true ∨ fs' = fs := by
  induction todo generalizing i fs' with
  | zero =>
    cases hrun
    exact .inr rfl
  | succ todo ih =>
    have hnext : (i + 1).toNat = i.toNat + 1 := toNat_add_one (by omega)
    rw [insertInBlocks] at hrun
    obtain ⟨block, mid, hblock, hrest⟩ := run_bind_eq_ok hrun
    obtain rfl := readFileBlock_read (by rw [fileBlkLimit]; omega) hblock
    obtain _ | ⟨blk, scan⟩ := block
    · cases hrest
      exact .inr rfl
    dsimp only at hrest
    cases hfind : insertInBlock scan childN name len (entryType child) blockSize 0 with
    | malformed =>
      rw [hfind] at hrest
      cases hrest
      exact .inr rfl
    | found scratch =>
      rw [hfind] at hrest
      obtain ⟨_, mid, hwrite, hrest⟩ := run_bind_eq_ok hrest
      obtain ⟨ok, last, hlink, hlast⟩ := run_bind_eq_ok hrest
      cases hlast
      have hgeo := (Stays.writeBlock _ _).keepsGeo _ _ _ hwrite
      left
      rw [linkChild_eq_ok (by rwa [hgeo]) (by rwa [hgeo]) hlink]
    | notFound =>
      rw [hfind] at hrest
      exact ih (by omega) hrest

theorem growDir_eq_false (hparent : fs.geo.Real .inode parentN) (hchild : fs.geo.Real .inode childN)
    (hrun : growDir now parentN childN parent child name len fs = .ok (false, fs')) :
    (maxFileSize < parent.sizeLo.toNat + align4 (8 + len) ∧ fs' = fs) ∨
    ∃ call, mapFileBlock parent (blocksFor parent.sizeLo) .alloc (some 0) fs = .ok (call, fs') ∧
      call.status ≠ .writeSuccess := by
  rw [growDir] at hrun
  by_cases hlimit : maxFileSize < parent.sizeLo.toNat + align4 (8 + len)
  · rw [if_pos hlimit] at hrun
    cases hrun
    exact .inl ⟨hlimit, rfl⟩
  rw [if_neg hlimit] at hrun
  obtain ⟨call, fs₁, hcall, hnext⟩ := run_bind_eq_ok hrun
  have hgeo := (Stays.mapFileBlock _ _ _ _).keeps _ _ _ hcall
  by_cases hstatus : call.status = .writeSuccess
  · rw [if_pos hstatus] at hnext
    dsimp only at hnext
    obtain ⟨blk, mid, hblk, hrest⟩ := run_bind_eq_ok hnext
    obtain ⟨_, fs₂, hwrite, hstore⟩ := run_bind_eq_ok hrest
    have hgeo₂ : fs₂.geo = fs.geo := by
      rw [(Stays.writeBlock _ _).keepsGeo _ _ _ hwrite, blkOut_read hblk, hgeo]
    exfalso
    split_ifs at hstore with hsame
    · exact Bool.false_ne_true ((setInode_eq_ok hstore).mpr (by rwa [hgeo₂]))
    · obtain ⟨stored, fs₃, hfirst, hsecond⟩ := run_bind_eq_ok hstore
      rw [(setInode_eq_ok hfirst).mpr (by rwa [hgeo₂]), if_pos rfl] at hsecond
      refine Bool.false_ne_true ((setInode_eq_ok hsecond).mpr ?_)
      rwa [(Stays.setInode _ _).keepsGeo _ _ _ hfirst, hgeo₂]
  · rw [if_neg hstatus] at hnext
    cases hnext
    exact .inr ⟨call, hcall, hstatus⟩

theorem growDir_fails (hmounted : Mounted static fs) (hparent : fs.geo.Real .inode parentN)
    (hchild : fs.geo.Real .inode childN)
    (hrun : growDir now parentN childN parent child name len fs = .ok (false, fs')) : Idle static fs fs' := by
  obtain ⟨-, rfl⟩ | ⟨call, hcall, hstatus⟩ := growDir_eq_false hparent hchild hrun
  · exact .refl hmounted
  · refine (mapFileBlock_alloc_cases hmounted ?_ hcall).resolve_left hstatus
    have hlt := parent.sizeLo.toNat_lt
    change (parent.sizeLo.toNat + 4095) % 4294967296 / 4096 < 1049612
    omega

theorem insertEntry_fails (hmounted : Mounted static fs) (hchild : fs.geo.Real .inode childN)
    (hrun : insertEntry now parentN name len childN child fs = .ok (false, fs')) : Idle static fs fs' := by
  rw [insertEntry] at hrun
  obtain ⟨found, mid, hget, hnext⟩ := run_bind_eq_ok hrun
  obtain ⟨rfl, hparent⟩ := getInode_eq_ok hget
  obtain _ | parent := found
  · cases hnext
    exact .refl hmounted
  have hparent := hparent parent rfl
  dsimp only at hnext
  split_ifs at hnext with htype
  · cases hnext
    exact .refl hmounted
  obtain ⟨result, fs₁, hscan, hlast⟩ := run_bind_eq_ok hnext
  have hblocks : (0 : UInt32).toNat + (parent.sizeLo / 4096).toNat ≤ 1048576 := by
    have hlt := parent.sizeLo.toNat_lt
    rw [UInt32.toNat_div]
    change 0 + parent.sizeLo.toNat / 4096 ≤ 1048576
    omega
  obtain rfl | rfl := insertInBlocks_cases hparent hchild hblocks hscan
  · cases hlast
  · obtain _ | done := result
    · exact growDir_fails hmounted hparent hchild hlast
    · cases hlast
      exact .refl hmounted

end Insert

end DeprecatOS
