import DeprecatOS.Proof.Bitmap
import DeprecatOS.Tree

/-!
# Block operations of a mounted filesystem

What reading, writing, allocating and releasing one block means for the blocks in use and their
contents, once the bitmap bookkeeping has been abstracted away. Everything above works with these.
-/

namespace DeprecatOS

open Bytes Bits Fault PointerTree

variable {static : UInt32 → Prop} {fs fs' : FsInfo} {b : UInt32}

theorem SameBook.refl (fs : FsInfo) : SameBook fs fs :=
  ⟨fun _ _ => rfl, fun _ _ => rfl, fun _ _ => rfl, fun _ _ => rfl⟩

theorem SameBook.trans {fs'' : FsInfo} (hfirst : SameBook fs fs') (hgeo : fs'.geo = fs.geo)
    (hsecond : SameBook fs' fs'') : SameBook fs fs'' := by
  have hgroups : fs'.ngroups = fs.ngroups := congrArg Geo.ngroups hgeo
  refine ⟨fun k hk => ?_, fun k hk => ?_, fun k hk => ?_, fun g hg => ?_⟩
  · rw [hsecond.sprblk k hk, hfirst.sprblk k hk]
  · rw [hsecond.bgdt k (hgroups ▸ hk), hfirst.bgdt k hk]
  · rw [hsecond.first k hk, hfirst.first k hk]
  · rw [hsecond.inodes g (hgroups ▸ hg), hfirst.inodes g hg]

namespace Frame

variable {touched touched' : UInt32 → Prop}

theorem refl (hmounted : Mounted static fs) : Frame static touched fs fs :=
  ⟨hmounted, rfl, rfl, rfl, .refl fs, fun _ h _ => h, fun _ _ _ => rfl⟩

theorem mono (hframe : Frame static touched fs fs') (himp : ∀ b, touched b → touched' b) :
    Frame static touched' fs fs' where
  mounted := hframe.mounted
  geo := hframe.geo
  inodes := hframe.inodes
  dirCnt := hframe.dirCnt
  book := hframe.book
  used b hb ht := hframe.used b hb fun h => ht (himp b h)
  data b hb ht := hframe.data b hb fun h => ht (himp b h)

theorem trans {fs'' : FsInfo} (hfirst : Frame static touched fs fs')
    (hsecond : Frame static touched' fs' fs'') (himp : ∀ b, fs.Used b → touched' b → touched b) :
    Frame static touched fs fs'' where
  mounted := hsecond.mounted
  geo := hsecond.geo.trans hfirst.geo
  inodes := hsecond.inodes.trans hfirst.inodes
  dirCnt := hsecond.dirCnt.trans hfirst.dirCnt
  book := hfirst.book.trans hfirst.geo hsecond.book
  used b hb ht := hsecond.used b (hfirst.used b hb ht) fun h => ht (himp b hb h)
  data b hb ht := (hsecond.data b (hfirst.used b hb ht) fun h => ht (himp b hb h)).trans
    (hfirst.data b hb ht)

end Frame

namespace Mounted

variable (hmounted : Mounted static fs)

include hmounted

theorem holds (hb : fs.Used b) : fs.geo.Holds b := by
  have hcnt := hmounted.sound.geo.blockCnt_lt
  have hsectors := hmounted.sectors
  have hreal : fs.geo.Real .block b := by
    rw [FsInfo.Used, FsInfo.marked, Bool.and_eq_true] at hb
    exact of_decide_eq_true hb.1
  rw [Geo.Real, UInt32.lt_iff_toNat_lt] at hreal
  exact ⟨by omega, by omega⟩

theorem notBook (hb : ¬ static b) : fs.geo.isBook b = false :=
  Bool.eq_false_iff.mpr fun hbook => hb (hmounted.book b hbook)

theorem zero_static : static 0 := hmounted.book 0 (by simp [Geo.isBook])

theorem data_eq (hb : ¬ static b) : fs.data b = fs.disk b := by
  rw [FsInfo.data, hmounted.notBook hb]
  rfl

theorem readBlock_data (hb : fs.Used b) (hstatic : ¬ static b) :
    readBlock b fs = .ok (fs.data b, fs) := by
  rw [readBlock_run (hmounted.holds hb), hmounted.data_eq hstatic]

end Mounted

/-! ### Writing a block -/

def FsInfo.put (fs : FsInfo) (b : UInt32) (buf : Buf) : FsInfo :=
  { fs with disk := Function.update fs.disk b buf }

theorem FsInfo.disk_put (fs : FsInfo) (b : UInt32) (buf : Buf) (q : UInt32) :
    (fs.put b buf).disk q = if q = b then buf else fs.disk q :=
  Function.update_apply ..

theorem Geo.isBook_bitmapAddr (geo : Geo) (kind : Kind) {g : Nat} (hg : g < geo.ngroups.toNat) :
    geo.isBook (geo.bitmapAddr kind g) = true := by
  simp only [Geo.isBook, Bool.or_eq_true, decide_eq_true_eq, List.any_eq_true, List.mem_range]
  exact Or.inr ⟨g, hg, by cases kind <;> simp⟩

theorem FsInfo.put_bitmap (hb : fs.geo.isBook b = false) (buf : Buf) {kind : Kind} {g : Nat}
    (hg : g < fs.ngroups.toNat) : (fs.put b buf).bitmap kind g = fs.bitmap kind g := by
  refine Function.update_of_ne (fun heq => ?_) _ _
  have hbook := fs.geo.isBook_bitmapAddr kind hg
  rw [show fs.geo.bitmapAddr kind g = b from heq, hb] at hbook
  cases hbook

theorem FsInfo.put_view (hgeo : fs.geo.Valid) (hb : fs.geo.isBook b = false) (buf : Buf) :
    (fs.put b buf).view = fs.view.write b buf := by
  have hmarked : (fs.put b buf).marked = fs.marked := by
    funext kind n
    rw [FsInfo.marked, FsInfo.marked]
    change (decide (fs.geo.Real kind n) && bit ((fs.put b buf).bitmap _ _) _) = _
    by_cases hreal : fs.geo.Real kind n
    · exact congrArg (fun bitmap => _ && bit bitmap _) (put_bitmap hb buf (hgeo.group_lt hreal))
    · rw [decide_eq_false hreal, Bool.false_and, Bool.false_and]
  have hdata : (fs.put b buf).data = Function.update fs.data b buf := by
    funext q
    rw [FsInfo.data, Function.update_apply]
    change (if fs.geo.isBook q = true then _ else Function.update fs.disk b buf q) = _
    by_cases hq : q = b
    · rw [hq, hb, if_pos rfl, if_neg Bool.false_ne_true, Function.update_self]
    · rw [if_neg hq, Function.update_of_ne hq]
      rfl
  simp only [FsInfo.view, View.write, hmarked, hdata]
  rfl

theorem FsInfo.put_sound (hsound : fs.Sound) (hb : fs.geo.isBook b = false) (buf : Buf) :
    (fs.put b buf).Sound := by
  have hbook : ∀ q, fs.geo.isBook q = true → (fs.put b buf).disk q = fs.disk q := by
    intro q hq
    refine Function.update_of_ne ?_ _ _
    rintro rfl
    exact absurd hq (Bool.eq_false_iff.mp hb)
  have hzero : (fs.put b buf).disk 0 = fs.disk 0 := hbook 0 (by simp [Geo.isBook])
  have hone : (fs.put b buf).disk bgdtBlkN = fs.disk bgdtBlkN := hbook bgdtBlkN (by simp [Geo.isBook])
  refine ⟨hsound.geo, ?_, hsound.agree.total, ?_, ?_, ?_, ?_⟩
  · intro kind g hg
    rw [put_bitmap hb buf hg]
    exact hsound.agree.cnt kind g hg
  · rw [hzero]
    exact hsound.agree.superblk
  · rw [hone]
    exact hsound.agree.bgdt
  · intro kind hpos
    rw [put_bitmap hb buf hpos]
    exact hsound.agree.first kind hpos
  · intro g hg
    rw [put_bitmap hb buf hg]
    exact hsound.agree.padding g hg

theorem FsInfo.put_sameBook (hb : fs.geo.isBook b = false) (buf : Buf) : SameBook fs (fs.put b buf) where
  sprblk _ _ := rfl
  bgdt _ _ := rfl
  first k _ := by
    have hne : 0 ≠ b := by
      rintro rfl
      simp [Geo.isBook] at hb
    exact congrFun (Function.update_of_ne hne _ _) k
  inodes _ hg := put_bitmap hb buf hg

/-! ### Views that differ in one block -/

theorem FsInfo.used_of_view (fs : FsInfo) (b : UInt32) : fs.Used b ↔ fs.view.marked .block b = true :=
  Iff.rfl

theorem sameBook_settle (hgeo : fs.geo.Valid) {g : Nat} (hg : g < fs.ngroups.toNat) (bitmap : Buf) (cnt : UInt16)
    (total : UInt32) : SameBook fs (fs.settle .block g bitmap cnt total) where
  sprblk k hk := store32_apply_of_disjoint _ _ (by simp only [Kind.totalOff]; omega)
  bgdt k hk := store16_apply_of_disjoint _ _ (by simp only [Kind.cntOff]; omega)
  first k hk := by
    have hge := hgeo.bitmapAddr_ge .block g hg
    have hne : (0 : UInt32) ≠ fs.bitmapAddr .block g := fun heq => by
      rw [show fs.geo.bitmapAddr = fs.bitmapAddr from rfl, ← heq] at hge
      exact absurd hge (by decide)
    rw [disk_settle, if_neg hne, if_pos rfl, if_neg hk]
  inodes g' hg' := by
    rw [bitmap_settle hgeo hg hg', if_neg (fun heq => Kind.noConfusion heq.1)]

theorem allocBlock_sameBook (hsound : fs.Sound) {n : UInt32} (hrun : allocBlock fs = .ok (n, fs')) :
    SameBook fs fs' := by
  obtain ⟨-, -, rfl⟩ | ⟨g, bitmap, idx, hgroup, -, -, hback, -⟩ := allocBit_eq_ok hrun
  · exact .refl _
  · have hg := (firstGroup_eq_some hgroup).2.1
    rw [Nat.zero_add] at hg
    rw [writeBack_run hsound.geo hg] at hback
    cases hback
    exact sameBook_settle hsound.geo hg _ _ _

theorem releaseBit_sameBook (hsound : fs.Sound) {g idx : Nat} (hg : g < fs.ngroups.toNat) {u : Unit}
    (hrun : releaseBit .block g idx fs = .ok (u, fs')) : SameBook fs fs' := by
  obtain ⟨bitmap, -, ⟨-, hback⟩ | ⟨-, rfl⟩⟩ := releaseBit_eq_ok hrun
  · rw [writeBack_run hsound.geo hg] at hback
    cases hback
    exact sameBook_settle hsound.geo hg _ _ _
  · exact .refl _

theorem freeBlock_sameBook (hsound : fs.Sound) {n : UInt32} {ok : Bool} (hrun : freeBlock n fs = .ok (ok, fs')) :
    SameBook fs fs' := by
  obtain ⟨-, rfl⟩ | ⟨-, hgroup, hrelease⟩ := freeBlock_eq_ok hrun
  · exact .refl _
  · exact releaseBit_sameBook hsound (UInt32.lt_iff_toNat_lt.mp hgroup) hrelease

structure Wrote (static : UInt32 → Prop) (fs fs' : FsInfo) (b : UInt32) (buf : Buf) : Prop where
  frame : Frame static (· = b) fs fs'
  used : ∀ q, fs'.Used q ↔ fs.Used q
  data : fs'.data = Function.update fs.data b buf

structure Took (static : UInt32 → Prop) (fs fs' : FsInfo) (b : UInt32) : Prop where
  frame : Frame static (fun _ => False) fs fs'
  fresh : ¬ fs.Used b
  ne_zero : b ≠ 0
  notStatic : ¬ static b
  used : ∀ q, fs'.Used q ↔ fs.Used q ∨ q = b
  data : fs'.data = fs.data

structure Dropped (static : UInt32 → Prop) (fs fs' : FsInfo) (b : UInt32) : Prop where
  frame : Frame static (· = b) fs fs'
  used : ∀ q, fs'.Used q ↔ fs.Used q ∧ q ≠ b
  data : fs'.data = fs.data

theorem Mounted.of_geo (hmounted : Mounted static fs) (hsound : fs'.Sound) (hgeo : fs'.geo = fs.geo)
    (hused : ∀ q, static q → fs'.Used q) : Mounted static fs' :=
  ⟨hsound, by rw [hgeo]; exact hmounted.sectors, by rw [hgeo]; exact hmounted.book, hused⟩

namespace Mounted

variable (hmounted : Mounted static fs)

include hmounted

theorem put_wrote (hbook : fs.geo.isBook b = false) (buf : Buf) : Wrote static fs (fs.put b buf) b buf := by
  have hview := FsInfo.put_view hmounted.sound.geo hbook buf
  have hused : ∀ q, (fs.put b buf).Used q ↔ fs.Used q := fun q => by
    rw [FsInfo.used_of_view, hview]
    rfl
  have hdata : (fs.put b buf).data = Function.update fs.data b buf := congrArg View.data hview
  refine ⟨⟨?_, rfl, ?_, rfl, FsInfo.put_sameBook hbook buf, fun q hq _ => (hused q).mpr hq, fun q _ hne => ?_⟩, hused,
    hdata⟩
  · exact hmounted.of_geo (FsInfo.put_sound hmounted.sound hbook buf) rfl
      fun q hq => (hused q).mpr (hmounted.used q hq)
  · exact congrArg (fun view => view.marked .inode) hview
  · rw [hdata, Function.update_of_ne hne]

theorem writeBlock_notBook (hb : fs.Used b) (hbook : fs.geo.isBook b = false) (buf : Buf) :
    Runs (writeBlock b buf) fs fun _ fs' => Wrote static fs fs' b buf :=
  Runs.of_eq (writeBlock_run (hmounted.holds hb) buf) (hmounted.put_wrote hbook buf)

theorem writeBlock_spec (hb : fs.Used b) (hstatic : ¬ static b) (buf : Buf) :
    Runs (writeBlock b buf) fs fun _ fs' => Wrote static fs fs' b buf :=
  hmounted.writeBlock_notBook hb (hmounted.notBook hstatic) buf

theorem allocBlock_spec :
    Runs allocBlock fs fun b fs' => (b = 0 ∧ fs' = fs) ∨ Took static fs fs' b := by
  refine (allocBit_spec hmounted.sound).with_run.mono fun b fs' hcall => ?_
  obtain ⟨hrun, hstep⟩ := hcall
  have hbook := allocBlock_sameBook hmounted.sound hrun
  obtain ⟨hzero, hsame, -⟩ | ⟨hne, -, hfree, hsound, hview⟩ := hstep
  · exact Or.inl ⟨hzero, hsame⟩
  have hfresh : ¬ fs.Used b := by
    rw [FsInfo.Used, hfree]
    exact Bool.false_ne_true
  have hused : ∀ q, fs'.Used q ↔ fs.Used q ∨ q = b := by
    intro q
    rw [FsInfo.used_of_view, hview]
    simp only [View.mark, Function.update_self, Function.update_apply]
    split_ifs with heq
    · simp [heq]
    · simp [heq, FsInfo.Used, FsInfo.view]
  have hdata : fs'.data = fs.data := congrArg View.data hview
  refine Or.inr ⟨⟨?_, congrArg View.geo hview, ?_, congrArg View.dirCnt hview, hbook, ?_, ?_⟩, hfresh, hne,
    fun hstatic => hfresh (hmounted.used b hstatic), hused, hdata⟩
  · exact hmounted.of_geo hsound (congrArg View.geo hview)
      fun q hq => (hused q).mpr (Or.inl (hmounted.used q hq))
  · exact congrArg (fun view => view.marked .inode) hview
  · exact fun q hq _ => (hused q).mpr (Or.inl hq)
  · exact fun q _ _ => congrFun hdata q

theorem freeBlock_spec (hb : fs.Used b) (hstatic : ¬ static b) :
    Runs (freeBlock b) fs fun _ fs' => Dropped static fs fs' b := by
  refine (DeprecatOS.freeBlock_spec hmounted.sound b).with_run.mono fun ok fs' hcall => ?_
  obtain ⟨hrun, hstep⟩ := hcall
  have hbook := freeBlock_sameBook hmounted.sound hrun
  have hzero : b ≠ 0 := by
    rintro rfl
    exact hstatic hmounted.zero_static
  have hreal : fs.geo.Real .block b := by
    rw [FsInfo.Used, FsInfo.marked, Bool.and_eq_true] at hb
    exact of_decide_eq_true hb.1
  obtain ⟨-, hreject, -⟩ | ⟨-, -, -, hsound, hview, -⟩ := hstep
  · exact absurd ⟨hreal, hzero⟩ hreject
  have hused : ∀ q, fs'.Used q ↔ fs.Used q ∧ q ≠ b := by
    intro q
    rw [FsInfo.used_of_view, hview]
    simp only [View.mark, Function.update_self, Function.update_apply]
    split_ifs with heq
    · simp [heq]
    · simp [heq, FsInfo.Used, FsInfo.view]
  have hdata : fs'.data = fs.data := congrArg View.data hview
  refine ⟨⟨?_, congrArg View.geo hview, ?_, congrArg View.dirCnt hview, hbook, ?_, ?_⟩, hused, hdata⟩
  · refine hmounted.of_geo hsound (congrArg View.geo hview) fun q hq => (hused q).mpr ?_
    exact ⟨hmounted.used q hq, fun heq => hstatic (heq ▸ hq)⟩
  · exact congrArg (fun view => view.marked .inode) hview
  · exact fun q hq hne => (hused q).mpr ⟨hq, hne⟩
  · exact fun q _ _ => congrFun hdata q

end Mounted

end DeprecatOS
