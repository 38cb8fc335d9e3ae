import DeprecatOS.Proof.Blocks

/-!
# The marks determine the bookkeeping

In a sound filesystem every bit of a bitmap that is counted is the mark of a number or set for good, and every counter is
a number of clear bits. So two sound states of one geometry with the same marks have the same bitmaps and counters, and if
nothing else was written, the same superblock and descriptors.
-/

namespace DeprecatOS

open Bytes Bits Fault

variable {static : UInt32 → Prop} {fs fs' : FsInfo} {kind : Kind}

theorem bit_clear_of_marked (hsound : fs.Sound) (hgeo : fs'.geo = fs.geo) (hmarked : fs'.marked kind = fs.marked kind)
    {g i : Nat} (hg : g < fs.ngroups.toNat) (hi : i < fs.geo.countBits kind)
    (hclear : bit (fs.bitmap kind g) i = false) : bit (fs'.bitmap kind g) i = false := by
  obtain ⟨hper, hreal⟩ := real_of_clear hsound hg hi hclear
  obtain ⟨hgroup, hbit⟩ := hsound.geo.group_number hg hper
  have hunmarked := mem_number_of_clear hsound hg hi hclear
  rw [← hmarked, FsInfo.marked, hgeo, decide_eq_true hreal, Bool.true_and, hgroup, hbit] at hunmarked
  exact hunmarked

section Marks

variable (hsound : fs.Sound) (hsound' : fs'.Sound) (hgeo : fs'.geo = fs.geo) (hmarked : fs'.marked kind = fs.marked kind)

include hsound hsound' hgeo hmarked

theorem bit_eq_of_marked {g i : Nat} (hg : g < fs.ngroups.toNat) (hi : i < fs.geo.countBits kind) :
    bit (fs'.bitmap kind g) i = bit (fs.bitmap kind g) i := by
  have hgroups : fs'.ngroups = fs.ngroups := congrArg Geo.ngroups hgeo
  cases hbit : bit (fs.bitmap kind g) i with
  | false => exact bit_clear_of_marked hsound hgeo hmarked hg hi hbit
  | true =>
    by_contra hne
    have hclear := bit_clear_of_marked hsound' hgeo.symm hmarked.symm (hgroups ▸ hg) (hgeo ▸ hi)
      (Bool.eq_false_iff.mpr hne)
    rw [hbit] at hclear
    cases hclear

theorem unallocCnt_eq_of_marked {g : Nat} (hg : g < fs.ngroups.toNat) :
    fs'.unallocCnt kind g = fs.unallocCnt kind g := by
  have hgroups : fs'.ngroups = fs.ngroups := congrArg Geo.ngroups hgeo
  apply UInt16.toNat_inj.mp
  rw [hsound.agree.cnt kind g hg, hsound'.agree.cnt kind g (hgroups ▸ hg), hgeo]
  exact clearBits_congr fun i hi => bit_eq_of_marked hsound hsound' hgeo hmarked hg hi

theorem unallocTotal_eq_of_marked : fs'.unallocTotal kind = fs.unallocTotal kind := by
  have hgroups : fs'.ngroups = fs.ngroups := congrArg Geo.ngroups hgeo
  apply UInt32.toNat_inj.mp
  rw [hsound.agree.total kind, hsound'.agree.total kind, hgroups]
  apply Finset.sum_congr rfl
  intro g hg
  rw [unallocCnt_eq_of_marked hsound hsound' hgeo hmarked (Finset.mem_range.mp hg)]

end Marks

/-- The bitmaps and the free counters are what they were. The bits of an inode bitmap past its last inode stand for
nothing. -/
structure SameSpace (fs fs' : FsInfo) : Prop where
  bits : ∀ kind, ∀ g < fs.ngroups.toNat, ∀ i < fs.geo.countBits kind,
    bit (fs'.bitmap kind g) i = bit (fs.bitmap kind g) i
  cnt : ∀ kind, ∀ g < fs.ngroups.toNat, fs'.unallocCnt kind g = fs.unallocCnt kind g
  total : ∀ kind, fs'.unallocTotal kind = fs.unallocTotal kind

theorem sameSpace_of_marked (hsound : fs.Sound) (hsound' : fs'.Sound) (hgeo : fs'.geo = fs.geo)
    (hmarked : ∀ kind, fs'.marked kind = fs.marked kind) : SameSpace fs fs' :=
  ⟨fun kind _ hg _ hi => bit_eq_of_marked hsound hsound' hgeo (hmarked kind) hg hi,
    fun kind _ hg => unallocCnt_eq_of_marked hsound hsound' hgeo (hmarked kind) hg,
    fun kind => unallocTotal_eq_of_marked hsound hsound' hgeo (hmarked kind)⟩

theorem SameSpace.marked_eq (hspace : SameSpace fs fs') (hvalid : fs.geo.Valid) (hgeo : fs'.geo = fs.geo) (kind : Kind) :
    fs'.marked kind = fs.marked kind := by
  funext n
  rw [FsInfo.marked, FsInfo.marked, hgeo]
  by_cases hreal : fs.geo.Real kind n
  · rw [hspace.bits kind _ (hvalid.group_lt hreal) _ (bit_lt_countBits hvalid kind n)]
  · rw [decide_eq_false hreal, Bool.false_and, Bool.false_and]

/-! ### Nothing but the marks was written -/

theorem Frame.marked_eq {touched : UInt32 → Prop} (hframe : Frame static touched fs fs')
    (hused : ∀ q, fs'.Used q ↔ fs.Used q) (kind : Kind) : fs'.marked kind = fs.marked kind := by
  cases kind with
  | block => exact funext fun q => Bool.eq_iff_iff.mpr (hused q)
  | inode => exact hframe.inodes

section Same

variable (hsound : fs.Sound) (hsound' : fs'.Sound) (hgeo : fs'.geo = fs.geo) (hbook : SameBook fs fs')
  (hmarked : ∀ kind, fs'.marked kind = fs.marked kind)

include hsound hsound' hgeo hmarked

theorem blockBitmap_eq {g : Nat} (hg : g < fs.ngroups.toNat) {k : Nat} (hk : k < blockSize) :
    fs'.bitmap .block g k = fs.bitmap .block g k := by
  apply byte_eq_of_bits
  intro i hi
  apply bit_eq_of_marked hsound hsound' hgeo (hmarked .block) hg
  change i < 8 * blockSize
  rw [blockSize] at hk ⊢
  omega

include hbook

theorem sprblkBuf_eq (k : Nat) : fs'.sprblkBuf k = fs.sprblkBuf k := by
  by_cases hk : 12 ≤ k ∧ k < 16
  · have htotal : load32 fs'.sprblkBuf 12 = load32 fs.sprblkBuf 12 :=
      unallocTotal_eq_of_marked hsound hsound' hgeo (hmarked .block)
    have hbyte := byte_eq_of_load32 htotal (show k - 12 < 4 by omega)
    rwa [Nat.add_sub_cancel' hk.1] at hbyte
  · exact hbook.sprblk k hk

theorem bgdtBuf_eq (k : Nat) : fs'.bgdtBuf k = fs.bgdtBuf k := by
  by_cases hk : k / 32 < fs.ngroups.toNat ∧ 12 ≤ k % 32 ∧ k % 32 < 14
  · have hcnt : load16 fs'.bgdtBuf (32 * (k / 32) + 12) = load16 fs.bgdtBuf (32 * (k / 32) + 12) :=
      unallocCnt_eq_of_marked hsound hsound' hgeo (hmarked .block) hk.1
    have hbyte := byte_eq_of_load16 hcnt (show k % 32 - 12 < 2 by omega)
    rwa [show 32 * (k / 32) + 12 + (k % 32 - 12) = k by omega] at hbyte
  · exact hbook.bgdt k hk

theorem book_disk_eq {b : UInt32} (hb : fs.geo.isBook b = true) {k : Nat} (hk : k < blockSize) :
    fs'.disk b k = fs.disk b k := by
  have haddr : fs'.bitmapAddr = fs.bitmapAddr := congrArg Geo.bitmapAddr hgeo
  simp only [Geo.isBook, Bool.or_eq_true, decide_eq_true_eq, List.any_eq_true, List.mem_range] at hb
  obtain (rfl | rfl) | ⟨g, hg, hb | hb⟩ := hb
  · by_cases hmiddle : 1024 ≤ k ∧ k < 2048
    · have hsplit : k = 1024 + (k - 1024) := by omega
      rw [hsplit, hsound.agree.superblk _ (by omega), hsound'.agree.superblk _ (by omega)]
      exact sprblkBuf_eq hsound hsound' hgeo hbook hmarked _
    · exact hbook.first k hmiddle
  · rw [hsound.agree.bgdt k hk, hsound'.agree.bgdt k hk]
    exact bgdtBuf_eq hsound hsound' hgeo hbook hmarked k
  · have hbitmap := blockBitmap_eq hsound hsound' hgeo hmarked hg hk
    rw [FsInfo.bitmap, FsInfo.bitmap, haddr] at hbitmap
    rw [← hb]
    exact hbitmap
  · have hbitmap := congrFun (hbook.inodes g hg) k
    rw [FsInfo.bitmap, FsInfo.bitmap, haddr] at hbitmap
    rw [← hb]
    exact hbitmap

end Same

/-- The block bitmaps, the free counters and the contents of the blocks in use are what they were. -/
structure Untouched (fs fs' : FsInfo) : Prop where
  bitmap : ∀ g < fs.ngroups.toNat, ∀ k < blockSize, fs'.bitmap .block g k = fs.bitmap .block g k
  cnt : ∀ kind, ∀ g < fs.ngroups.toNat, fs'.unallocCnt kind g = fs.unallocCnt kind g
  total : ∀ kind, fs'.unallocTotal kind = fs.unallocTotal kind
  disk : ∀ b, fs.Used b → ∀ k < blockSize, fs'.disk b k = fs.disk b k

theorem Frame.untouched (hmounted : Mounted static fs) (hframe : Frame static (fun _ => False) fs fs')
    (hused : ∀ q, fs'.Used q ↔ fs.Used q) : Untouched fs fs' := by
  have hsound := hmounted.sound
  have hsound' := hframe.mounted.sound
  have hmarked := hframe.marked_eq hused
  refine ⟨fun g hg k hk => blockBitmap_eq hsound hsound' hframe.geo hmarked hg hk,
    fun kind g hg => unallocCnt_eq_of_marked hsound hsound' hframe.geo (hmarked kind) hg,
    fun kind => unallocTotal_eq_of_marked hsound hsound' hframe.geo (hmarked kind), fun b hb k hk => ?_⟩
  cases hbook : fs.geo.isBook b with
  | true =>
    exact book_disk_eq hsound hsound' hframe.geo hframe.book hmarked hbook hk
  | false =>
    have hdata := hframe.data b hb not_false
    rw [FsInfo.data, FsInfo.data, hframe.geo, hbook] at hdata
    exact congrFun hdata k

end DeprecatOS
