import DeprecatOS.Proof.Operations

/-!
# Sample filesystems

Filesystems with the geometry of the small one, described by the records of their inodes, the blocks
that belong to no file and the contents of the blocks behind the inode table. The bitmaps and the
counters follow from the description. When no file has a pointer block, a few closed checks on the
description make the filesystem consistent.
-/

namespace DeprecatOS

open Bytes Bits Fault PointerTree

/-! ### Files without pointer blocks -/

def Inode.direct (inode : Inode) : List UInt32 :=
  ((List.finRange 12).map inode.dirBlockPtr).filter (· ≠ 0)

structure Inode.Flat (inode : Inode) : Prop where
  singly : inode.singlyIndirBlockPtr = 0
  doubly : inode.doublyIndirBlockPtr = 0
  triply : inode.triplyIndirBlockPtr = 0
  short : ∀ r : Fin 12, sizeBlocks inode.sizeLo ≤ r → inode.dirBlockPtr r = 0
  sectors : inode.diskSectors.toNat = 8 * inode.direct.length

instance (inode : Inode) : Decidable inode.Flat :=
  decidable_of_iff (inode.singlyIndirBlockPtr = 0 ∧ inode.doublyIndirBlockPtr = 0 ∧ inode.triplyIndirBlockPtr = 0 ∧
      (∀ r : Fin 12, sizeBlocks inode.sizeLo ≤ r → inode.dirBlockPtr r = 0) ∧
      inode.diskSectors.toNat = 8 * inode.direct.length)
    ⟨fun h => ⟨h.1, h.2.1, h.2.2.1, h.2.2.2.1, h.2.2.2.2⟩, fun h => ⟨h.singly, h.doubly, h.triply, h.short, h.sectors⟩⟩

namespace Inode.Flat

variable {inode : Inode} (hflat : inode.Flat)

include hflat

theorem root_eq_zero {r : Nat} (hr : 12 ≤ r) : inode.root r = 0 := by
  rw [Inode.root, dif_neg (by omega)]
  split_ifs
  · exact hflat.singly
  · exact hflat.doubly
  · exact hflat.triply
  · rfl

theorem refs_eq (c : Store UInt32) : refs c inode = inode.direct := by
  have hdirect : ∀ r : Fin 12, blocks ptrsPerBlk c (rootHeight r) (inode.root r) =
      if inode.dirBlockPtr r = 0 then [] else [inode.dirBlockPtr r] := by
    intro r
    have hheight : rootHeight r = 0 := Nat.sub_eq_zero_of_le (by omega)
    have hroot : inode.root r = inode.dirBlockPtr r := dif_pos r.isLt
    rw [hheight, hroot, blocks]
  have hrest : (List.range' 12 3).flatMap (fun r => blocks ptrsPerBlk c (rootHeight r) (inode.root r)) = [] := by
    apply List.flatMap_eq_nil_iff.mpr
    intro r hr
    rw [hflat.root_eq_zero (List.mem_range'_1.mp hr).1, blocks_zero_ptr]
  have hsplit : List.range 15 = (List.finRange 12).map Fin.val ++ List.range' 12 3 := by decide
  rw [refs, forest, hsplit, List.flatMap_append, hrest, List.append_nil, List.flatMap_map, direct]
  induction List.finRange 12 with
  | nil => rfl
  | cons r rs ih =>
    rw [List.flatMap_cons, ih, List.map_cons, List.filter_cons, hdirect]
    by_cases hzero : inode.dirBlockPtr r = 0
    · simp [hzero]
    · simp [hzero]

theorem mapped_eq_zero (c : Store UInt32) {j : Nat} (hpast : sizeBlocks inode.sizeLo ≤ j) : mapped c inode j = 0 := by
  by_cases hj : j < 12
  · have hlocate : locate j = (j, 0) := if_pos hj
    have hroot : inode.root j = 0 := (dif_pos hj).trans (hflat.short ⟨j, hj⟩ hpast)
    rw [mapped, hlocate, hroot, find_zero_ptr]
  · have hlow : 12 ≤ (locate j).1 := by
      rw [locate, if_neg hj]
      split_ifs <;> simp
    rw [mapped, hflat.root_eq_zero hlow, find_zero_ptr]

theorem inodeOk {static : UInt32 → Prop} {fs : FsInfo} (hnodup : inode.direct.Nodup)
    (hused : ∀ b ∈ inode.direct, fs.Used b) (hstatic : ∀ b ∈ inode.direct, ¬ static b) : InodeOk static fs inode where
  tree :=
    { nodup := by rwa [hflat.refs_eq]
      used := by rwa [hflat.refs_eq]
      notStatic := by rwa [hflat.refs_eq]
      full := by
        intro r _
        by_cases hr : r < 12
        · have hheight : rootHeight r = 0 := Nat.sub_eq_zero_of_le (by omega)
          rw [hheight]
          trivial
        · rw [hflat.root_eq_zero (by omega)]
          exact full_zero_ptr }
  short _ _ hpast := hflat.mapped_eq_zero _ hpast
  sectors := by
    rw [hflat.refs_eq]
    exact hflat.sectors

end Inode.Flat

/-! ### A filesystem from its description -/

structure Sample where
  /-- The records of inode 1 and of those that follow it; the other inodes are free. -/
  inodes : List Inode
  /-- Blocks in use that belong to no file. -/
  spare : List UInt32
  block : UInt32 → Buf

namespace Sample

def owned (s : Sample) : List UInt32 :=
  s.inodes.flatMap fun inode => if inode.Inline then [] else inode.direct

def static (s : Sample) (b : UInt32) : Prop := b < 5 ∨ b ∈ s.spare

def blockMap (s : Sample) : Buf :=
  ofBits fun i => decide (32 ≤ i ∨ i < 5 ∨ UInt32.ofNat i ∈ s.spare ∨ UInt32.ofNat i ∈ s.owned)

def inodeMap (s : Sample) : Buf := ofBits fun i => decide (32 ≤ i ∨ i < s.inodes.length)

def table (s : Sample) : Buf := fun k => (s.inodes.getD (k / 128) .zero).store zero (128 * (k / 128)) k

def base (s : Sample) : FsInfo :=
  { smallFs with disk := fun b => if b < 4 then smallDisk b else if b = 4 then s.table else s.block b }

def half (s : Sample) : FsInfo :=
  s.base.settle .block 0 s.blockMap (UInt16.ofNat (clearBits s.blockMap 32)) (UInt32.ofNat (clearBits s.blockMap 32))

def fs (s : Sample) : FsInfo :=
  s.half.settle .inode 0 s.inodeMap (UInt16.ofNat (clearBits s.inodeMap 32)) (UInt32.ofNat (clearBits s.inodeMap 32))

structure Ok (s : Sample) : Prop where
  first : 0 < s.inodes.length
  length : s.inodes.length ≤ 32
  flat : ∀ inode ∈ s.inodes, ¬ inode.Inline → inode.Flat
  nodup : s.owned.Nodup
  owned : ∀ b ∈ s.owned, 5 ≤ b ∧ b < 32 ∧ b ∉ s.spare
  spare : ∀ b ∈ s.spare, b < 32

instance (s : Sample) : Decidable s.Ok :=
  -- Over the lists, not over all block numbers.
  have : Decidable (∀ b ∈ s.owned, 5 ≤ b ∧ b < 32 ∧ b ∉ s.spare) := List.decidableBAll _ _
  have : Decidable (∀ b ∈ s.spare, b < 32) := List.decidableBAll _ _
  decidable_of_iff (0 < s.inodes.length ∧ s.inodes.length ≤ 32 ∧ (∀ inode ∈ s.inodes, ¬ inode.Inline → inode.Flat) ∧
      s.owned.Nodup ∧ (∀ b ∈ s.owned, 5 ≤ b ∧ b < 32 ∧ b ∉ s.spare) ∧ ∀ b ∈ s.spare, b < 32)
    ⟨fun h => ⟨h.1, h.2.1, h.2.2.1, h.2.2.2.1, h.2.2.2.2.1, h.2.2.2.2.2⟩,
      fun h => ⟨h.first, h.length, h.flat, h.nodup, h.owned, h.spare⟩⟩

variable {s : Sample}

theorem base_sound : s.base.Sound := by
  have hgeo : s.base.geo = smallFs.geo := rfl
  have hbitmap : ∀ kind, ∀ g < s.base.ngroups.toNat, s.base.bitmap kind g = smallFs.bitmap kind g := by
    intro kind g hg
    have hzero : g = 0 := Nat.lt_one_iff.mp hg
    subst hzero
    have hlow : ∀ kind, smallFs.bitmapAddr kind 0 < 4 := by
      intro kind
      cases kind <;> decide
    exact if_pos (hlow kind)
  refine ⟨smallFs_valid, ⟨?_, smallFs_agree.total, ?_, ?_, ?_, ?_⟩⟩
  · intro kind g hg
    rw [hbitmap kind g hg]
    exact smallFs_agree.cnt kind g hg
  · exact smallFs_agree.superblk
  · exact smallFs_agree.bgdt
  · intro kind hpos
    rw [hbitmap kind 0 hpos]
    exact smallFs_agree.first kind hpos
  · intro g hg i hi hpast
    rw [hbitmap .block g hg]
    exact smallFs_agree.padding g hg i hi hpast

theorem toNat_clearBits_le {buf : Buf} :
    (UInt16.ofNat (clearBits buf 32)).toNat = clearBits buf 32 ∧
      (UInt32.ofNat (clearBits buf 32)).toNat = clearBits buf 32 := by
  have hle := clearBits_le buf 32
  rw [UInt16.toNat_ofNat', UInt32.toNat_ofNat']
  exact ⟨Nat.mod_eq_of_lt (by omega), Nat.mod_eq_of_lt (by omega)⟩

theorem bit_blockMap_of_le {i : Nat} (hi : 32 ≤ i) : bit s.blockMap i = true := by
  rw [blockMap, bit_ofBits]
  exact decide_eq_true (.inl hi)

theorem counted_blockMap : Counted s.base .block 0 s.blockMap (UInt16.ofNat (clearBits s.blockMap 32))
    (UInt32.ofNat (clearBits s.blockMap 32)) where
  cnt_eq := by
    rw [toNat_clearBits_le.1]
    exact (clearBits_eq_of_set (show 32 ≤ 8 * blockSize by decide) fun i hi _ => bit_blockMap_of_le hi).symm
  total_eq := by
    have hcnt : s.base.unallocCnt .block 0 = 26 := (by decide : smallFs.unallocCnt .block 0 = 26)
    have htotal : s.base.unallocTotal .block = 26 := (by decide : smallFs.unallocTotal .block = 26)
    rw [hcnt, htotal, toNat_clearBits_le.1, toNat_clearBits_le.2]
    exact Nat.add_comm _ _
  first _ := by
    rw [blockMap, bit_ofBits]
    exact decide_eq_true (.inr (.inl (by omega)))
  padding _ i _ hpast := by
    have hcnt : s.base.blockCnt.toNat = 32 := (by decide : smallFs.blockCnt.toNat = 32)
    rw [hcnt] at hpast
    change 32 ≤ i ∨ 32 ≤ 0 * 32 + i at hpast
    exact bit_blockMap_of_le (by omega)

theorem half_geo : s.half.geo = smallFs.geo := geo_settle

theorem half_sound : s.half.Sound := by
  refine ⟨?_, agree_settle base_sound (show 0 < 1 by decide) counted_blockMap⟩
  rw [half_geo]
  exact smallFs_valid

theorem counted_inodeMap (hok : s.Ok) : Counted s.half .inode 0 s.inodeMap (UInt16.ofNat (clearBits s.inodeMap 32))
    (UInt32.ofNat (clearBits s.inodeMap 32)) where
  cnt_eq := by
    rw [toNat_clearBits_le.1, half_geo]
    rfl
  total_eq := by
    have hcnt : s.half.unallocCnt .inode 0 = 29 := by
      rw [half, unallocCnt_settle, if_neg (by decide)]
      exact (by decide : smallFs.unallocCnt .inode 0 = 29)
    have htotal : s.half.unallocTotal .inode = 29 := by
      rw [half, unallocTotal_settle, if_neg (by decide)]
      exact (by decide : smallFs.unallocTotal .inode = 29)
    rw [hcnt, htotal, toNat_clearBits_le.1, toNat_clearBits_le.2]
    exact Nat.add_comm _ _
  first _ := by
    rw [inodeMap, bit_ofBits]
    exact decide_eq_true (.inr hok.first)
  padding hkind := by cases hkind

theorem fs_geo : s.fs.geo = smallFs.geo := geo_settle.trans geo_settle

theorem fs_sound (hok : s.Ok) : s.fs.Sound := by
  refine ⟨?_, agree_settle half_sound (show 0 < 1 by decide) (counted_inodeMap hok)⟩
  rw [fs_geo]
  exact smallFs_valid

theorem fs_data : s.fs.data = s.base.data :=
  (data_settle (show 0 < 1 by decide)).trans (data_settle (show 0 < 1 by decide))

theorem fs_data_four : s.fs.data 4 = s.table := by
  rw [fs_data]
  rfl

theorem fs_used_iff (hok : s.Ok) {b : UInt32} : s.fs.Used b ↔ s.static b ∨ b ∈ s.owned := by
  have hbit : ∀ b : UInt32, b < 32 → (s.fs.Used b ↔ s.static b ∨ b ∈ s.owned) := by
    intro b hb
    have hlt : b.toNat < 32 := UInt32.lt_iff_toNat_lt.mp hb
    have hreal : ∀ geo, geo = smallFs.geo → geo.Real .block b := by
      rintro geo rfl
      exact hb
    rw [FsInfo.Used, fs, marked_settle (half_sound (s := s)).geo (show 0 < 1 by decide) (hreal _ half_geo),
      if_neg (by simp), half, marked_settle base_sound.geo (show 0 < 1 by decide) (hreal _ rfl)]
    have hgroup : Geo.position .block b / s.base.geo.perGrp .block = 0 := Nat.div_eq_of_lt hlt
    have hpos : Geo.position .block b % s.base.geo.perGrp .block = b.toNat := Nat.mod_eq_of_lt hlt
    rw [if_pos ⟨rfl, hgroup⟩, hpos, blockMap, bit_ofBits, decide_eq_true_iff, UInt32.ofNat_toNat, static, or_assoc,
      UInt32.lt_iff_toNat_lt]
    constructor
    · rintro (hge | h)
      · omega
      · exact h
    · exact .inr
  constructor
  · intro hused
    have hlt : b < 32 := by
      have hreal := FsInfo.real_of_marked hused
      rw [fs_geo] at hreal
      exact hreal
    exact (hbit b hlt).mp hused
  · intro h
    refine (hbit b ?_).mpr h
    obtain (hlow | hspare) | howned := h
    · exact UInt32.lt_trans hlow (by decide)
    · exact hok.spare b hspare
    · exact (hok.owned b howned).2.1

theorem fs_marked_iff {n : UInt32} (hreal : smallFs.geo.Real .inode n) :
    s.fs.marked .inode n = true ↔ n.toNat - 1 < s.inodes.length := by
  have hle : n.toNat ≤ 32 := UInt32.le_iff_toNat_le.mp hreal.2
  have hpos : 0 < n.toNat := UInt32.lt_iff_toNat_lt.mp hreal.1
  have hgroup : Geo.position .inode n / s.half.geo.perGrp .inode = 0 := by
    rw [half_geo]
    exact Nat.div_eq_of_lt (show n.toNat - 1 < 32 by omega)
  have hslot : Geo.position .inode n % s.half.geo.perGrp .inode = n.toNat - 1 := by
    rw [half_geo]
    exact Nat.mod_eq_of_lt (show n.toNat - 1 < 32 by omega)
  rw [fs, marked_settle (half_sound (s := s)).geo (show 0 < 1 by decide) (by rw [half_geo]; exact hreal),
    if_pos ⟨rfl, hgroup⟩, hslot, inodeMap, bit_ofBits, decide_eq_true_iff]
  omega

theorem fs_record {n : UInt32} (hreal : smallFs.geo.Real .inode n) :
    s.fs.record n = s.inodes.getD (n.toNat - 1) .zero := by
  rw [FsInfo.record, FsInfo.inodeSlot_of_geo fs_geo, smallFs_inodeSlot hreal, fs_data_four]
  have hsame : Inode.load s.table (128 * (n.toNat - 1)) =
      Inode.load ((s.inodes.getD (n.toNat - 1) .zero).store zero (128 * (n.toNat - 1))) (128 * (n.toNat - 1)) := by
    apply Inode.load_congr
    intro k hlow hhigh
    have hslot : k / 128 = n.toNat - 1 := by omega
    rw [table, hslot]
  rw [hsame, Inode.load_store_self]

theorem mem_owned {inode : Inode} {b : UInt32} (hmem : inode ∈ s.inodes) (hinline : ¬ inode.Inline)
    (hb : b ∈ inode.direct) : b ∈ s.owned := by
  apply List.mem_flatMap.mpr
  refine ⟨inode, hmem, ?_⟩
  rwa [if_neg hinline]

theorem fs_owner {n : UInt32} (hn : s.fs.Owner n) :
    ∃ hlt : n.toNat - 1 < s.inodes.length, s.fs.record n = s.inodes[n.toNat - 1] ∧ ¬ s.inodes[n.toNat - 1].Inline := by
  have hreal : smallFs.geo.Real .inode n := by
    rw [← fs_geo (s := s)]
    exact FsInfo.real_of_marked hn.1
  have hlt := (fs_marked_iff hreal).mp hn.1
  have hrecord : s.fs.record n = s.inodes[n.toNat - 1] := by
    rw [fs_record hreal, List.getD_eq_getElem _ _ hlt]
  refine ⟨hlt, hrecord, ?_⟩
  rw [← hrecord]
  exact hn.2

theorem fs_owns (hok : s.Ok) {n : UInt32} (hn : s.fs.Owner n) : s.fs.owns n = (s.fs.record n).direct := by
  obtain ⟨hlt, hrecord, hinline⟩ := fs_owner hn
  rw [FsInfo.owns, hrecord, (hok.flat _ (List.getElem_mem hlt) hinline).refs_eq]

theorem direct_disjoint (hok : s.Ok) {i j : Nat} (hi : i < s.inodes.length) (hj : j < s.inodes.length) (hij : i < j)
    (hinline : ¬ s.inodes[i].Inline) (hinline' : ¬ s.inodes[j].Inline) :
    s.inodes[i].direct.Disjoint s.inodes[j].direct := by
  have hpair := (List.nodup_flatMap.mp hok.nodup).2
  have hdisjoint := List.pairwise_iff_getElem.mp hpair i j hi hj hij
  rwa [Function.onFun, if_neg hinline, if_neg hinline'] at hdisjoint

theorem consistent (hok : s.Ok) : Consistent s.static s.fs where
  mounted :=
    { sound := fs_sound hok
      sectors := by
        rw [fs_geo]
        exact smallFs_mounted.sectors
      book := by
        intro b hb
        rw [fs_geo] at hb
        exact .inl (smallFs_mounted.book b hb)
      used := fun b hb => (fs_used_iff hok).mpr (.inl hb) }
  layout := by
    obtain ⟨hge, hdvd, hstatic, hbook, hapart⟩ := smallFs_layout.of_geo (fs_geo (s := s))
    exact ⟨hge, hdvd, fun n hn => .inl (hstatic n hn), hbook, hapart⟩
  inode n hn := by
    obtain ⟨hlt, hrecord, hinline⟩ := fs_owner hn
    have hmem := List.getElem_mem hlt
    rw [hrecord]
    have hnodup := (List.nodup_flatMap.mp hok.nodup).1 _ hmem
    rw [if_neg hinline] at hnodup
    apply (hok.flat _ hmem hinline).inodeOk hnodup
    · exact fun b hb => (fs_used_iff hok).mpr (.inr (mem_owned hmem hinline hb))
    · rintro b hb (hlow | hspare)
      · have hge := (hok.owned b (mem_owned hmem hinline hb)).1
        exact absurd (UInt32.lt_of_lt_of_le hlow hge) (UInt32.lt_irrefl _)
      · exact (hok.owned b (mem_owned hmem hinline hb)).2.2 hspare
  apart m n hm hn hne := by
    obtain ⟨hltm, hrecordm, hinlinem⟩ := fs_owner hm
    obtain ⟨hltn, hrecordn, hinlinen⟩ := fs_owner hn
    rw [fs_owns hok hm, fs_owns hok hn, hrecordm, hrecordn]
    have hposm : 0 < m.toNat := by
      have hreal := FsInfo.real_of_marked hm.1
      exact UInt32.lt_iff_toNat_lt.mp hreal.1
    have hposn : 0 < n.toNat := by
      have hreal := FsInfo.real_of_marked hn.1
      exact UInt32.lt_iff_toNat_lt.mp hreal.1
    have hslots : m.toNat - 1 ≠ n.toNat - 1 := fun heq => hne (UInt32.toNat_inj.mp (by omega))
    obtain hlt | hlt := Nat.lt_or_gt_of_ne hslots
    · exact direct_disjoint hok hltm hltn hlt hinlinem hinlinen
    · exact (direct_disjoint hok hltn hltm hlt hinlinen hinlinem).symm
  covered b hb := by
    refine ((fs_used_iff hok).mp hb).imp id fun howned => ?_
    obtain ⟨inode, hmem, hb⟩ := List.mem_flatMap.mp howned
    obtain ⟨i, hi, rfl⟩ := List.mem_iff_getElem.mp hmem
    have hinline : ¬ s.inodes[i].Inline := by
      intro hinline
      rw [if_pos hinline] at hb
      cases hb
    rw [if_neg hinline] at hb
    have hle := hok.length
    have hnat : (UInt32.ofNat (i + 1)).toNat = i + 1 := by
      rw [UInt32.toNat_ofNat']
      exact Nat.mod_eq_of_lt (by omega)
    have hreal : smallFs.geo.Real .inode (UInt32.ofNat (i + 1)) := by
      refine ⟨UInt32.lt_iff_toNat_lt.mpr ?_, UInt32.le_iff_toNat_le.mpr ?_⟩
      · rw [hnat]
        exact Nat.succ_pos i
      · rw [hnat]
        exact (show i + 1 ≤ 32 by omega)
    have hrecord : s.fs.record (UInt32.ofNat (i + 1)) = s.inodes[i] := by
      rw [fs_record hreal, hnat, Nat.add_sub_cancel, List.getD_eq_getElem _ _ hi]
    have howner : s.fs.Owner (UInt32.ofNat (i + 1)) := by
      refine ⟨(fs_marked_iff hreal).mpr (by rwa [hnat, Nat.add_sub_cancel]), ?_⟩
      rwa [hrecord]
    refine ⟨_, howner, ?_⟩
    rwa [fs_owns hok howner, hrecord]

end Sample

def oneBlockDir (links : UInt16) (block : UInt32) : Inode :=
  { Inode.zero with
    typeAndPermsLo := 0x4000
    sizeLo := 4096
    hardLinkCnt := links
    diskSectors := 8
    dirBlockPtr := Function.update (fun _ => 0) 0 block }

def emptyDirBlock (inodeN parentN : UInt32) (rest : UInt16) : Buf :=
  smallRecord (smallRecord zero 0 inodeN 12 1 2 46 0) 12 parentN rest 2 2 46 46

/-- The directory `/mnt/b` and nothing else. -/
def host : Sample where
  inodes := [.zero, oneBlockDir 3 5, oneBlockDir 3 6, oneBlockDir 2 7]
  spare := []
  block b :=
    if b = 5 then store8 (smallRecord (emptyDirBlock 2 2 12) 24 3 4072 3 2 109 110) 34 116
    else if b = 6 then smallRecord (emptyDirBlock 3 2 12) 24 4 4072 1 2 98 0
    else emptyDirBlock 4 3 4084

end DeprecatOS
