import DeprecatOS.Proof.Change
import DeprecatOS.Proof.WriteInode

/-!
# Growing a file

`append_to_inode` fills up the last block of the file and then maps block after block. When it runs out
of blocks it unmaps what it mapped, which leaves the block pointers in the record on disk right: a
well-formed tree is determined by the indices it maps.
-/

namespace DeprecatOS

open Bytes Bits Fault PointerTree

variable {static : UInt32 → Prop} {fs₀ fs fs' : FsInfo} {inode inode' : Inode} {buf content : Buf}
  {fSize : UInt32} {a a' : Append} {cnt cnt' : Nat}

def Append.Added (a : Append) (old cnt j : Nat) : Prop :=
  (a.allocedBackward = true ∧ j + 1 = old) ∨ (old ≤ j ∧ j < old + cnt)

theorem Append.start_added {old j : Nat} : ¬ (Append.start inode fSize).Added old 0 j := by
  rintro (⟨hback, -⟩ | hin)
  · exact Bool.false_ne_true hback
  · omega

/-- The state in the middle of an append to the file of `inode`, as it is in `fs₀`. -/
structure Appending (static : UInt32 → Prop) (fs₀ fs : FsInfo) (inode : Inode) (buf : Buf)
    (fSize : UInt32) (a : Append) (cnt : Nat) : Prop where
  reshaped : Reshaped static fs₀ fs inode a.inode
  length : (refs fs.entries a.inode).length = (refs fs₀.entries inode).length + a.allocCnt.toNat
  within : Within fs₀.entries fs.entries inode a.inode
  mapped_iff : ∀ j < fileBlkLimit, mapped fs.entries a.inode j = 0 ↔
    mapped fs₀.entries inode j = 0 ∧ ¬ a.Added (sizeBlocks inode.sizeLo) cnt j
  backward : a.allocedBackward = true →
    ∃ j, j + 1 = sizeBlocks inode.sizeLo ∧ mapped fs₀.entries inode j = 0
  cursor : a.bufByteCursor.toNat + a.bytesLeft.toNat = fSize.toNat
  blocks : (inode.sizeLo.toNat + a.bufByteCursor.toNat + 4095) / 4096 = sizeBlocks inode.sizeLo + cnt
  bytes : ∀ k < inode.sizeLo.toNat + a.bufByteCursor.toNat, fs.byte a.inode k =
    if k < inode.sizeLo.toNat then fs₀.byte inode k else buf (k - inode.sizeLo.toNat)

theorem Appending.start (hmounted : Mounted static fs) (htree : TreeOk static fs inode) (buf : Buf)
    (fSize : UInt32) :
    Appending static fs fs inode buf fSize (Append.start inode fSize) 0 where
  reshaped := Reshaped.refl hmounted htree
  length := rfl
  within := (Within.of_same fun _ _ => rfl).1
  mapped_iff _ _ := (and_iff_left Append.start_added).symm
  backward hback := absurd hback Bool.false_ne_true
  cursor := Nat.zero_add _
  blocks := rfl
  bytes _ hk := (if_pos hk).symm

theorem Appending.place {idx len m : Nat} (happending : Appending static fs₀ fs inode buf fSize a cnt)
    (hplaced : Placed static fs fs' a.inode a'.inode idx content m)
    (halloc : a'.allocCnt = a.allocCnt + UInt32.ofNat m)
    (hcursor : a'.bufByteCursor.toNat = a.bufByteCursor.toNat + len)
    (hleft : a'.bytesLeft.toNat + len = a.bytesLeft.toNat)
    (hadded : ∀ j < fileBlkLimit, mapped fs₀.entries inode j = 0 →
      (a'.Added (sizeBlocks inode.sizeLo) cnt' j ↔ a.Added (sizeBlocks inode.sizeLo) cnt j ∨ j = idx))
    (hback : a'.allocedBackward = true →
      ∃ j, j + 1 = sizeBlocks inode.sizeLo ∧ mapped fs₀.entries inode j = 0)
    (hblocks : (inode.sizeLo.toNat + a'.bufByteCursor.toNat + 4095) / 4096 =
      sizeBlocks inode.sizeLo + cnt')
    (hlimit : inode.sizeLo.toNat + a'.bufByteCursor.toNat ≤ 4294967296)
    (hbefore : ∀ k < inode.sizeLo.toNat + a'.bufByteCursor.toNat, k / blockSize ≠ idx →
      k < inode.sizeLo.toNat + a.bufByteCursor.toNat)
    (hcontent : ∀ k < inode.sizeLo.toNat + a'.bufByteCursor.toNat, k / blockSize = idx →
      content (k % blockSize) =
        if k < inode.sizeLo.toNat then fs₀.byte inode k else buf (k - inode.sizeLo.toNat)) :
    Appending static fs₀ fs' inode buf fSize a' cnt' where
  reshaped := happending.reshaped.trans hplaced.reshaped
  length := by
    have hle := hplaced.reshaped.tree.length_refs_le hplaced.reshaped.trade.frame.mounted
    have hgrown := hplaced.length
    have hlength := happending.length
    rw [halloc, UInt32.toNat_add, UInt32.toNat_ofNat']
    omega
  within := happending.within.trans hplaced.within
  mapped_iff j hj := by
    by_cases heq : j = idx
    · subst heq
      refine ⟨fun hzero => absurd hzero hplaced.mapped_ne, fun ⟨hhole, hnot⟩ => ?_⟩
      exact absurd ((hadded j hj hhole).mpr (Or.inr rfl)) hnot
    · rw [(hplaced.others j hj heq).1, happending.mapped_iff j hj]
      refine and_congr_right fun hhole => not_congr ?_
      rw [hadded j hj hhole, or_iff_left heq]
  backward := hback
  cursor := by
    have := happending.cursor
    omega
  blocks := hblocks
  bytes k hk := by
    by_cases heq : k / blockSize = idx
    · rw [hplaced.byte_eq heq, hcontent k hk heq]
    · have hlt : k / blockSize < fileBlkLimit := by
        rw [fileBlkLimit, blockSize]
        omega
      rw [(hplaced.others _ hlt heq).byte_eq, happending.bytes k (hbefore k hk heq)]

/-! ### Giving back -/

structure Restored (static : UInt32 → Prop) (fs₀ fs : FsInfo) (inode : Inode) : Prop where
  ok : InodeOk static fs inode
  trade : Trade static (refs fs₀.entries inode) (refs fs.entries inode) fs₀ fs
  refs_eq : refs fs.entries inode = refs fs₀.entries inode
  mapped_eq : ∀ j < fileBlkLimit, mapped fs.entries inode j = mapped fs₀.entries inode j
  bytes : ∀ k < inode.sizeLo.toNat, fs.byte inode k = fs₀.byte inode k

theorem Restored.used (htree : TreeOk static fs₀ inode) (hrestored : Restored static fs₀ fs inode) (b : UInt32) :
    fs.Used b ↔ fs₀.Used b := by
  rw [hrestored.trade.used, hrestored.refs_eq]
  constructor
  · rintro (⟨hb, -⟩ | hmem)
    · exact hb
    · exact htree.used b hmem
  · intro hb
    by_cases hmem : b ∈ refs fs₀.entries inode
    · exact Or.inr hmem
    · exact Or.inl ⟨hb, hmem⟩

theorem FsInfo.byte_of_root (hroot : inode'.root = inode.root) (k : Nat) :
    fs.byte inode' k = fs.byte inode k := by
  rw [FsInfo.byte, FsInfo.byte, mapped_of_root hroot]

theorem FsInfo.byte_of_hole {k : Nat} (hhole : mapped fs.entries inode (k / blockSize) = 0) :
    fs.byte inode k = 0 := by
  rw [FsInfo.byte, if_pos hhole]

theorem Appending.restored (happending : Appending static fs₀ fs inode buf fSize a cnt) {m : Nat}
    (hok : InodeOk static fs₀ inode)
    (hunmapped : Unmapped static fs fs' a.inode inode' (a.Added (sizeBlocks inode.sizeLo) cnt) m) :
    Restored static fs₀ fs' inode := by
  have hhole : ∀ j < fileBlkLimit, a.Added (sizeBlocks inode.sizeLo) cnt j →
      mapped fs₀.entries inode j = 0 := by
    rintro j hj (⟨hback, hlast⟩ | hpast)
    · obtain ⟨i, hi, hhole⟩ := happending.backward hback
      rwa [show j = i by omega]
    · exact hok.short j hj hpast.1
  have hsame : ∀ j < fileBlkLimit,
      mapped fs₀.entries inode j = 0 ↔ mapped fs'.entries inode' j = 0 := fun j hj => by
    by_cases hadded : a.Added (sizeBlocks inode.sizeLo) cnt j
    · exact iff_of_true (hhole j hj hadded) (hunmapped.holes j hj hadded)
    · rw [(hunmapped.others j hj hadded).1, happending.mapped_iff j hj, and_iff_left hadded]
  have htree' := hunmapped.reshaped.tree
  obtain ⟨hroot, hrefs, hmapped⟩ := hok.tree.agree htree' happending.within hunmapped.within hsame
  have htrade := (happending.reshaped.trans hunmapped.reshaped).trade
  rw [refs_of_root hroot] at htrade hrefs
  have hmapped : ∀ j < fileBlkLimit, mapped fs'.entries inode j = mapped fs₀.entries inode j := fun j hj => by
    rw [← hmapped j hj, mapped_of_root hroot]
  refine ⟨⟨htree'.of_root hroot.symm, fun j hj hpast => (hmapped j hj).trans (hok.short j hj hpast), ?_⟩, htrade, hrefs,
    hmapped, fun k hk => ?_⟩
  · rw [hok.sectors, hrefs]
  · have hlt : k / blockSize < fileBlkLimit := by
      have := inode.sizeLo.toNat_lt
      rw [fileBlkLimit, blockSize]
      omega
    by_cases hadded : a.Added (sizeBlocks inode.sizeLo) cnt (k / blockSize)
    · have hzero := hhole _ hlt hadded
      rw [FsInfo.byte_of_hole hzero, FsInfo.byte_of_hole ((hmapped _ hlt).trans hzero)]
    · rw [← FsInfo.byte_of_root hroot, (hunmapped.others _ hlt hadded).byte_eq,
        happending.bytes k (by omega), if_pos hk]

theorem Unmapped.of_frame (hframe : Frame static (fun _ => False) fs fs')
    (hused : ∀ b, fs'.Used b ↔ fs.Used b) (htree : TreeOk static fs inode) :
    Unmapped static fs fs' inode inode (fun _ => False) 0 := by
  obtain ⟨htree', hrefs, hmapped⟩ := htree.of_frame hframe fun _ _ h => h
  have hnodes : ∀ b, IsNode fs.entries inode b → fs'.entries b = fs.entries b := fun b hb =>
    FsInfo.entries_congr (hframe.data b (htree.used b (isNode_mem_refs hb)) not_false)
  refine ⟨⟨htree', ?_, rfl⟩, by rw [hrefs, Nat.add_zero], fun _ _ h => h.elim, (Within.of_same hnodes).2,
    fun j hj _ => ⟨hmapped j hj, fun hne => ?_⟩⟩
  · rw [hrefs]
    refine ⟨hframe.mono fun _ h => h.elim, fun b => ?_, fun b hb hnot => absurd hb hnot⟩
    rw [hused]
    constructor
    · intro hb
      by_cases hin : b ∈ refs fs.entries inode
      · exact Or.inr hin
      · exact Or.inl ⟨hb, hin⟩
    · exact fun hb => hb.elim And.left (htree.used b)
  · exact hframe.data _ (htree.used _ (mapped_mem_refs hj hne)) fun h => h

theorem unwindBlock_spec {idx : UInt32} (hmounted : Mounted static fs) (htree : TreeOk static fs inode)
    (hidx : idx.toNat < fileBlkLimit) (hne : mapped fs.entries inode idx.toNat ≠ 0) :
    Runs (unwindBlock inode idx) fs fun inode' fs' =>
      ∃ m, Unmapped static fs fs' inode inode' (· = idx.toNat) m := by
  rw [unwindBlock, unwindBlockWith]
  refine (mapFileBlock_free_within hmounted htree hidx none).bind fun call mid hcall => ?_
  obtain ⟨⟨hhole, -, -⟩ | ⟨gone, -, hstatus, hblkOut, -, hshrank⟩, hwithin⟩ := hcall
  · exact absurd hhole hne
  rw [if_pos hstatus]
  simp only [Mapped.blkOut, hblkOut, pure_bind]
  refine (hshrank.freeBlock_spec htree hidx hne hwithin).bind fun _ fs' hunmapped => Runs.pure ?_
  exact ⟨_, hunmapped⟩

theorem unwindBlocks_spec (cnt : Nat) {start i : UInt32} (hmounted : Mounted static fs)
    (htree : TreeOk static fs inode) (hbound : start.toNat + i.toNat + cnt ≤ 1048576)
    (hmapped : ∀ j, start.toNat + i.toNat ≤ j → j < start.toNat + i.toNat + cnt →
      mapped fs.entries inode j ≠ 0) :
    Runs (unwindBlocks start cnt i inode) fs fun inode' fs' => ∃ m, Unmapped static fs fs' inode inode'
      (fun j => start.toNat + i.toNat ≤ j ∧ j < start.toNat + i.toNat + cnt) m := by
  induction cnt generalizing fs inode i with
  | zero => exact Runs.pure ⟨0, Unmapped.of_holes hmounted htree fun j _ hj => by omega⟩
  | succ cnt ih =>
    have hidx : (start + i).toNat = start.toNat + i.toNat := by
      rw [UInt32.toNat_add]
      exact Nat.mod_eq_of_lt (by omega)
    have hnext : (i + 1).toNat = i.toNat + 1 := toNat_add_one (by omega)
    have hlimit : start.toNat + i.toNat < fileBlkLimit := by
      rw [fileBlkLimit]
      omega
    rw [unwindBlocks, unwindBlocksWith]
    refine (unwindBlock_spec hmounted htree (by rwa [hidx])
      (by rw [hidx]; exact hmapped _ le_rfl (by omega))).bind fun inode₁ fs₁ hfirst => ?_
    obtain ⟨m, hfirst⟩ := hfirst
    rw [hidx] at hfirst
    refine (ih hfirst.reshaped.trade.frame.mounted hfirst.reshaped.tree (by omega)
      fun j hlow hhigh => ?_).mono fun inode' fs' hlater => ?_
    · have hj : j < fileBlkLimit := by
        rw [fileBlkLimit]
        omega
      rw [(hfirst.others j hj (by omega)).1]
      exact hmapped j (by omega) (by omega)
    · obtain ⟨m', hlater⟩ := hlater
      exact ⟨m + m', (hfirst.trans hlater).congr fun j => by omega⟩

/-! ### The last block -/

theorem toNat_min (x y : UInt32) : (min x y).toNat = min x.toNat y.toNat := by
  change (if x ≤ y then x else y).toNat = _
  split_ifs with hle
  · rw [UInt32.le_iff_toNat_le] at hle
    omega
  · rw [UInt32.le_iff_toNat_le] at hle
    omega

theorem Rewrote.placed {idx : Nat} (hidx : idx < fileBlkLimit)
    (hne : mapped fs.entries inode idx ≠ 0) (hwrote : Rewrote static fs fs' inode idx content) :
    Placed static fs fs' inode inode idx content 0 where
  reshaped := hwrote.reshaped
  length := by rw [hwrote.refs_eq, Nat.add_zero]
  mapped_ne := by rwa [hwrote.mapped_eq idx hidx]
  content_eq := by rw [hwrote.mapped_eq idx hidx, hwrote.data_eq]
  within := hwrote.within
  others := hwrote.others

theorem Appending.fillTail {slack : Buf} {tail off len m : Nat} (hmounted : Mounted static fs)
    (htree : TreeOk static fs inode) (hsize : inode.sizeLo.toNat + fSize.toNat < 4294967296)
    (htail : inode.sizeLo.toNat = 4096 * tail + off) (hoff : 0 < off) (hoff' : off < 4096)
    (hlen : len = min fSize.toNat (4096 - off))
    (hplaced : Placed static fs fs' inode a'.inode tail (splice slack off buf 0 len) m)
    (hslack : ∀ k, k / blockSize = tail → slack (k % blockSize) = fs.byte inode k)
    (halloc : a'.allocCnt = 0 + UInt32.ofNat m) (hcursor : a'.bufByteCursor.toNat = len)
    (hleft : a'.bytesLeft.toNat + len = fSize.toNat)
    (hback : a'.allocedBackward = true ↔ mapped fs.entries inode tail = 0) :
    Appending static fs fs' inode buf fSize a' 0 ∧
      (a'.bytesLeft ≠ 0 →
        inode.sizeLo.toNat + a'.bufByteCursor.toNat = 4096 * (sizeBlocks inode.sizeLo + 0)) := by
  have hblocks : sizeBlocks inode.sizeLo = tail + 1 := by
    rw [sizeBlocks]
    omega
  refine ⟨(Appending.start hmounted htree buf fSize).place hplaced halloc (hcursor.trans (Nat.zero_add _).symm)
    hleft (fun j _ hhole => ?_) (fun h => ⟨tail, hblocks.symm, hback.mp h⟩) ?_ (by omega) (fun k hk hne => ?_) fun k hk hkt => ?_,
    fun hmore => ?_⟩
  · rw [or_iff_right Append.start_added, Append.Added, hback, hblocks]
    constructor
    · rintro (⟨-, hj⟩ | hj)
      · omega
      · omega
    · rintro rfl
      exact Or.inl ⟨hhole, rfl⟩
  · rw [hcursor, hblocks]
    omega
  · rw [blockSize] at hne
    change k < inode.sizeLo.toNat + 0
    omega
  · rw [splice]
    rw [hcursor] at hk
    have hmod := Nat.div_add_mod k 4096
    rw [blockSize] at hkt ⊢
    rw [hkt] at hmod
    by_cases hold : k < inode.sizeLo.toNat
    · rw [if_pos hold, if_neg (by omega)]
      exact hslack k hkt
    · rw [if_neg hold, if_pos (by omega)]
      congr 1
      omega
  · have hpos : a'.bytesLeft.toNat ≠ 0 := fun h => hmore (UInt32.toNat_inj.mp h)
    omega

theorem fillTail_spec (hmounted : Mounted static fs) (hok : InodeOk static fs inode)
    (hsizeOld : inode.sizeLo.toNat ≤ maxSize) (hsize : inode.sizeLo.toNat + fSize.toNat < 4294967296) (hragged : inode.sizeLo % 4096 ≠ 0)
    (buf : Buf) :
    Runs (fillTail buf (Append.start inode fSize)) fs fun result fs' =>
      (result = none ∧ Restored static fs fs' inode) ∨
      ∃ a, result = some a ∧ Appending static fs fs' inode buf fSize a 0 ∧
        (a.bytesLeft ≠ 0 →
          inode.sizeLo.toNat + a.bufByteCursor.toNat = 4096 * (sizeBlocks inode.sizeLo + 0)) := by
  have htree := hok.tree
  have hblocks := toNat_blocksFor hsizeOld
  have hoff : (inode.sizeLo % 4096).toNat = inode.sizeLo.toNat % 4096 := UInt32.toNat_mod _ _
  have hoffPos : 0 < inode.sizeLo.toNat % 4096 := by
    rw [← hoff]
    exact Nat.pos_of_ne_zero fun h => hragged (UInt32.toNat_inj.mp h)
  have htail : (blocksFor inode.sizeLo - 1).toNat = inode.sizeLo.toNat / 4096 := by
    have hone : (1 : UInt32).toNat = 1 := rfl
    rw [sizeBlocks] at hblocks
    rw [UInt32.toNat_sub_of_le _ _ (UInt32.le_iff_toNat_le.mpr (by omega)), hblocks]
    omega
  have hlimit : (blocksFor inode.sizeLo - 1).toNat < fileBlkLimit := by
    rw [htail, fileBlkLimit]
    rw [maxSize] at hsizeOld
    omega
  have hlen : (min fSize (4096 - inode.sizeLo % 4096)).toNat =
      min fSize.toNat (4096 - inode.sizeLo.toNat % 4096) := by
    have h4096 : (4096 : UInt32).toNat = 4096 := rfl
    rw [toNat_min, UInt32.toNat_sub_of_le _ _ (UInt32.le_iff_toNat_le.mpr (by omega)), hoff, h4096]
  have hcursor : (0 + min fSize (4096 - inode.sizeLo % 4096)).toNat =
      min fSize.toNat (4096 - inode.sizeLo.toNat % 4096) := by rw [UInt32.zero_add, hlen]
  have hleft : (fSize - min fSize (4096 - inode.sizeLo % 4096)).toNat +
      min fSize.toNat (4096 - inode.sizeLo.toNat % 4096) = fSize.toNat := by
    rw [UInt32.toNat_sub_of_le _ _ (UInt32.le_iff_toNat_le.mpr (by omega)), hlen]
    omega
  rw [fillTail, fillTailWith]
  dsimp only [Append.start]
  refine (mapFileBlock_lookup_spec hmounted htree hlimit none).bind fun found mid hfound => ?_
  obtain ⟨rfl, rfl⟩ := hfound
  rw [htail] at hlimit
  by_cases hhole : mapped mid.entries inode (blocksFor inode.sizeLo - 1).toNat = 0
  · rw [if_pos hhole]
    dsimp only
    rw [htail] at hhole
    refine (mapFileBlock_alloc_within hmounted htree (by rwa [htail]) (some 0)).bind fun call mid' hcall => ?_
    rw [htail] at hcall
    obtain ⟨⟨rfl, hframe, hused, -⟩ | ⟨diskBlk, adds, hstatus, hblkOut, hne, hcnt, hgrew, -⟩, hwithin⟩ := hcall
    · rw [if_neg (show Status.blockError ≠ .writeSuccess by decide)]
      refine Runs.pure (Or.inl ⟨rfl, ?_⟩)
      refine (Appending.start hmounted htree buf fSize).restored hok
        ((Unmapped.of_frame hframe hused htree).congr fun j => (iff_false_intro Append.start_added).symm)
    · rw [if_pos hstatus]
      simp only [Mapped.blkOut, hblkOut, pure_bind]
      refine (hgrew.writeBlock_spec htree hlimit hne hwithin _).bind fun _ fs' hplaced => Runs.pure (Or.inr ?_)
      rw [hoff, hlen, UInt32.toNat_zero] at hplaced
      refine ⟨_, rfl, Appending.fillTail hmounted htree hsize (Nat.div_add_mod _ _).symm hoffPos
        (Nat.mod_lt _ (by decide)) rfl hplaced (fun k hk => ?_) ?_ hcursor hleft (iff_of_true rfl hhole)⟩
      · rw [FsInfo.byte_of_hole (hk ▸ hhole)]
        rfl
      · rw [hcnt]
        rfl
  · rw [if_neg hhole]
    rw [htail] at hhole ⊢
    have hmem := mapped_mem_refs hlimit hhole
    simp only [Mapped.blkOut, pure_bind]
    refine Runs.bind_eq (hmounted.readBlock_data (htree.used _ hmem) (htree.notStatic _ hmem)) ?_
    refine (htree.writeBlock_spec hmounted hlimit hhole _).bind fun _ fs' hwrote => Runs.pure (Or.inr ?_)
    rw [hoff, hlen, UInt32.toNat_zero] at hwrote
    refine ⟨_, rfl, Appending.fillTail hmounted htree hsize (Nat.div_add_mod _ _).symm hoffPos
      (Nat.mod_lt _ (by decide)) rfl (hwrote.placed hlimit hhole) (fun k hk => ?_) rfl hcursor hleft
      (iff_of_false Bool.false_ne_true hhole)⟩
    rw [FsInfo.byte, hk, if_neg hhole]

/-! ### Block after block -/

theorem Appending.step {junk : Buf} {len m : Nat}
    (happending : Appending static fs₀ fs inode buf fSize a cnt)
    (hsize : inode.sizeLo.toNat + fSize.toNat < 4294967296)
    (haligned : inode.sizeLo.toNat + a.bufByteCursor.toNat = 4096 * (sizeBlocks inode.sizeLo + cnt))
    (hleft : 0 < a.bytesLeft.toNat) (hlen : len = min a.bytesLeft.toNat 4096)
    (hplaced : Placed static fs fs' a.inode a'.inode (sizeBlocks inode.sizeLo + cnt)
      (splice junk 0 buf a.bufByteCursor.toNat len) m)
    (halloc : a'.allocCnt = a.allocCnt + UInt32.ofNat m)
    (hcursor : a'.bufByteCursor.toNat = a.bufByteCursor.toNat + len)
    (hleft' : a'.bytesLeft.toNat + len = a.bytesLeft.toNat)
    (hback : a'.allocedBackward = a.allocedBackward) :
    Appending static fs₀ fs' inode buf fSize a' (cnt + 1) := by
  have hsum := happending.cursor
  refine happending.place hplaced halloc hcursor hleft' (fun j _ _ => ?_)
    (by rw [hback]; exact happending.backward) (by omega) (by omega) (fun k hk hne => ?_) fun k hk hkt => ?_
  · rw [Append.Added, Append.Added, hback]
    have hlast : (sizeBlocks inode.sizeLo ≤ j ∧ j < sizeBlocks inode.sizeLo + (cnt + 1)) ↔
        (sizeBlocks inode.sizeLo ≤ j ∧ j < sizeBlocks inode.sizeLo + cnt) ∨
          j = sizeBlocks inode.sizeLo + cnt := by omega
    rw [hlast, or_assoc]
  · rw [blockSize] at hne
    omega
  · have hmod := Nat.div_add_mod k 4096
    rw [blockSize] at hkt ⊢
    have hpast : 4096 * sizeBlocks inode.sizeLo ≥ inode.sizeLo.toNat := by
      rw [sizeBlocks]
      omega
    rw [splice, if_pos (by omega), if_neg (by omega)]
    congr 1
    omega

theorem giveBack_spec {blkIdx : UInt32} (hok : InodeOk static fs₀ inode)
    (hsize : inode.sizeLo.toNat ≤ maxSize)
    (happending : Appending static fs₀ fs inode buf fSize a blkIdx.toNat)
    (hbound : sizeBlocks inode.sizeLo + blkIdx.toNat ≤ 1048576)
    (hidle : Unmapped static fs fs' a.inode a.inode (fun _ => False) 0) :
    Runs (do
        let rest ← unwindBlocks (blocksFor inode.sizeLo) blkIdx.toNat 0 a.inode
        if a.allocedBackward then
          let _ ← unwindBlock rest (blocksFor inode.sizeLo - 1)
        pure (none : Option Append)) fs' fun result fs'' =>
      result = none ∧ Restored static fs₀ fs'' inode := by
  have hblocks := toNat_blocksFor hsize
  have hzero : (0 : UInt32).toNat = 0 := rfl
  have hmapped : ∀ j < fileBlkLimit, a.Added (sizeBlocks inode.sizeLo) blkIdx.toNat j →
      mapped fs'.entries a.inode j ≠ 0 := fun j hj hadded hnone => by
    rw [(hidle.others j hj id).1, happending.mapped_iff j hj] at hnone
    exact hnone.2 hadded
  refine (unwindBlocks_spec _ hidle.reshaped.trade.frame.mounted hidle.reshaped.tree
    (by rwa [hblocks, hzero]) fun j hlow hhigh => hmapped j ?_ ?_).bind fun inode₁ fs₁ hforward => ?_
  · rw [fileBlkLimit]
    omega
  · exact Or.inr (by omega)
  obtain ⟨m, hforward⟩ := hforward
  have hforward : Unmapped static fs fs₁ a.inode inode₁ (fun j => sizeBlocks inode.sizeLo ≤ j ∧
      j < sizeBlocks inode.sizeLo + blkIdx.toNat) (0 + m) :=
    (hidle.trans hforward).congr fun j => by rw [false_or, hblocks, hzero, Nat.add_zero]
  by_cases hback : a.allocedBackward = true
  · rw [if_pos hback]
    have hpos : 0 < sizeBlocks inode.sizeLo := by
      obtain ⟨j, hj, -⟩ := happending.backward hback
      omega
    have hlast : (blocksFor inode.sizeLo - 1).toNat = sizeBlocks inode.sizeLo - 1 := by
      have hone : (1 : UInt32).toNat = 1 := rfl
      rw [UInt32.toNat_sub_of_le _ _ (UInt32.le_iff_toNat_le.mpr (by omega)), hblocks, hone]
    have hlimit : sizeBlocks inode.sizeLo - 1 < fileBlkLimit := by
      rw [fileBlkLimit]
      omega
    have hne : mapped fs₁.entries inode₁ (sizeBlocks inode.sizeLo - 1) ≠ 0 := by
      rw [(hforward.others _ hlimit (by omega)).1, ← (hidle.others _ hlimit id).1]
      exact hmapped _ hlimit (Or.inl ⟨hback, by omega⟩)
    refine (unwindBlock_spec hforward.reshaped.trade.frame.mounted hforward.reshaped.tree
      (by rwa [hlast]) (by rwa [hlast])).bind fun inode₂ fs₂ hbackward => Runs.pure ⟨rfl, ?_⟩
    obtain ⟨m', hbackward⟩ := hbackward
    rw [hlast] at hbackward
    refine happending.restored hok ((hforward.trans hbackward).congr fun j => ?_)
    rw [Append.Added, and_iff_right hback]
    omega
  · rw [if_neg hback]
    refine Runs.pure ⟨rfl, happending.restored hok (hforward.congr fun j => ?_)⟩
    rw [Append.Added]
    exact (or_iff_right fun h => hback h.1).symm

theorem appendBlocks_spec (fuel : Nat) {blkIdx : UInt32} (hok : InodeOk static fs₀ inode)
    (hsizeOld : inode.sizeLo.toNat ≤ maxSize) (hsize : inode.sizeLo.toNat + fSize.toNat < 4294967296) (junk : Buf)
    (happending : Appending static fs₀ fs inode buf fSize a blkIdx.toNat)
    (haligned : a.bytesLeft ≠ 0 →
      inode.sizeLo.toNat + a.bufByteCursor.toNat = 4096 * (sizeBlocks inode.sizeLo + blkIdx.toNat))
    (hfuel : a.bytesLeft.toNat ≤ 4096 * fuel) :
    Runs (appendBlocks buf junk (blocksFor inode.sizeLo) fuel blkIdx a) fs fun result fs' =>
      (result = none ∧ Restored static fs₀ fs' inode) ∨
      ∃ a cnt, result = some a ∧ Appending static fs₀ fs' inode buf fSize a cnt ∧ a.bytesLeft = 0 := by
  induction fuel generalizing fs a blkIdx with
  | zero => exact Runs.pure (Or.inr ⟨a, _, rfl, happending, UInt32.toNat_inj.mp (by simpa using hfuel)⟩)
  | succ fuel ih =>
    rw [appendBlocks, appendBlocksWith]
    by_cases hdone : a.bytesLeft = 0
    · rw [if_pos hdone]
      exact Runs.pure (Or.inr ⟨a, _, rfl, happending, hdone⟩)
    rw [if_neg hdone]
    have haligned := haligned hdone
    have hblocks := toNat_blocksFor hsizeOld
    have hleft : 0 < a.bytesLeft.toNat :=
      Nat.pos_of_ne_zero fun h => hdone (UInt32.toNat_inj.mp h)
    have hcursor := happending.cursor
    have hsum : (blocksFor inode.sizeLo + blkIdx).toNat = sizeBlocks inode.sizeLo + blkIdx.toNat := by
      rw [UInt32.toNat_add, hblocks]
      exact Nat.mod_eq_of_lt (by omega)
    have hlimit : sizeBlocks inode.sizeLo + blkIdx.toNat < fileBlkLimit := by
      rw [fileBlkLimit]
      omega
    have htree := happending.reshaped.tree
    have hmounted := happending.reshaped.trade.frame.mounted
    refine (mapFileBlock_alloc_within hmounted htree (by rwa [hsum]) (some a.allocCnt)).bind
      fun call mid hcall => ?_
    rw [hsum] at hcall
    obtain ⟨⟨rfl, hframe, hused, -⟩ | ⟨diskBlk, adds, hstatus, hblkOut, hne, hcnt, hgrew, -⟩, hwithin⟩ := hcall
    · rw [if_neg (show Status.blockError ≠ .writeSuccess by decide)]
      have hbound : sizeBlocks inode.sizeLo + blkIdx.toNat ≤ 1048576 := by omega
      have hidle := Unmapped.of_frame hframe hused htree
      exact (giveBack_spec hok hsizeOld happending hbound hidle).mono fun _ _ hresult => Or.inl hresult
    · rw [if_pos hstatus]
      simp only [Mapped.blkOut, hblkOut, pure_bind]
      refine (hgrew.writeBlock_spec htree hlimit hne hwithin _).bind fun _ fs' hplaced => ?_
      have hlen : (min a.bytesLeft 4096).toNat = min a.bytesLeft.toNat 4096 := toNat_min _ _
      have hnext : (blkIdx + 1).toNat = blkIdx.toNat + 1 := toNat_add_one (by omega)
      have hcursor' : (a.bufByteCursor + min a.bytesLeft 4096).toNat =
          a.bufByteCursor.toNat + min a.bytesLeft.toNat 4096 := by
        rw [UInt32.toNat_add, hlen]
        exact Nat.mod_eq_of_lt (by omega)
      have hleft' : (a.bytesLeft - min a.bytesLeft 4096).toNat + min a.bytesLeft.toNat 4096 =
          a.bytesLeft.toNat := by
        rw [UInt32.toNat_sub_of_le _ _ (UInt32.le_iff_toNat_le.mpr (by omega)), hlen]
        omega
      rw [hlen] at hplaced
      have hstep : Appending static fs₀ fs' inode buf fSize
          { a with
            inode := call.inode
            allocCnt := call.allocCnt.getD 0
            bufByteCursor := a.bufByteCursor + min a.bytesLeft 4096
            bytesLeft := a.bytesLeft - min a.bytesLeft 4096 } (blkIdx.toNat + 1) :=
        happending.step hsize haligned hleft rfl hplaced (by rw [hcnt]; rfl) hcursor' hleft' rfl
      rw [← hnext] at hstep
      refine ih hstep (fun hmore => ?_) ?_
      · have hleft : (a.bytesLeft - min a.bytesLeft 4096).toNat ≠ 0 :=
          fun h => hmore (UInt32.toNat_inj.mp h)
        rw [hnext, hcursor']
        omega
      · change (a.bytesLeft - min a.bytesLeft 4096).toNat ≤ _
        omega

/-! ### The operation -/

def Inode.extended (inode : Inode) (allocCnt fSize now : UInt32) : Inode :=
  { inode with
    sizeLo := inode.sizeLo + fSize
    diskSectors := inode.diskSectors + allocCnt * sectorsPerBlk
    lastModTime := now }

theorem Inode.root_extended (inode : Inode) (allocCnt fSize now : UInt32) :
    (inode.extended allocCnt fSize now).root = inode.root := rfl

theorem Inode.type_extended (inode : Inode) (allocCnt fSize now : UInt32) :
    (inode.extended allocCnt fSize now).type = inode.type := rfl

theorem Inode.hardLinkCnt_extended (inode : Inode) (allocCnt fSize now : UInt32) :
    (inode.extended allocCnt fSize now).hardLinkCnt = inode.hardLinkCnt := rfl

theorem Appending.inodeOk_extended (happending : Appending static fs₀ fs inode buf fSize a cnt)
    (hok : InodeOk static fs₀ inode) (hsize : inode.sizeLo.toNat + fSize.toNat < 4294967296)
    (hdone : a.bytesLeft = 0) (now : UInt32) :
    (a.inode.extended a.allocCnt fSize now).sizeLo.toNat = inode.sizeLo.toNat + fSize.toNat ∧
      InodeOk static fs (a.inode.extended a.allocCnt fSize now) := by
  have hroot : (a.inode.extended a.allocCnt fSize now).root = a.inode.root := Inode.root_extended ..
  have hfields := happending.reshaped.fields
  have hsizeLo : a.inode.sizeLo = inode.sizeLo := by
    change a.inode.clearPtrs.sizeLo = inode.clearPtrs.sizeLo
    rw [hfields]
  have hsectors : a.inode.diskSectors = inode.diskSectors := by
    change a.inode.clearPtrs.diskSectors = inode.clearPtrs.diskSectors
    rw [hfields]
  have hsize' : (a.inode.extended a.allocCnt fSize now).sizeLo.toNat =
      inode.sizeLo.toNat + fSize.toNat := by
    change (a.inode.sizeLo + fSize).toNat = _
    rw [hsizeLo, UInt32.toNat_add]
    exact Nat.mod_eq_of_lt (by omega)
  have hcursor := happending.cursor
  have hblocks := happending.blocks
  rw [hdone, UInt32.toNat_zero, Nat.add_zero] at hcursor
  rw [hcursor, ← hsize'] at hblocks
  refine ⟨hsize', happending.reshaped.tree.of_root hroot, fun j hj hpast => ?_, ?_⟩
  · rw [mapped_of_root hroot, happending.mapped_iff j hj]
    rw [sizeBlocks, hblocks] at hpast
    refine ⟨hok.short j hj (by omega), ?_⟩
    rintro (⟨-, hlast⟩ | hin)
    · omega
    · omega
  · rw [refs_of_root hroot, happending.length]
    change (a.inode.diskSectors + a.allocCnt * sectorsPerBlk).toNat = _
    have hle := happending.reshaped.tree.length_refs_le happending.reshaped.trade.frame.mounted
    have hlength := happending.length
    have hold := hok.sectors
    have height : (sectorsPerBlk : UInt32).toNat = 8 := rfl
    rw [hsectors, UInt32.toNat_add, UInt32.toNat_mul, height]
    omega

structure Extended (static : UInt32 → Prop) (fs fs' : FsInfo) (n : UInt32) (buf : Buf) (fSize : UInt32)
    (inode : Inode) : Prop where
  edited : Edited static fs fs' n
  record : fs'.record n = inode
  size : inode.sizeLo.toNat = (fs.record n).sizeLo.toNat + fSize.toNat
  type : inode.type = (fs.record n).type
  links : inode.hardLinkCnt = (fs.record n).hardLinkCnt
  taken : ∃ adds : List UInt32, adds.Nodup ∧ (∀ b ∈ adds, ¬ fs.Used b) ∧ (∀ b, fs'.Used b ↔ fs.Used b ∨ b ∈ adds) ∧
    inode.diskSectors.toNat = (fs.record n).diskSectors.toNat + 8 * adds.length
  holes : ∀ j < sizeBlocks inode.sizeLo, mapped fs'.entries inode j = 0 →
    j < sizeBlocks (fs.record n).sizeLo ∧ mapped fs.entries (fs.record n) j = 0
  bytes : ∀ k < inode.sizeLo.toNat, fs'.byte inode k =
    if k < (fs.record n).sizeLo.toNat then fs.byte (fs.record n) k
    else buf (k - (fs.record n).sizeLo.toNat)

theorem Reshaped.adds (hreshaped : Reshaped static fs fs' inode inode') (htree : TreeOk static fs inode)
    (hwithin : Within fs.entries fs'.entries inode inode') :
    ∃ adds : List UInt32, adds.Nodup ∧ (∀ b ∈ adds, ¬ fs.Used b) ∧ (∀ b, fs'.Used b ↔ fs.Used b ∨ b ∈ adds) ∧
      (refs fs'.entries inode').length = (refs fs.entries inode).length + adds.length := by
  have hnodup := hreshaped.tree.nodup
  refine ⟨(refs fs'.entries inode').diff (refs fs.entries inode), hnodup.diff, fun b hb => ?_, fun b => ?_, ?_⟩
  · obtain ⟨hnew, hold⟩ := hnodup.mem_sdiff_iff.mp hb
    exact hreshaped.trade.fresh b hnew hold
  · rw [hreshaped.trade.used, hnodup.mem_sdiff_iff]
    by_cases hmem : b ∈ refs fs.entries inode
    · exact iff_of_true (Or.inr (hwithin.mem_refs hmem)) (Or.inl (htree.used b hmem))
    · simp [hmem]
  · have hsub : (refs fs.entries inode).Subperm (refs fs'.entries inode') :=
      htree.nodup.subperm fun b hb => hwithin.mem_refs hb
    rw [← List.length_append]
    exact (List.subperm_append_diff_self_of_count_le fun b hb => hsub.count_le b).length_eq.symm

theorem Restored.kept {n : UInt32} (hcons : Consistent static fs) (howner : fs.Owner n)
    (hrestored : Restored static fs fs' (fs.record n)) :
    Kept static fs fs' := by
  have hrecord := hcons.record_eq_of_trade howner hrestored.trade (FsInfo.real_of_marked howner.1)
  refine (hcons.regrown howner hrestored.trade hrestored.ok).kept
    ⟨hrecord, fun _ j hj => ?_, fun _ k hk => ?_⟩ (hrestored.used (hcons.inode n howner).tree)
  · rw [hrecord, hrestored.mapped_eq j hj]
  · rw [hrecord]
    exact hrestored.bytes k hk

theorem appendToInode_restores {n : UInt32} (hcons : Consistent static fs) (howner : fs.Owner n)
    (hsizeOld : (fs.record n).sizeLo.toNat ≤ maxSize)
    (hsize : (fs.record n).sizeLo.toNat + fSize.toNat < 4294967296) (now : UInt32) (junk buf : Buf) :
    Runs (appendToInode now junk n buf fSize) fs fun result fs' =>
      (result = none ∧ Restored static fs fs' (fs.record n)) ∨
      ∃ inode, result = some inode ∧ Extended static fs fs' n buf fSize inode := by
  have hreal := FsInfo.real_of_marked howner.1
  have hok := hcons.inode n howner
  have hguard : ¬ ((fs.record n).sizeLo + fSize < (fs.record n).sizeLo) := by
    rw [UInt32.lt_iff_toNat_lt, UInt32.toNat_add, Nat.mod_eq_of_lt (by omega)]
    omega
  rw [appendToInode, appendToInodeWith]
  refine Runs.bind_eq (getInode_run hcons.mounted hcons.layout hreal) ?_
  dsimp only
  rw [if_neg hguard]
  have htail : Runs (if (fs.record n).sizeLo % 4096 = 0 then
        pure (some (Append.start (fs.record n) fSize))
      else fillTail buf (Append.start (fs.record n) fSize)) fs fun result fs₁ =>
      (result = none ∧ Restored static fs fs₁ (fs.record n)) ∨
      ∃ a, result = some a ∧ Appending static fs fs₁ (fs.record n) buf fSize a 0 ∧
        (a.bytesLeft ≠ 0 → (fs.record n).sizeLo.toNat + a.bufByteCursor.toNat =
          4096 * (sizeBlocks (fs.record n).sizeLo + 0)) := by
    split_ifs with hwhole
    · refine Runs.pure (Or.inr ⟨_, rfl, Appending.start hcons.mounted hok.tree buf fSize, fun _ => ?_⟩)
      have hmod : (fs.record n).sizeLo.toNat % 4096 = 0 := by
        have := congrArg UInt32.toNat hwhole
        rwa [UInt32.toNat_mod] at this
      change _ + 0 = _
      rw [sizeBlocks]
      omega
    · exact fillTail_spec hcons.mounted hok hsizeOld hsize hwhole buf
  refine htail.bind fun result fs₁ hfilled => ?_
  obtain ⟨rfl, hrestored⟩ | ⟨a, rfl, happending, haligned⟩ := hfilled
  · exact Runs.pure (Or.inl ⟨rfl, hrestored⟩)
  dsimp only
  have hfuel : a.bytesLeft.toNat ≤ 4096 * (fSize.toNat / 4096 + 1) := by
    have := happending.cursor
    omega
  refine (appendBlocks_spec _ hok hsizeOld hsize junk happending haligned hfuel).bind fun result fs₂ happended => ?_
  obtain ⟨rfl, hrestored⟩ | ⟨a, cnt, rfl, happending, hdone⟩ := happended
  · exact Runs.pure (Or.inl ⟨rfl, hrestored⟩)
  dsimp only
  have htrade := happending.reshaped.trade
  have hlayout := hcons.layout.of_geo htrade.frame.geo
  have hreal₂ : fs₂.geo.Real .inode n := by
    rw [htrade.frame.geo]
    exact hreal
  refine (setInode_spec htrade.frame.mounted hlayout hreal₂ _).bind fun stored fs' hstored => ?_
  obtain ⟨rfl, hstored⟩ := hstored
  rw [if_pos rfl]
  refine Runs.pure (Or.inr ⟨a.inode.extended a.allocCnt fSize now, rfl, ?_⟩)
  have hroot : (a.inode.extended a.allocCnt fSize now).root = a.inode.root := Inode.root_extended ..
  obtain ⟨hsize', hok'⟩ := happending.inodeOk_extended hok hsize hdone now
  have hfields := happending.reshaped.fields
  have hcursor := happending.cursor
  have hblocks := happending.blocks
  rw [hdone, UInt32.toNat_zero, Nat.add_zero] at hcursor
  rw [hcursor, ← hsize'] at hblocks
  rw [← refs_of_root hroot] at htrade
  have hsame := (hok'.of_data (fun b hb => (hstored.used b).mpr (hok'.tree.used b hb))
    fun b hb => hstored.data b (hok'.tree.notStatic b hb)).2.2
  refine ⟨(hcons.rebuilt howner htrade hok' hstored).toEdited, hstored.record, hsize', ?_, ?_, ?_, fun j hj hhole => ?_,
    fun k hk => ?_⟩
  · change a.inode.clearPtrs.type = (fs.record n).clearPtrs.type
    rw [hfields]
  · change a.inode.clearPtrs.hardLinkCnt = (fs.record n).clearPtrs.hardLinkCnt
    rw [hfields]
  · obtain ⟨adds, hnodup, hfresh, hused, hlength⟩ := happending.reshaped.adds hok.tree happending.within
    refine ⟨adds, hnodup, hfresh, fun b => (hstored.used b).trans (hused b), ?_⟩
    rw [hok'.sectors, hok.sectors, refs_of_root hroot, hlength, Nat.mul_add]
  · have hlimit : j < fileBlkLimit := lt_fileBlkLimit hj
    rw [(hsame j hlimit).1, mapped_of_root hroot, happending.mapped_iff j hlimit, Append.Added] at hhole
    rw [sizeBlocks, hblocks] at hj
    exact ⟨by omega, hhole.1⟩
  · have hlimit : k / blockSize < fileBlkLimit := by
      have := UInt32.toNat_lt (a.inode.extended a.allocCnt fSize now).sizeLo
      rw [fileBlkLimit, blockSize]
      omega
    rw [(hsame _ hlimit).byte_eq, FsInfo.byte_of_root hroot, happending.bytes k (by omega)]

theorem appendToInode_spec {n : UInt32} (hcons : Consistent static fs) (howner : fs.Owner n)
    (hsize : (fs.record n).sizeLo.toNat + fSize.toNat ≤ maxSize) (now : UInt32) (junk buf : Buf) :
    Runs (appendToInode now junk n buf fSize) fs fun result fs' =>
      (result = none ∧ Kept static fs fs') ∨
      ∃ inode, result = some inode ∧ Extended static fs fs' n buf fSize inode := by
  have hsizeOld : (fs.record n).sizeLo.toNat ≤ maxSize := by omega
  have hsum : (fs.record n).sizeLo.toNat + fSize.toNat < 4294967296 := by
    rw [maxSize] at hsize
    omega
  refine (appendToInode_restores hcons howner hsizeOld hsum now junk buf).mono fun result fs' hresult => ?_
  obtain ⟨rfl, hrestored⟩ | hextended := hresult
  · exact Or.inl ⟨rfl, hrestored.kept hcons howner⟩
  · exact Or.inr hextended

end DeprecatOS
