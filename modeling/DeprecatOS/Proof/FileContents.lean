import DeprecatOS.Proof.Bookkeeping
import DeprecatOS.Proof.Operations
import DeprecatOS.Proof.ReadFile

/-!
# What a reader finds in a file

The contents of a file are what a lookup of each of its blocks finds, with zeros in the holes. A call to
`append_to_inode` that succeeds adds its buffer to the contents. One that fails, at whichever block, has given back
exactly the blocks it took, so nothing that can be read of the file or of the free space has changed. What
`write_inode` lays out with loops of its own is what the lookup finds.
-/

namespace DeprecatOS

open Bytes Bits Fault PointerTree

def readByte (inode : Inode) (k : Nat) : FsM UInt8 := do
  match ← readChunk inode (UInt32.ofNat (k / blockSize)) with
  | some chunk => pure (chunk (k % blockSize))
  | none => fault .undefined

def readContents (inode : Inode) : FsM (List UInt8) := (List.range inode.sizeLo.toNat).mapM (readByte inode)

variable {static : UInt32 → Prop} {fs fs' : FsInfo} {inode : Inode} {n fSize : UInt32}

section Reading

variable (hmounted : Mounted static fs) (htree : TreeOk static fs inode)

include hmounted htree

theorem readByte_run {k : Nat} (hk : k < 4294967296) : readByte inode k fs = .ok (fs.byte inode k, fs) := by
  have hcast : (UInt32.ofNat (k / blockSize)).toNat = k / blockSize := by
    rw [UInt32.toNat_ofNat', blockSize]
    omega
  have hlimit : (UInt32.ofNat (k / blockSize)).toNat < fileBlkLimit := by
    rw [hcast, fileBlkLimit, blockSize]
    omega
  rw [readByte, run_bind_ok (readChunk_run hmounted htree hlimit), hcast]
  dsimp only
  rw [run_pure, FsInfo.byte]
  split_ifs <;> rfl

theorem readContents_run :
    readContents inode fs = .ok ((List.range inode.sizeLo.toNat).map (fs.byte inode), fs) := by
  apply run_mapM_read
  intro k hk
  have hlt := inode.sizeLo.toNat_lt
  exact readByte_run hmounted htree ((List.mem_range.mp hk).trans hlt)

theorem readContents_eq {size : Nat} {content : Nat → UInt8} (hsize : inode.sizeLo.toNat = size)
    (hbytes : ∀ k < size, fs.byte inode k = content k) :
    readContents inode fs = .ok ((List.range size).map content, fs) := by
  have hmap : (List.range size).map (fs.byte inode) = (List.range size).map content :=
    List.map_congr_left fun k hk => hbytes k (List.mem_range.mp hk)
  rw [readContents_run hmounted htree, hsize, hmap]

end Reading

/-! ### Indices past the tree -/

section Far

variable {idx : UInt32} (hfar : fileBlkLimit ≤ idx.toNat)

include hfar

theorem mapFileBlock_far (inode : Inode) (mode : MapMode) (allocCnt : Option UInt32) :
    mapFileBlock inode idx mode allocCnt = (do
      match ← rootBlock inode.triplyIndirBlockPtr mode allocCnt with
      | .error failure => pure ⟨failure.status, inode, none, allocCnt⟩
      | .ok _ => fault .undefined) := by
  have hdirect : inodeBlkPtrAmt = 12 := rfl
  have hper : ptrsPerBlk = 1024 := rfl
  rw [fileBlkLimit] at hfar
  rw [mapFileBlock, dif_neg (by omega)]
  dsimp only
  rw [if_neg (by omega), if_neg (by rw [hper]; omega), mapTriply]
  apply bind_congr
  intro result
  cases result with
  | error failure => rfl
  | ok found =>
    dsimp only
    rw [if_pos (by rw [hper]; omega)]

theorem mapFileBlock_far_lookup (inode : Inode) (fs : FsInfo) : mapFileBlock inode idx .lookup none fs =
    if inode.triplyIndirBlockPtr = 0 then .ok (⟨.emptyBlock, inode, none, none⟩, fs) else .error .undefined := by
  rw [mapFileBlock_far hfar, rootBlock, if_pos (show MapMode.lookup ≠ .alloc by decide)]
  split_ifs <;> rfl

theorem mapFileBlock_far_alloc (hmounted : Mounted static fs) (inode : Inode) (allocCnt : Option UInt32) :
    mapFileBlock inode idx .alloc allocCnt fs = .ok (⟨.blockError, inode, none, allocCnt⟩, fs) ∨
      mapFileBlock inode idx .alloc allocCnt fs = .error .undefined := by
  obtain ⟨result, fs₁, hrun, hroot⟩ := rootBlock_alloc_spec hmounted allocCnt inode.triplyIndirBlockPtr
  rw [mapFileBlock_far hfar, run_bind_ok hrun]
  obtain ⟨-, rfl, rfl⟩ | ⟨-, rfl, rfl⟩ | ⟨blockN, -, -, rfl⟩ := hroot
  · exact Or.inl rfl
  · exact Or.inr rfl
  · exact Or.inr rfl

end Far

/-! ### Writing a whole file -/

theorem root_mapped_ne_zero (htree : TreeOk static fs inode) (htriple : inode.root 14 ≠ 0) :
    ∃ j < fileBlkLimit, 1049612 ≤ j ∧ mapped fs.entries inode j ≠ 0 := by
  obtain ⟨o, ho, hne⟩ := exists_find_ne_zero (htree.full 14 (by decide)) htriple
  have hlt : o < 1073741824 := ho
  refine ⟨1049612 + o, by rw [fileBlkLimit]; omega, by omega, ?_⟩
  rw [mapped, show locate (1049612 + o) = (14, o) by
    rw [locate, if_neg (by omega), if_neg (by omega), if_neg (by omega), Nat.add_sub_cancel_left]]
  exact hne

theorem writeInode_stores (hmounted : Mounted static fs) (hsize : inode.sizeLo.toNat ≤ maxSize)
    (hsectors : inode.diskSectors = 0) (buf : Buf) :
    Runs (writeInode buf inode) fs fun result fs' => result.1 = true →
      (∀ i : UInt32, mapFileBlock result.2 i .lookup none fs' =
          .ok (if i.toNat < sizeBlocks inode.sizeLo then
            ⟨.writeSuccess, result.2, some (mapped fs'.entries result.2 i.toNat), none⟩
          else ⟨.emptyBlock, result.2, none, none⟩, fs')) ∧
        (∀ j < sizeBlocks inode.sizeLo, HoldsChunk fs' buf inode.sizeLo j (mapped fs'.entries result.2 j)) ∧
        (refs fs'.entries result.2).Nodup ∧ (∀ b ∈ refs fs'.entries result.2, ¬ fs.Used b) ∧
        (∀ b, fs'.Used b ↔ fs.Used b ∨ b ∈ refs fs'.entries result.2) ∧
        result.2.diskSectors.toNat = 8 * (refs fs'.entries result.2).length := by
  refine (writeInode_spec hmounted buf hsize).mono fun result fs' hresult hsuccess => ?_
  obtain ⟨hfalse, -⟩ | ⟨-, hbody⟩ := hresult
  · rw [hsuccess] at hfalse
    cases hfalse
  have hmounted' := hbody.gain.mounted
  refine ⟨fun i => ?_, hbody.content, hbody.tree.nodup, fun b hb => hbody.gain.trade.fresh b hb List.not_mem_nil,
    fun b => ?_, (hbody.inodeOk hsectors).sectors⟩
  · by_cases hlimit : i.toNat < fileBlkLimit
    · rw [mapFileBlock_lookup_run hmounted' hbody.tree hlimit]
      by_cases hi : i.toNat < sizeBlocks inode.sizeLo
      · rw [if_pos hi, if_neg (hbody.content _ hi).ne_zero]
      · rw [if_neg hi, if_pos (hbody.holes _ hlimit (Nat.le_of_not_lt hi))]
    · have hpast : ¬ i.toNat < sizeBlocks inode.sizeLo := mt lt_fileBlkLimit hlimit
      have htriple : result.2.triplyIndirBlockPtr = 0 := by
        by_contra hne
        obtain ⟨j, hj, hlow, hmapped⟩ := root_mapped_ne_zero hbody.tree hne
        have hle := sizeBlocks_le inode.sizeLo
        exact hmapped (hbody.holes j hj (by omega))
      rw [mapFileBlock_far_lookup (Nat.le_of_not_lt hlimit), if_pos htriple, if_neg hpast]
  · rw [hbody.gain.trade.used]
    simp

def twoBlockFile : Inode := { Inode.zero with sizeLo := 5000 }

theorem writeInode_stores_smallFs :
    ∃ inode fs', writeInode UInt8.ofNat twoBlockFile smallFs = .ok ((true, inode), fs') ∧
      (mapFileBlock inode 1 .lookup none fs').map (fun done => done.1.status) = .ok .writeSuccess ∧
      (mapFileBlock inode 2 .lookup none fs').map (fun done => done.1.status) = .ok .emptyBlock ∧
      fs'.data (mapped fs'.entries inode 1) 3 = 3 ∧ fs'.data (mapped fs'.entries inode 1) 1000 = 0 := by
  have hsize : twoBlockFile.sizeLo.toNat ≤ maxSize := by decide
  obtain ⟨⟨ok, inode⟩, fs', hrun, hstores⟩ := writeInode_stores smallFs_consistent.mounted hsize rfl UInt8.ofNat
  have hok : (writeInode UInt8.ofNat twoBlockFile smallFs).toOption.map (fun done => done.1.1) = some true := by
    decide +kernel
  rw [hrun] at hok
  obtain rfl : ok = true := Option.some.inj hok
  obtain ⟨hlookup, hchunk, -⟩ := hstores rfl
  have hdata := (hchunk 1 (by decide)).data
  refine ⟨inode, fs', hrun, by rw [hlookup]; rfl, by rw [hlookup]; rfl, ?_, ?_⟩
  · rw [hdata 3 (by decide), if_pos (by decide)]
    rfl
  · rw [hdata 1000 (by decide), if_neg (by decide)]

/-! ### Appending -/

theorem appendToInode_appends (hcons : Consistent static fs) (hmark : fs.marked .inode n = true)
    (htype : (fs.record n).type = inodeFileType) (hsize : (fs.record n).sizeLo.toNat + fSize.toNat ≤ maxSize)
    (now : UInt32) (junk buf : Buf) :
    ∃ old, readContents (fs.record n) fs = .ok (old, fs) ∧
      Runs (appendToInode now junk n buf fSize) fs fun result fs' => ∀ inode, result = some inode →
        fs'.record n = inode ∧ readContents inode fs' = .ok (old ++ (List.range fSize.toNat).map buf, fs') ∧
          inode.sizeLo.toNat = (fs.record n).sizeLo.toNat + fSize.toNat ∧
          ∃ adds : List UInt32, adds.Nodup ∧ (∀ b ∈ adds, ¬ fs.Used b) ∧ (∀ b, fs'.Used b ↔ fs.Used b ∨ b ∈ adds) ∧
            inode.diskSectors.toNat = (fs.record n).diskSectors.toNat + 8 * adds.length := by
  have howner := FsInfo.owner_of_file hmark htype
  refine ⟨_, readContents_run hcons.mounted (hcons.inode n howner).tree, ?_⟩
  refine (appendToInode_spec hcons howner hsize now junk buf).mono fun result fs' hresult inode hsome => ?_
  obtain ⟨hnone, -⟩ | ⟨inode', hinode, hextended⟩ := hresult
  · rw [hnone] at hsome
    cases hsome
  obtain rfl : inode' = inode := Option.some.inj (hinode.symm.trans hsome)
  have hrecord := hextended.record
  have howner' : fs'.Owner n := by
    refine FsInfo.owner_of_file (hextended.edited.mark.trans hmark) ?_
    rw [hrecord, hextended.type, htype]
  have hcons' := hextended.edited.consistent
  have htree' := (hcons'.inode n howner').tree
  rw [hrecord] at htree'
  refine ⟨hrecord, ?_, hextended.size, hextended.taken⟩
  have hbytes := hextended.bytes
  rw [hextended.size] at hbytes
  have hkept : ∀ k ∈ List.range (fs.record n).sizeLo.toNat, fs'.byte inode' k = fs.byte (fs.record n) k := by
    intro k hk
    have hk := List.mem_range.mp hk
    rw [hbytes k (by omega), if_pos hk]
  have hadded : ∀ k ∈ List.range fSize.toNat, (fs'.byte inode' ∘ ((fs.record n).sizeLo.toNat + ·)) k = buf k := by
    intro k hk
    have hk := List.mem_range.mp hk
    rw [Function.comp_apply, hbytes _ (by omega), if_neg (by omega), Nat.add_sub_cancel_left]
  rw [readContents_run hcons'.mounted htree', hextended.size, List.range_add, List.map_append, List.map_map,
    List.map_congr_left hkept, List.map_congr_left hadded]

theorem appendToInode_appends_smallFs :
    ∃ inode fs', appendToInode 0 zero 3 (cstr [104, 105]) 2 smallFs = .ok (some inode, fs') ∧
      readContents inode fs' = .ok ([104, 105], fs') := by
  obtain ⟨-, -, hfile⟩ := smallFs_record
  have hsize : (smallFs.record 3).sizeLo.toNat + (2 : UInt32).toNat ≤ maxSize := by
    rw [hfile]
    decide
  obtain ⟨old, hold, result, fs', hrun, happend⟩ := appendToInode_appends smallFs_consistent (by decide)
    (by rw [hfile]; decide) hsize 0 zero (cstr [104, 105])
  have hsome : (appendToInode 0 zero 3 (cstr [104, 105]) 2 smallFs).toOption.map (fun done => done.1.isSome) =
      some true := by
    decide +kernel
  rw [hrun] at hsome
  obtain ⟨inode, rfl⟩ := Option.isSome_iff_exists.mp (Option.some.inj hsome)
  have hempty : old = [] := by
    have hread := readContents_run smallFs_consistent.mounted (smallFs_consistent.inode 3
      (FsInfo.owner_of_file (by decide) (by rw [hfile]; decide))).tree
    rw [hold, hfile] at hread
    injection hread with hpair
    exact congrArg Prod.fst hpair
  have hread := (happend inode rfl).2.1
  rw [hempty] at hread
  exact ⟨inode, fs', hrun, hread⟩

/-! ### A failed call -/

structure SameReads (fs fs' : FsInfo) (n : UInt32) : Prop where
  record : fs'.record n = fs.record n
  lookup : ∀ idx, (mapFileBlock (fs'.record n) idx .lookup none fs').map Prod.fst =
    (mapFileBlock (fs.record n) idx .lookup none fs).map Prod.fst
  contents : ∃ old, readContents (fs.record n) fs = .ok (old, fs) ∧ readContents (fs'.record n) fs' = .ok (old, fs')
  space : SameSpace fs fs'

theorem fillTail_far (hmounted : Mounted static fs) (hlarge : maxSize < inode.sizeLo.toNat) (fSize : UInt32) (buf : Buf) :
    fillTail buf (Append.start inode fSize) fs = .ok (none, fs) ∨
      fillTail buf (Append.start inode fSize) fs = .error .undefined := by
  have hfar : fileBlkLimit ≤ (blocksFor inode.sizeLo - 1).toNat := by
    have hlt := inode.sizeLo.toNat_lt
    have hzero : blocksFor inode.sizeLo = 0 := by
      apply UInt32.toNat_inj.mp
      rw [maxSize] at hlarge
      change (inode.sizeLo.toNat + 4095) % 4294967296 / 4096 = 0
      omega
    rw [hzero]
    decide
  rw [fillTail, fillTailWith]
  dsimp only [Append.start]
  by_cases hzero : inode.triplyIndirBlockPtr = 0
  · have hlookup := mapFileBlock_far_lookup hfar inode fs
    rw [if_pos hzero] at hlookup
    rw [run_bind_ok hlookup]
    dsimp only
    obtain halloc | halloc := mapFileBlock_far_alloc hfar hmounted inode (some 0)
    · rw [run_bind_ok halloc, if_neg (show Status.blockError ≠ .writeSuccess by decide)]
      exact Or.inl rfl
    · exact Or.inr (run_bind_error halloc)
  · have hlookup := mapFileBlock_far_lookup hfar inode fs
    rw [if_neg hzero] at hlookup
    exact Or.inr (run_bind_error hlookup)

theorem appendToInode_far (hcons : Consistent static fs) (hmark : fs.marked .inode n = true)
    (hlarge : maxSize < (fs.record n).sizeLo.toNat) (now fSize : UInt32) (junk buf : Buf) :
    appendToInode now junk n buf fSize fs = .ok (none, fs) ∨
      appendToInode now junk n buf fSize fs = .error .undefined := by
  rw [appendToInode, appendToInodeWith, run_bind_ok (getInode_run hcons.mounted hcons.layout (FsInfo.real_of_marked hmark))]
  dsimp only
  split_ifs with hoverflow haligned
  · exact Or.inl rfl
  · have hmod : (fs.record n).sizeLo.toNat % 4096 = 0 := by
      have := congrArg UInt32.toNat haligned
      rwa [UInt32.toNat_mod] at this
    have hlt := (fs.record n).sizeLo.toNat_lt
    rw [maxSize] at hlarge
    omega
  · obtain hfill | hfill := fillTail_far hcons.mounted hlarge fSize buf
    · rw [run_bind_ok hfill]
      exact Or.inl rfl
    · exact Or.inr (run_bind_error hfill)

theorem SameReads.refl (hcons : Consistent static fs) (howner : fs.Owner n) : SameReads fs fs n := by
  have hcontents := readContents_run hcons.mounted (hcons.inode n howner).tree
  exact ⟨rfl, fun _ => rfl, ⟨_, hcontents, hcontents⟩, fun _ _ _ _ _ => rfl, fun _ _ _ => rfl, fun _ => rfl⟩

theorem Restored.sameReads (hcons : Consistent static fs) (howner : fs.Owner n)
    (hrestored : Restored static fs fs' (fs.record n)) : SameReads fs fs' n := by
  have hmounted := hcons.mounted
  have hmounted' := hrestored.trade.frame.mounted
  have htree := (hcons.inode n howner).tree
  have htree' := hrestored.ok.tree
  have hrecord := hcons.record_eq_of_trade howner hrestored.trade (FsInfo.real_of_marked howner.1)
  refine ⟨hrecord, fun idx => ?_, ⟨_, readContents_run hmounted htree, ?_⟩, ?_⟩
  · rw [hrecord]
    by_cases hidx : idx.toNat < fileBlkLimit
    · rw [mapFileBlock_lookup_run hmounted htree hidx, mapFileBlock_lookup_run hmounted' htree' hidx,
        hrestored.mapped_eq _ hidx]
      rfl
    · have hfar := Nat.le_of_not_lt hidx
      rw [mapFileBlock_far_lookup hfar, mapFileBlock_far_lookup hfar]
      split_ifs <;> rfl
  · rw [hrecord]
    exact readContents_eq hmounted' htree' rfl hrestored.bytes
  · have hframe := hrestored.trade.frame
    exact sameSpace_of_marked hmounted.sound hmounted'.sound hframe.geo (hframe.marked_eq (hrestored.used htree))

theorem appendToInode_failed_append (hcons : Consistent static fs) (hmark : fs.marked .inode n = true)
    (htype : (fs.record n).type = inodeFileType) (now fSize : UInt32) (junk buf : Buf) :
    (∀ fs', appendToInode now junk n buf fSize fs = .ok (none, fs') → SameReads fs fs' n) ∧
      (∀ msg, appendToInode now junk n buf fSize fs ≠ .error (.panic msg)) ∧
      ((fs.record n).sizeLo.toNat ≤ maxSize → ∃ done, appendToInode now junk n buf fSize fs = .ok done) := by
  have howner := FsInfo.owner_of_file hmark htype
  by_cases hlarge : maxSize < (fs.record n).sizeLo.toNat
  · refine ⟨fun fs' hrun => ?_, fun msg hrun => ?_, fun hsmall => absurd hlarge (Nat.not_lt.mpr hsmall)⟩
    · obtain hnone | hstop := appendToInode_far hcons hmark hlarge now fSize junk buf
      · rw [hrun] at hnone
        obtain rfl : fs' = fs := by
          injection hnone with hpair
          exact congrArg Prod.snd hpair
        exact SameReads.refl hcons howner
      · rw [hrun] at hstop
        cases hstop
    · obtain hnone | hstop := appendToInode_far hcons hmark hlarge now fSize junk buf
      · rw [hrun] at hnone
        cases hnone
      · rw [hrun] at hstop
        cases hstop
  have hruns : Runs (appendToInode now junk n buf fSize) fs fun result fs' => result = none → SameReads fs fs' n := by
    by_cases hfits : (fs.record n).sizeLo.toNat + fSize.toNat < 4294967296
    · refine (appendToInode_restores hcons howner (Nat.le_of_not_lt hlarge) hfits now junk buf).mono
        fun result fs' hresult hnone => ?_
      obtain ⟨-, hrestored⟩ | ⟨inode, hsome, -⟩ := hresult
      · exact hrestored.sameReads hcons howner
      · rw [hnone] at hsome
        cases hsome
    · -- the new size overflows, which the first check of the source catches
      have hoverflow : (fs.record n).sizeLo + fSize < (fs.record n).sizeLo := by
        have hlt := fSize.toNat_lt
        have hlt' := (fs.record n).sizeLo.toNat_lt
        rw [UInt32.lt_iff_toNat_lt, UInt32.toNat_add]
        omega
      rw [appendToInode, appendToInodeWith]
      refine Runs.bind_eq (getInode_run hcons.mounted hcons.layout (FsInfo.real_of_marked hmark)) ?_
      dsimp only
      rw [if_pos hoverflow]
      exact Runs.pure fun _ => SameReads.refl hcons howner
  obtain ⟨result, fs', hrun, hsame⟩ := hruns
  refine ⟨fun fs'' hrun' => ?_, fun msg hrun' => ?_, fun _ => ⟨_, hrun⟩⟩
  · rw [hrun] at hrun'
    obtain ⟨rfl, rfl⟩ : result = none ∧ fs' = fs'' := by
      injection hrun' with hpair
      exact ⟨congrArg Prod.fst hpair, congrArg Prod.snd hpair⟩
    exact hsame rfl
  · rw [hrun] at hrun'
    cases hrun'

section Crowded

variable (room : Fin 27)

theorem crowdedFs_geo : (crowdedFs room).geo = smallFs.geo := geo_settle

theorem crowdedFs_record (n : UInt32) : (crowdedFs room).record n = smallFs.record n := by
  have hdata : (crowdedFs room).data = smallFs.data := data_settle (by decide)
  rw [FsInfo.record, FsInfo.record, FsInfo.inodeSlot_of_geo (crowdedFs_geo room), hdata]

theorem crowdedFs_marked_inode {n : UInt32} (hreal : smallFs.geo.Real .inode n) :
    (crowdedFs room).marked .inode n = smallFs.marked .inode n := by
  rw [crowdedFs, marked_settle smallFs_valid (by decide) hreal, if_neg]
  rintro ⟨hkind, -⟩
  cases hkind

theorem crowdedFs_owner {n : UInt32} (hn : (crowdedFs room).Owner n) : smallFs.Owner n := by
  have hreal : smallFs.geo.Real .inode n := crowdedFs_geo room ▸ FsInfo.real_of_marked hn.1
  obtain ⟨hmark, hinline⟩ := hn
  rw [crowdedFs_marked_inode room hreal] at hmark
  rw [crowdedFs_record] at hinline
  exact ⟨hmark, hinline⟩

theorem crowdedFs_owns (n : UInt32) : (crowdedFs room).owns n = smallFs.owns n := by
  rw [FsInfo.owns, FsInfo.owns, crowdedFs_entries, crowdedFs_record]

theorem crowdedFs_consistent : Consistent (crowdedStatic room) (crowdedFs room) where
  mounted := crowdedFs_mounted room
  layout := by
    obtain ⟨hge, hdvd, -, hbook, hapart⟩ := smallFs_layout.of_geo (crowdedFs_geo room)
    refine ⟨hge, hdvd, fun n hn => ?_, hbook, hapart⟩
    rw [FsInfo.inodeSlot_of_geo (crowdedFs_geo room), smallFs_inodeSlot (crowdedFs_geo room ▸ hn)]
    exact ⟨show 4 < 32 - room.val by omega, (by decide : (4 : UInt32) ≠ 5)⟩
  inode n hn := by
    have hsmall := smallFs_consistent.inode n (crowdedFs_owner room hn)
    have howns := smallFs_owns (crowdedFs_owner room hn).1
    rw [crowdedFs_record]
    have hblock : ∀ b ∈ refs (crowdedFs room).entries (smallFs.record n), b = 5 := by
      intro b hb
      rw [crowdedFs_entries] at hb
      change b ∈ smallFs.owns n at hb
      rw [howns] at hb
      split_ifs at hb
      · exact List.mem_singleton.mp hb
      · cases hb
    refine ⟨⟨?_, fun b hb => ?_, fun b hb => ?_, ?_⟩, ?_, ?_⟩
    · rw [crowdedFs_entries]
      exact hsmall.tree.nodup
    · rw [hblock b hb]
      exact crowdedFs_used_five room
    · rw [hblock b hb]
      exact fun hstatic => hstatic.2 rfl
    · rw [crowdedFs_entries]
      exact hsmall.tree.full
    · rw [crowdedFs_entries]
      exact hsmall.short
    · rw [crowdedFs_entries]
      exact hsmall.sectors
  apart m n hm hn hne := by
    rw [crowdedFs_owns, crowdedFs_owns]
    exact smallFs_consistent.apart m n (crowdedFs_owner room hm) (crowdedFs_owner room hn) hne
  covered b hb := by
    have hreal : b < 32 := (crowdedFs_geo room ▸ FsInfo.real_of_marked hb : smallFs.geo.Real .block b)
    by_cases hfive : b = 5
    · refine Or.inr ⟨2, ⟨?_, ?_⟩, ?_⟩
      · rw [crowdedFs_marked_inode room (by decide)]
        decide
      · rw [crowdedFs_record, smallFs_record.2.1]
        decide
      · rw [crowdedFs_owns, smallFs_owns (by decide), hfive]
        exact List.mem_cons_self
    · exact Or.inl ⟨(crowdedFs_used_iff room hreal).mp hb, hfive⟩

end Crowded

/-- The first block of the data is allocated and given back, because there is none for the second. -/
theorem appendToInode_failed_append_crowdedFs : (crowdedFs 1).marked .block 31 = false ∧
    ∃ fs', appendToInode 0 zero 3 zero 5000 (crowdedFs 1) = .ok (none, fs') ∧ SameReads (crowdedFs 1) fs' 3 := by
  have hfails : (appendToInode 0 zero 3 zero 5000 (crowdedFs 1)).toOption.map (fun done => done.1.isNone) =
      some true := by
    decide +kernel
  obtain ⟨hsame, -, hruns⟩ := appendToInode_failed_append (n := 3) (crowdedFs_consistent 1)
    (by rw [crowdedFs_marked_inode 1 (by decide)]; decide) (by rw [crowdedFs_record, smallFs_record.2.2]; decide) 0 5000
    zero zero
  obtain ⟨⟨result, fs'⟩, hrun⟩ := hruns (by rw [crowdedFs_record, smallFs_record.2.2]; decide)
  rw [hrun] at hfails
  obtain rfl : result = none := Option.isNone_iff_eq_none.mp (Option.some.inj hfails)
  exact ⟨by decide +kernel, fs', hrun, hsame fs' hrun⟩

end DeprecatOS
