import DeprecatOS.Proof.Bitmap

/-!
# Bitmaps and free counters over whole runs

Any sequence of allocations and releases keeps the counters of every group and of the superblock, in
memory and on disk, equal to the clear bits they stand for; no allocation hands out a number in use and
none fails while one is free.
-/

namespace DeprecatOS

open Bytes Bits Fault

inductive BitmapOp where
  | allocBlock
  | allocInode
  | freeBlock (blockN : UInt32)
  | freeInode (inodeN : UInt32)

namespace BitmapOp

def exec : BitmapOp → FsM Unit
  | allocBlock => do let _ ← DeprecatOS.allocBlock
  | allocInode => do let _ ← DeprecatOS.allocInode
  | freeBlock blockN => do let _ ← DeprecatOS.freeBlock blockN
  | freeInode inodeN => do let _ ← DeprecatOS.freeInode inodeN

def Allowed (_ : FsInfo) (op : BitmapOp) : Prop := op ≠ freeInode inodeError

end BitmapOp

section Runs

variable {fs s : FsInfo}

theorem Allocated.kept {kind : Kind} {n : UInt32} (hsound : fs.Sound) (hstep : Allocated fs kind n s) :
    s.Sound ∧ s.geo = fs.geo := by
  obtain ⟨-, rfl, -⟩ | ⟨-, -, -, hsound', hview⟩ := hstep
  · exact ⟨hsound, rfl⟩
  · exact ⟨hsound', congrArg View.geo hview⟩

theorem Released.kept {kind : Kind} {n : UInt32} {ok : Bool} (hsound : fs.Sound)
    (hstep : Released fs kind n ok s) : s.Sound ∧ s.geo = fs.geo := by
  obtain ⟨-, -, rfl⟩ | ⟨-, -, -, hsound', hview, -⟩ := hstep
  · exact ⟨hsound, rfl⟩
  · exact ⟨hsound', congrArg View.geo hview⟩

theorem BitmapOp.exec_spec {op : BitmapOp} (hsound : fs.Sound) (hallowed : op.Allowed fs) :
    Runs op.exec fs fun _ fs' => fs'.Sound ∧ fs'.geo = fs.geo := by
  cases op with
  | allocBlock =>
    exact (allocBit_spec hsound).bind fun _ _ hstep => Runs.pure (hstep.kept hsound)
  | allocInode =>
    exact (allocBit_spec hsound).bind fun _ _ hstep => Runs.pure (hstep.kept hsound)
  | freeBlock blockN =>
    exact (freeBlock_spec hsound blockN).bind fun _ _ hstep => Runs.pure (hstep.kept hsound)
  | freeInode inodeN =>
    have hne : inodeN ≠ inodeError := by
      rintro rfl
      exact hallowed rfl
    exact (freeInode_spec hsound hne).bind fun _ _ hstep => Runs.pure (hstep.kept hsound)

/-- In every state that allocations and releases reach from a sound filesystem, bitmaps and counters
agree, both allocators return a number that was free and mark it (or change nothing, all being in use),
and both release functions clear exactly the bit of the number they are given. -/
theorem allocation_runs_sound (hsound : fs.Sound) (hreach : Reach BitmapOp.Allowed BitmapOp.exec fs s) :
    s.Sound ∧ s.geo = fs.geo ∧
      Runs allocBlock s (Allocated s .block) ∧ Runs allocInode s (Allocated s .inode) ∧
      (∀ n, Runs (freeBlock n) s (Released s .block n)) ∧
      (∀ n, n ≠ inodeError → Runs (freeInode n) s (Released s .inode n)) := by
  obtain ⟨hsound', hgeo⟩ : s.Sound ∧ s.geo = fs.geo := by
    refine hreach.invariant (motive := fun s => s.Sound ∧ s.geo = fs.geo) ⟨hsound, rfl⟩ ?_
    intro mid op hmid hallowed
    refine (BitmapOp.exec_spec hmid.1 hallowed).mono fun _ s' hkept => ?_
    exact ⟨hkept.1, hkept.2.trans hmid.2⟩
  exact ⟨hsound', hgeo, allocBit_spec hsound', allocBit_spec hsound',
    fun n => freeBlock_spec hsound' n, fun n hn => freeInode_spec hsound' hn⟩

end Runs

/-! ### A small filesystem -/

def smallSprblk : Buf := store32 (store32 (store32 (store32 zero 0 32) 4 32) 12 26) 16 29

def smallBgdt : Buf :=
  store16 (store16 (store16 (store32 (store32 (store32 zero 0 2) 4 3) 8 4) 12 26) 14 29) 16 1

def smallRoot : Inode :=
  { Inode.zero with
    typeAndPermsLo := 0x4000
    sizeLo := 4096
    hardLinkCnt := 2
    diskSectors := 8
    dirBlockPtr := Function.update (fun _ => 0) 0 5 }

def smallFile : Inode := { Inode.zero with typeAndPermsLo := 0x8000, hardLinkCnt := 1 }

def smallRecord (buf : Buf) (off : Nat) (inodeN : UInt32) (recLen : UInt16)
    (nameLen type first second : UInt8) : Buf :=
  let buf := store16 (store32 buf off inodeN) (off + 4) recLen
  store8 (store8 (store8 (store8 buf (off + 6) nameLen) (off + 7) type) (off + 8) first) (off + 9) second

def smallDisk (b : UInt32) : Buf :=
  if b = 0 then fun k => if 1024 ≤ k ∧ k < 2048 then smallSprblk (k - 1024) else 0
  else if b = bgdtBlkN then smallBgdt
  else if b = 2 then fun k => if k = 0 then 0x3F else if k < 4 then 0 else 0xFF
  else if b = 3 then fun k => if k = 0 then 0x07 else if k < 4 then 0 else 0xFF
  else if b = 4 then smallFile.store (smallRoot.store zero 128) 256
  -- The entries ".", ".." and "f".
  else if b = 5 then
    smallRecord (smallRecord (smallRecord zero 0 2 12 1 2 46 0) 12 2 12 2 2 46 46) 24 3 4072 1 1 102 0
  else zero

/-- One group of 32 blocks and 32 inodes: superblock, descriptors, two bitmaps, the inode table and the
root directory, with one empty file in it. -/
def smallFs : FsInfo where
  disk := smallDisk
  sprblkBuf := smallSprblk
  bgdtBuf := smallBgdt
  sectorCount := 256
  inodeSize := 128
  inodesPerGrp := 32
  blksPerGrp := 32
  ngroups := 1
  mountpoint := 0

theorem smallFs_valid : smallFs.geo.Valid where
  perGrp_pos kind := by cases kind <;> decide
  perGrp_le kind := by cases kind <;> decide
  inodesPerGrp_dvd := by decide
  superBlockNum_eq := by decide
  ngroups_eq := by decide
  ngroups_le := by decide
  inodeCnt_eq := by decide
  bitmapAddr_ge kind := by cases kind <;> decide
  bitmapAddr_lt kind := by cases kind <;> decide
  bitmapAddr_holds kind := by
    unfold Geo.Holds
    cases kind <;> decide
  bitmapAddr_inj := by
    intro kind kind'
    cases kind <;> cases kind' <;> decide

theorem smallFs_agree : smallFs.Agree where
  cnt kind := by
    cases kind with
    | inode => decide
    | block =>
      intro g hg
      obtain rfl : g = 0 := by
        change g < 1 at hg
        omega
      change _ = clearBits (smallDisk 2) (8 * 4096)
      rw [clearBits_eq_of_set (m := 32) (by omega)]
      · decide
      · intro i hlow _
        apply bit_of_byte_full
        change (if i / 8 = 0 then _ else if i / 8 < 4 then _ else _) = _
        rw [if_neg (by omega), if_neg (by omega)]
  total kind := by cases kind <;> decide
  superblk k hk := by
    change (if 1024 ≤ 1024 + k ∧ 1024 + k < 2048 then _ else _) = _
    rw [if_pos (by omega), Nat.add_sub_cancel_left]
    rfl
  bgdt k _ := rfl
  first kind _ := by cases kind <;> decide
  padding := by
    intro g hg i _ hpast
    have hg0 : g = 0 := by
      change g < 1 at hg
      omega
    subst hg0
    change 32 ≤ i ∨ 32 ≤ 0 * 32 + i at hpast
    apply bit_of_byte_full
    change (if i / 8 = 0 then _ else if i / 8 < 4 then _ else _) = _
    rw [if_neg (by omega), if_neg (by omega)]

theorem smallFs_sound : smallFs.Sound := ⟨smallFs_valid, smallFs_agree⟩

/-- An inode and a block are allocated; the block is released, and released once more. -/
def allocAndFree : List BitmapOp := [.allocInode, .allocBlock, .freeBlock 6, .freeBlock 6]

theorem allocation_runs_sound_smallFs : ∃ s, execAll BitmapOp.exec allocAndFree smallFs = .ok ((), s) ∧
    s.marked .inode 4 = true ∧ s.unallocTotal .inode = 28 ∧ s.marked .block 6 = false ∧ s.unallocTotal .block = 26 ∧
    s.Sound ∧ Runs allocBlock s (Allocated s .block) ∧ Runs allocInode s (Allocated s .inode) ∧
      (∀ n, Runs (freeBlock n) s (Released s .block n)) := by
  have heval : (execAll BitmapOp.exec allocAndFree smallFs).toOption.map (fun done =>
      (done.2.marked .inode 4, done.2.unallocTotal .inode, done.2.marked .block 6, done.2.unallocTotal .block)) =
      some (true, 28, false, 26) := by
    decide +kernel
  obtain ⟨⟨⟨⟩, s⟩, hrun, hresult⟩ := eq_ok_of_toOption heval
  simp only [Prod.mk.injEq] at hresult
  have hreach : Reach BitmapOp.Allowed BitmapOp.exec smallFs s :=
    .of_execAll (by simp [allocAndFree, BitmapOp.Allowed]) hrun
  obtain ⟨hsound, -, hallocBlock, hallocInode, hfreeBlock, -⟩ := allocation_runs_sound smallFs_sound hreach
  exact ⟨s, hrun, hresult.1, hresult.2.1, hresult.2.2.1, hresult.2.2.2, hsound, hallocBlock, hallocInode, hfreeBlock⟩

end DeprecatOS
