import DeprecatOS.Partition
import DeprecatOS.Proof.ReadChunk

/-!
# Accepted partitions

A partition that `fill_partition_entry` accepts lies inside its drive, so a read or a write of it either
runs into the end of the partition or moves the sectors it names, counted from the start of the drive.
The number of the first sector of a block is a product in 32 bits, and of the geometry in the superblock
nothing is tested: both have inputs on which they go wrong, and these are worked out exactly.
-/

namespace DeprecatOS

open Bytes Fault

/-! ### Sectors of a partition -/

theorem Drives.drive?_cases {drives : Drives} {magic : UInt8} {drive : AtaDrive}
    (hdrive : drives.drive? magic = some drive) :
    (magic = ataMaster ∧ drive = drives.master) ∨ (magic ≠ ataMaster ∧ magic = ataSlave ∧ drive = drives.slave) := by
  rw [Drives.drive?] at hdrive
  split at hdrive
  · next hmaster => exact .inl ⟨hmaster, (Option.some.inj hdrive).symm⟩
  · next hmaster =>
    split at hdrive
    · next hslave => exact .inr ⟨hmaster, hslave, (Option.some.inj hdrive).symm⟩
    · cases hdrive

theorem Drives.identifyMagic_of_drive? {drives : Drives} {magic : UInt8} {drive : AtaDrive}
    (hdrive : drives.drive? magic = some drive) : drive.identifyMagic = magic := by
  obtain ⟨rfl, rfl⟩ | ⟨-, rfl, rfl⟩ := Drives.drive?_cases hdrive
  · exact drives.master_magic
  · exact drives.slave_magic

@[simp]
theorem Drives.drive?_put {drives : Drives} {magic : UInt8} {drive : AtaDrive}
    (hdrive : drives.drive? magic = some drive) (lba count : Nat) (buf : Buf) :
    (drives.put magic lba count buf).drive? magic = some (drive.put lba count buf) := by
  obtain ⟨rfl, rfl⟩ | ⟨hne, rfl, rfl⟩ := Drives.drive?_cases hdrive
  · rw [Drives.put, if_pos rfl, Drives.drive?, if_pos rfl]
  · rw [Drives.put, if_neg hne, Drives.drive?, if_neg hne, if_pos rfl]

/-- The sectors from `start` on, `count` of them, are a partition of the drive that `magic` names. -/
structure PartOf (drives : Drives) (magic : UInt8) (drive : AtaDrive) (start count : UInt64) : Prop where
  found : drives.drive? magic = some drive
  start_lt : start.toNat < 2 ^ 32
  count_lt : count.toNat < 2 ^ 32
  inDrive : start.toNat + count.toNat ≤ drive.lbaSectorCount.toNat

section

variable {drives : Drives} {magic : UInt8} {drive : AtaDrive} {start count lba : UInt64} {n : UInt16}

theorem toNat_lba_add (hlba : lba.toNat < 2 ^ 33) : (lba + n.toUInt64).toNat = lba.toNat + n.toNat := by
  have hn := n.toNat_lt
  rw [UInt64.toNat_add, UInt16.toNat_toUInt64]
  omega

theorem PartOf.reaches (hpart : PartOf drives magic drive start count) (hin : lba.toNat + n.toNat ≤ count.toNat) :
    ¬ count < lba + n.toUInt64 ∧ ¬ drive.lbaSectorCount < start + lba + n.toUInt64 ∧
      portLba (start + lba) = start.toNat + lba.toNat := by
  have hstart := hpart.start_lt
  have hcount := hpart.count_lt
  have hend := hpart.inDrive
  have hsum : (start + lba).toNat = start.toNat + lba.toNat := by
    rw [UInt64.toNat_add]
    omega
  refine ⟨?_, ?_, ?_⟩
  · rw [UInt64.lt_iff_toNat_lt, toNat_lba_add (by omega)]
    omega
  · rw [UInt64.lt_iff_toNat_lt, toNat_lba_add (by omega)]
    omega
  · rw [portLba, hsum]
    omega

theorem PartOf.read_in (hpart : PartOf drives magic drive start count) (hin : lba.toNat + n.toNat ≤ count.toNat)
    (buf : Buf) : ataRead48Part magic start count lba n buf drives =
      .ok (drive.fetch (start.toNat + lba.toNat) n.toNat buf, drives) := by
  obtain ⟨hpartLen, hdriveLen, hport⟩ := hpart.reaches hin
  rw [ataRead48Part, if_neg hpartLen, ataRead48, run_bind_ok (run_get drives), hpart.found]
  dsimp only
  rw [if_neg hdriveLen, hport]
  rfl

theorem PartOf.write_in (hpart : PartOf drives magic drive start count) (hin : lba.toNat + n.toNat ≤ count.toNat)
    (buf : Buf) : ataWrite48Part magic start count lba n buf drives =
      .ok ((), drives.put magic (start.toNat + lba.toNat) n.toNat buf) := by
  obtain ⟨hpartLen, hdriveLen, hport⟩ := hpart.reaches hin
  rw [ataWrite48Part, if_neg hpartLen, ataWrite48, run_bind_ok (run_get drives), hpart.found]
  dsimp only
  rw [if_neg hdriveLen, hport]
  rfl

theorem ataRead48Part_out (hlba : lba.toNat < 2 ^ 33) (hout : count.toNat < lba.toNat + n.toNat) (buf : Buf) :
    ataRead48Part magic start count lba n buf drives = .error boundsPanic := by
  have hpartLen : count < lba + n.toUInt64 := by
    rw [UInt64.lt_iff_toNat_lt, toNat_lba_add hlba]
    exact hout
  rw [ataRead48Part, if_pos hpartLen]
  rfl

theorem ataWrite48Part_out (hlba : lba.toNat < 2 ^ 33) (hout : count.toNat < lba.toNat + n.toNat) (buf : Buf) :
    ataWrite48Part magic start count lba n buf drives = .error boundsPanic := by
  have hpartLen : count < lba + n.toUInt64 := by
    rw [UInt64.lt_iff_toNat_lt, toNat_lba_add hlba]
    exact hout
  rw [ataWrite48Part, if_pos hpartLen]
  rfl

theorem PartOf.put (hpart : PartOf drives magic drive start count) (lba n : Nat) (buf : Buf) :
    PartOf (drives.put magic lba n buf) magic (drive.put lba n buf) start count where
  found := Drives.drive?_put hpart.found lba n buf
  start_lt := hpart.start_lt
  count_lt := hpart.count_lt
  inDrive := hpart.inDrive

end

theorem AtaDrive.fetch_put_of_disjoint (drive : AtaDrive) {lba lba' n n' : Nat} (buf old : Buf)
    (hdisjoint : lba + n ≤ lba' ∨ lba' + n' ≤ lba) :
    (drive.put lba n buf).fetch lba' n' old = drive.fetch lba' n' old := by
  funext k
  rw [fetch, fetch]
  split_ifs with hk
  · rw [bytesPerSector] at hk ⊢
    have hoff : ¬ (lba ≤ lba' + k / 512 ∧ lba' + k / 512 < lba + n) := by omega
    rw [AtaDrive.put]
    dsimp only
    rw [if_neg hoff]
  · rfl

theorem AtaDrive.fetch_put_self (drive : AtaDrive) {lba n k : Nat} (buf old : Buf) (hk : k < n * 512) :
    (drive.put lba n buf).fetch lba n old k = buf k := by
  rw [fetch, if_pos (by rw [bytesPerSector]; exact hk), bytesPerSector, AtaDrive.put]
  dsimp only
  rw [if_pos (by omega), bytesPerSector]
  rw [show (lba + k / 512 - lba) * 512 + k % 512 = k by omega]

/-! ### Blocks -/

namespace FsEntry

variable {drives : Drives} {magic : UInt8} {drive : AtaDrive} {entry : FsEntry} {b c : UInt32}

/-- What `fill_partition_entry` leaves in the slot of a partition that it accepts. -/
structure Accepted (entry : FsEntry) (drives : Drives) (magic : UInt8) (drive : AtaDrive) : Prop where
  pointer : entry.drive = some magic
  part : PartOf drives magic drive entry.startLba entry.sectorCount

theorem toNat_blockLba (b : UInt32) : (blockLba b).toNat = 8 * b.toNat % 2 ^ 32 := by
  rw [blockLba, UInt32.toNat_toUInt64, UInt32.toNat_mul, show sectorsPerBlk.toNat = 8 by decide, Nat.mul_comm]

def NamesBlock (entry : FsEntry) (b : UInt32) : Prop :=
  b.toNat < 2 ^ 29 ∨ entry.sectorCount.toNat < 8 * b.toNat % 2 ^ 32 + 8

instance (entry : FsEntry) (b : UInt32) : Decidable (entry.NamesBlock b) :=
  inferInstanceAs (Decidable (_ ∨ _))

theorem readBlock_cases (hacc : entry.Accepted drives magic drive) (b : UInt32) (buf : Buf) :
    (entry.sectorCount.toNat < 8 * b.toNat % 2 ^ 32 + 8 ∧
        entry.readBlock b buf drives = .error boundsPanic ∧ entry.writeBlock b buf drives = .error boundsPanic) ∨
      (8 * b.toNat % 2 ^ 32 + 8 ≤ entry.sectorCount.toNat ∧
        entry.readBlock b buf drives =
          .ok (drive.fetch (entry.startLba.toNat + 8 * b.toNat % 2 ^ 32) 8 buf, drives) ∧
        entry.writeBlock b buf drives =
          .ok ((), drives.put magic (entry.startLba.toNat + 8 * b.toNat % 2 ^ 32) 8 buf)) := by
  have hlba := toNat_blockLba b
  rw [readBlock, writeBlock, hacc.pointer]
  dsimp only
  by_cases hin : 8 * b.toNat % 2 ^ 32 + 8 ≤ entry.sectorCount.toNat
  · right
    have hin' : (blockLba b).toNat + (8 : UInt16).toNat ≤ entry.sectorCount.toNat := by
      rw [hlba]
      exact hin
    rw [hacc.part.read_in hin', hacc.part.write_in hin', hlba]
    exact ⟨hin, rfl, rfl⟩
  · left
    have hlt : (blockLba b).toNat < 2 ^ 33 := by omega
    have hout : entry.sectorCount.toNat < (blockLba b).toNat + (8 : UInt16).toNat := by
      rw [hlba]
      exact Nat.not_le.mp hin
    exact ⟨Nat.not_le.mp hin, ataRead48Part_out hlt hout buf, ataWrite48Part_out hlt hout buf⟩

/-- `read_block` and `write_block` panic or move the eight sectors that the block number names, all of them in the
partition, and the write changes what is read for no other block number that names its sectors. -/
structure Addresses (entry : FsEntry) (drives : Drives) (magic : UInt8) (drive : AtaDrive) (b : UInt32) : Prop where
  read : ∀ buf, entry.readBlock b buf drives = .error boundsPanic ∨
    (8 * b.toNat + 8 ≤ entry.sectorCount.toNat ∧
      entry.readBlock b buf drives = .ok (drive.fetch (entry.startLba.toNat + 8 * b.toNat) 8 buf, drives))
  write : ∀ buf, entry.writeBlock b buf drives = .error boundsPanic ∨
    (8 * b.toNat + 8 ≤ entry.sectorCount.toNat ∧
      entry.writeBlock b buf drives = .ok ((), drives.put magic (entry.startLba.toNat + 8 * b.toNat) 8 buf))
  keeps : ∀ c, c ≠ b → entry.NamesBlock c → ∀ buf old drives', entry.writeBlock b buf drives = .ok ((), drives') →
    (entry.readBlock c old drives').map Prod.fst = (entry.readBlock c old drives).map Prod.fst

theorem Accepted.put (hacc : entry.Accepted drives magic drive) (lba n : Nat) (buf : Buf) :
    entry.Accepted (drives.put magic lba n buf) magic (drive.put lba n buf) where
  pointer := hacc.pointer
  part := hacc.part.put lba n buf

theorem NamesBlock.eq_of_in (hb : entry.NamesBlock b) (hin : 8 * b.toNat % 2 ^ 32 + 8 ≤ entry.sectorCount.toNat) :
    8 * b.toNat % 2 ^ 32 = 8 * b.toNat := by
  rw [NamesBlock] at hb
  omega

theorem readBlock_put (hacc : entry.Accepted drives magic drive) (hb : entry.NamesBlock b) (hc : entry.NamesBlock c)
    (hne : c ≠ b) (hin : 8 * b.toNat % 2 ^ 32 + 8 ≤ entry.sectorCount.toNat) (buf old : Buf) :
    (entry.readBlock c old (drives.put magic (entry.startLba.toNat + 8 * b.toNat % 2 ^ 32) 8 buf)).map Prod.fst =
      (entry.readBlock c old drives).map Prod.fst := by
  have hne' : c.toNat ≠ b.toNat := fun heq => hne (UInt32.toNat_inj.mp heq)
  have hbval := hb.eq_of_in hin
  obtain ⟨hout, hread, -⟩ | ⟨hinc, hread, -⟩ := readBlock_cases hacc c old
  · obtain ⟨-, hread', -⟩ | ⟨hin', -⟩ :=
      readBlock_cases (hacc.put (entry.startLba.toNat + 8 * b.toNat % 2 ^ 32) 8 buf) c old
    · rw [hread, hread']
    · omega
  · have hcval := hc.eq_of_in hinc
    obtain ⟨hout', -⟩ | ⟨-, hread', -⟩ :=
      readBlock_cases (hacc.put (entry.startLba.toNat + 8 * b.toNat % 2 ^ 32) 8 buf) c old
    · omega
    · rw [hread, hread', drive.fetch_put_of_disjoint buf old (by omega)]
      rfl

/-- A block number addresses the sectors it names unless eight times the number wraps around in 32 bits to sectors of
the partition. -/
theorem addresses_iff (hacc : entry.Accepted drives magic drive) (b : UInt32) :
    entry.Addresses drives magic drive b ↔
      b.toNat < 2 ^ 29 ∨ entry.sectorCount.toNat < 8 * b.toNat % 2 ^ 32 + 8 := by
  have hcount := hacc.part.count_lt
  constructor
  · intro haddr
    obtain ⟨hout, -⟩ | ⟨-, hread, -⟩ := readBlock_cases hacc b Bytes.zero
    · exact .inr hout
    · obtain hpanic | ⟨hin, -⟩ := haddr.read Bytes.zero
      · rw [hread] at hpanic
        cases hpanic
      · left
        omega
  · intro hb
    have hb' : entry.NamesBlock b := hb
    refine ⟨fun buf => ?_, fun buf => ?_, fun c hne hc buf old drives' hwrite => ?_⟩
    · obtain ⟨-, hread, -⟩ | ⟨hin, hread, -⟩ := readBlock_cases hacc b buf
      · exact .inl hread
      · have hval := hb'.eq_of_in hin
        rw [hval] at hin hread
        exact .inr ⟨hin, hread⟩
    · obtain ⟨-, -, hwrite⟩ | ⟨hin, -, hwrite⟩ := readBlock_cases hacc b buf
      · exact .inl hwrite
      · have hval := hb'.eq_of_in hin
        rw [hval] at hin hwrite
        exact .inr ⟨hin, hwrite⟩
    · obtain ⟨-, -, hpanic⟩ | ⟨hin, -, hwrite'⟩ := readBlock_cases hacc b buf
      · rw [hpanic] at hwrite
        cases hwrite
      · rw [hwrite'] at hwrite
        obtain rfl : _ = drives' := (Prod.mk.inj (Except.ok.inj hwrite)).2
        exact readBlock_put hacc hb' hc hne hin buf old

def blankDrive (magic : UInt8) : AtaDrive where
  supportsRead48 := true
  identifyMagic := magic
  lbaSectorCount := 4096
  sectors := fun _ => Bytes.zero

def blankDrives : Drives where
  master := blankDrive ataMaster
  slave := blankDrive ataSlave
  master_magic := rfl
  slave_magic := rfl

def blankEntry : FsEntry :=
  { FsEntry.zero with drive := some ataMaster, startLba := 2048, sectorCount := 1024 }

theorem blankEntry_accepted : blankEntry.Accepted blankDrives ataMaster (blankDrive ataMaster) where
  pointer := rfl
  part := ⟨rfl, by decide, by decide, by decide⟩

theorem blankEntry_addresses_last : blankEntry.Addresses blankDrives ataMaster (blankDrive ataMaster) 127 :=
  (addresses_iff blankEntry_accepted 127).mpr (.inl (by decide))

theorem writeBlock_wraps :
    (blankEntry.readBlock 0 Bytes.zero blankDrives).toOption.map (fun run => run.1 0) = some 0 ∧
      ((blankEntry.writeBlock 0x20000000 fun _ => 1) blankDrives).toOption.bind
        (fun run => (blankEntry.readBlock 0 Bytes.zero run.2).toOption.map fun run => run.1 0) = some 1 := by
  decide

/-! ### The partition as a filesystem -/

/-- The state of the filesystem on the partition, for a partition that was read from `drive`. -/
def fsInfo (entry : FsEntry) (drive : AtaDrive) : FsInfo where
  disk := fun g => drive.fetch (entry.startLba.toNat + 8 * g.toNat) 8 Bytes.zero
  sprblkBuf := entry.sprblkBuf
  bgdtBuf := entry.bgdtBuf
  sectorCount := entry.sectorCount.toNat
  inodeSize := entry.inodeSize
  inodesPerGrp := entry.inodesPerGrp
  blksPerGrp := entry.blksPerGrp
  ngroups := entry.ngroups
  mountpoint := entry.mountpoint

theorem toNat_group (b : UInt32) : (b * sectorsPerBlk / sectorsPerBlk).toNat * 8 = 8 * b.toNat % 2 ^ 32 := by
  rw [UInt32.toNat_div, UInt32.toNat_mul, show sectorsPerBlk.toNat = 8 by decide]
  omega

/-- The filesystem holds the bytes of the partition's blocks. -/
structure Mirrors (entry : FsEntry) (magic : UInt8) (drives : Drives) (fs : FsInfo) : Prop where
  accepted : ∃ drive, entry.Accepted drives magic drive ∧
    ∀ g : UInt32, ∀ k < blockSize, (entry.fsInfo drive).disk g k = fs.disk g k
  sectorCount : fs.sectorCount = entry.sectorCount.toNat

end FsEntry

inductive BlockCall where
  | read (b : UInt32) (old : Buf)
  | write (b : UInt32) (buf : Buf)

namespace BlockCall

def answer (buf : Buf) : List UInt8 := (List.range blockSize).map buf

def onDrive (entry : FsEntry) : BlockCall → Prog Stop Drives (List UInt8)
  | read b old => answer <$> entry.readBlock b old
  | write b buf => (fun _ => []) <$> entry.writeBlock b buf

def onFs : BlockCall → FsM (List UInt8)
  | read b _ => answer <$> readBlock b
  | write b buf => (fun _ => []) <$> writeBlock b buf

variable {entry : FsEntry} {magic : UInt8}

theorem simulates (call : BlockCall) : Simulates (entry.Mirrors magic) (call.onDrive entry) call.onFs := by
  rintro drives fs ⟨⟨drive, hacc, hdisk⟩, hcount⟩
  have hlba : ∀ b : UInt32, (b * sectorsPerBlk).toNat = 8 * b.toNat % 2 ^ 32 := fun b => by
    rw [UInt32.toNat_mul, show sectorsPerBlk.toNat = 8 by decide, Nat.mul_comm]
  cases call with
  | read b old =>
    obtain ⟨hout, hread, -⟩ | ⟨hin, hread, -⟩ := FsEntry.readBlock_cases hacc b old
    · have hout' : ¬ fs.InPartition b := by
        rw [FsInfo.InPartition, hlba, hcount]
        exact Nat.not_le.mpr hout
      exact .inl ⟨boundsPanic, run_map_error hread, run_map_error (readBlock_out hout')⟩
    · have hin' : fs.InPartition b := by
        rw [FsInfo.InPartition, hlba, hcount]
        exact hin
      have hanswer : answer (drive.fetch (entry.startLba.toNat + 8 * b.toNat % 2 ^ 32) 8 old) =
          answer (fs.sectors b) := by
        rw [answer, answer]
        apply List.map_congr_left
        intro k hk
        have hk := List.mem_range.mp hk
        have hlt : k < 8 * bytesPerSector := by
          rw [blockSize] at hk
          rw [bytesPerSector]
          omega
        rw [FsInfo.sectors, ← hdisk _ k hk, ← FsEntry.toNat_group, Nat.mul_comm _ 8]
        dsimp only [FsEntry.fsInfo]
        rw [AtaDrive.fetch, AtaDrive.fetch, if_pos hlt, if_pos hlt]
      have hfs := run_map_ok (f := answer) (readBlock_in hin')
      rw [← hanswer] at hfs
      exact .inr ⟨_, _, _, run_map_ok hread, hfs, ⟨drive, hacc, hdisk⟩, hcount⟩
  | write b buf =>
    obtain ⟨hout, -, hwrite⟩ | ⟨hin, -, hwrite⟩ := FsEntry.readBlock_cases hacc b buf
    · refine .inl ⟨boundsPanic, run_map_error hwrite, run_map_error ?_⟩
      rw [writeBlock, run_bind_ok (run_get _), if_pos (by rw [hlba, hcount]; exact hout)]
      rfl
    · have hfs : writeBlock b buf fs = .ok ((), { fs with
          disk := Function.update fs.disk (b * sectorsPerBlk / sectorsPerBlk) buf }) := by
        rw [writeBlock, run_bind_ok (run_get _), if_neg (by rw [hlba, hcount]; exact Nat.not_lt.mpr hin)]
        rfl
      refine .inr ⟨_, _, _, run_map_ok hwrite, run_map_ok hfs, ⟨_, hacc.put _ 8 buf, fun g k hk => ?_⟩, hcount⟩
      have hgroup := FsEntry.toNat_group b
      have hold := hdisk g k hk
      rw [blockSize] at hk
      dsimp only [FsEntry.fsInfo] at hold ⊢
      by_cases hg : g = b * sectorsPerBlk / sectorsPerBlk
      · subst hg
        rw [Function.update_self, Nat.mul_comm 8 (b * sectorsPerBlk / sectorsPerBlk).toNat, hgroup,
          drive.fetch_put_self _ _ (by omega)]
      · have hne : g.toNat ≠ (b * sectorsPerBlk / sectorsPerBlk).toNat := fun heq => hg (UInt32.toNat_inj.mp heq)
        rw [Function.update_of_ne hg, drive.fetch_put_of_disjoint _ _ (by omega), hold]

end BlockCall

/-! ### What the boot sector offers -/

namespace AtaDrive

def mbr (drive : AtaDrive) : Buf := drive.fetch 0 1 zero

def entryOff (part : Nat) : Nat := 446 + 16 * (part % partsPerDrive)

def partType (drive : AtaDrive) (part : Nat) : UInt8 := drive.mbr (entryOff part + 4)

def partStart (drive : AtaDrive) (part : Nat) : UInt32 := load32 drive.mbr (entryOff part + 8)

def partCount (drive : AtaDrive) (part : Nat) : UInt32 := load32 drive.mbr (entryOff part + 12)

/-- The boot sector is one, and its entry is for a Linux partition inside the drive. -/
structure Offers (drive : AtaDrive) (part : Nat) : Prop where
  read48 : drive.supportsRead48 = true
  size : 1 ≤ drive.lbaSectorCount.toNat
  signature : drive.mbr 510 = 0x55 ∧ drive.mbr 511 = 0xAA
  type : drive.partType part = 0x83
  nonempty : drive.partCount part ≠ 0
  inDrive : (drive.partStart part).toNat + (drive.partCount part).toNat ≤ drive.lbaSectorCount.toNat

def sprblk (drive : AtaDrive) (part : Nat) (old : Buf) : Buf :=
  drive.fetch ((drive.partStart part).toNat + 2) 2 old

end AtaDrive

structure IsExt2 (sprblk : Buf) : Prop where
  signature : superExt2Signature sprblk = 0xEF53
  blockSize : superBlockSizeAdjusted sprblk = 2
  required : superReqFeaturesPresent sprblk &&& ~~~0x2 = 0
  readOnly : superFeaturesUnsupportRo sprblk &&& ~~~0x3 = 0

/-- A geometry in which every group has a descriptor and every block has its sectors. -/
structure SoundGeometry (sprblk : Buf) (sectorCount : Nat) : Prop where
  blocksPerGroup : superBlocksPerGroup sprblk ≠ 0
  inodesPerGroup : superInodesPerGroup sprblk ≠ 0
  groups : (superBlockCnt sprblk).toNat ≤ 128 * (superBlocksPerGroup sprblk).toNat
  inodeSize : 128 ≤ (superInodeSize sprblk).toNat ∧ (superInodeSize sprblk).toNat ≤ 4096
  blocks : (superBlockCnt sprblk).toNat * 8 ≤ sectorCount

structure FsEntry.Usable (entry : FsEntry) (drives : Drives) : Prop where
  inDrive : ∃ magic drive, entry.Accepted drives magic drive
  blksPerGrp : 0 < entry.blksPerGrp.toNat
  inodesPerGrp : 0 < entry.inodesPerGrp.toNat
  ngroups : entry.ngroups.toNat ≤ 128
  inodeSize : 128 ≤ entry.inodeSize.toNat ∧ entry.inodeSize.toNat ≤ 4096
  blocks : (superBlockCnt entry.sprblkBuf).toNat * 8 ≤ entry.sectorCount.toNat

def tablePanics : List Stop :=
  [.panic "KERNEL PANIC: master drive has no MBR", .panic "KERNEL PANIC: master drive has a bad MBR signature",
    .panic "KERNEL PANIC: LBA OUT OF BOUNDS"]

/-- A filled slot is empty or usable, and the kernel only stops for want of a partition table. -/
def SoundlyFilled (drives : Drives) : Except Stop (FsEntry × Drives) → Prop
  | .ok (entry, _) => entry.sectorCount = 0 ∨ entry.Usable drives
  | .error stop => stop ∈ tablePanics

namespace FsEntry

variable {drives : Drives} {magic : UInt8} {drive : AtaDrive} {entry : FsEntry} {part : Nat}

theorem soundlyFilled_skip (entry : FsEntry) (drives : Drives) :
    SoundlyFilled drives ((pure entry.skip : Prog Stop Drives FsEntry) drives) :=
  .inl rfl

theorem ngroups_le {blockCnt perGroup : UInt32} (hpos : perGroup ≠ 0) (hcnt : blockCnt.toNat < 2 ^ 29) :
    ((blockCnt + perGroup - 1) / perGroup).toNat ≤ 128 ↔ blockCnt.toNat ≤ 128 * perGroup.toNat := by
  have hper := perGroup.toNat_lt
  have hpos' : 0 < perGroup.toNat := Nat.pos_of_ne_zero fun hzero => hpos (UInt32.toNat_inj.mp hzero)
  have hsum : (blockCnt + perGroup - 1).toNat = (blockCnt.toNat + perGroup.toNat - 1) % 2 ^ 32 := by
    rw [UInt32.toNat_sub, UInt32.toNat_add, UInt32.toNat_one]
    omega
  rw [UInt32.toNat_div, hsum, ← Nat.lt_succ_iff, Nat.div_lt_iff_lt_mul hpos']
  by_cases hwrap : blockCnt.toNat + perGroup.toNat - 1 < 2 ^ 32
  · rw [Nat.mod_eq_of_lt hwrap]
    omega
  · omega

theorem not_soundlyFilled_undefined (drives : Drives) : ¬ SoundlyFilled drives (.error .undefined) := by
  intro hsound
  simp [SoundlyFilled, tablePanics] at hsound

theorem not_soundlyFilled_bounds (drives : Drives) : ¬ SoundlyFilled drives (.error boundsPanic) := by
  intro hsound
  simp [SoundlyFilled, tablePanics, boundsPanic] at hsound

theorem fillGeometry_sound (hacc : entry.Accepted drives magic drive) (hcount : entry.sectorCount ≠ 0) :
    SoundlyFilled drives (entry.fillGeometry drives) ↔ SoundGeometry entry.sprblkBuf entry.sectorCount.toNat := by
  have hlt := hacc.part.count_lt
  rw [fillGeometry]
  by_cases hzero : superBlocksPerGroup entry.sprblkBuf = 0
  · rw [if_pos hzero]
    constructor
    · intro hsound
      exact absurd hsound (not_soundlyFilled_undefined drives)
    · intro hgeo
      exact absurd hzero hgeo.blocksPerGroup
  · rw [if_neg hzero]
    constructor
    · rintro (hempty | husable)
      · exact absurd hempty hcount
      · have hblocks := husable.blocks
        refine ⟨hzero, fun hnone => ?_, ?_, ?_, hblocks⟩
        · have hpos := husable.inodesPerGrp
          dsimp only at hpos
          rw [hnone] at hpos
          exact absurd hpos (by decide)
        · dsimp only at hblocks
          exact (ngroups_le hzero (by omega)).mp husable.ngroups
        · have hsize := husable.inodeSize
          dsimp only at hsize
          rwa [UInt16.toNat_toUInt32] at hsize
    · intro hgeo
      have hblocks := hgeo.blocks
      right
      refine ⟨⟨magic, drive, hacc.pointer, hacc.part⟩, ?_, ?_, ?_, ?_, hblocks⟩
      · exact Nat.pos_of_ne_zero fun hnone => hzero (UInt32.toNat_inj.mp hnone)
      · exact Nat.pos_of_ne_zero fun hnone => hgeo.inodesPerGroup (UInt32.toNat_inj.mp hnone)
      · exact (ngroups_le hzero (by omega)).mpr hgeo.groups
      · dsimp only
        rw [UInt16.toNat_toUInt32]
        exact hgeo.inodeSize

theorem blockSize_eq_iff {adjusted : UInt32} (hlt : adjusted < 32) :
    (1024 : UInt32) <<< adjusted = 4096 ↔ adjusted = 2 := by
  have hall : ∀ n < 32, ((1024 : UInt32) <<< UInt32.ofNat n = 4096 ↔ n = 2) := by decide
  have hnat := hall adjusted.toNat (UInt32.lt_iff_toNat_lt.mp hlt)
  rw [UInt32.ofNat_toNat] at hnat
  rw [hnat, ← UInt32.toNat_inj]
  rfl

theorem fillFromSuperblk_sound (hacc : entry.Accepted drives magic drive) (hcount : entry.sectorCount ≠ 0) :
    SoundlyFilled drives (entry.fillFromSuperblk magic drives) ↔
      (superExt2Signature entry.sprblkBuf = 0xEF53 → superBlockSizeAdjusted entry.sprblkBuf < 32) ∧
      (IsExt2 entry.sprblkBuf →
        16 ≤ entry.sectorCount.toNat ∧ SoundGeometry entry.sprblkBuf entry.sectorCount.toNat) := by
  rw [fillFromSuperblk]
  by_cases hsig : superExt2Signature entry.sprblkBuf = 0xEF53
  · rw [if_neg (not_not.mpr hsig)]
    by_cases hshift : superBlockSizeAdjusted entry.sprblkBuf < 32
    · rw [if_neg (UInt32.not_le.mpr hshift)]
      by_cases hext : IsExt2 entry.sprblkBuf
      · rw [if_neg (not_not.mpr ((blockSize_eq_iff hshift).mpr hext.blockSize)), if_neg (not_not.mpr hext.required),
          if_neg (not_not.mpr hext.readOnly)]
        have hlba : (bgdtBlkN * sectorsPerBlk).toUInt64.toNat = 8 := by decide
        by_cases hlong : 16 ≤ entry.sectorCount.toNat
        · have hin : (bgdtBlkN * sectorsPerBlk).toUInt64.toNat + (8 : UInt16).toNat ≤ entry.sectorCount.toNat := by
            rw [hlba]
            exact hlong
          have hfill : ∀ bgdtBuf, SoundlyFilled drives ({ entry with bgdtBuf }.fillGeometry drives) ↔
              SoundGeometry entry.sprblkBuf entry.sectorCount.toNat :=
            fun _ => fillGeometry_sound ⟨hacc.pointer, hacc.part⟩ hcount
          rw [run_bind_ok (hacc.part.read_in hin entry.bgdtBuf), hfill]
          exact ⟨fun hgeo => ⟨fun _ => hshift, fun _ => ⟨hlong, hgeo⟩⟩, fun hcond => (hcond.2 hext).2⟩
        · have hout : entry.sectorCount.toNat < (bgdtBlkN * sectorsPerBlk).toUInt64.toNat + (8 : UInt16).toNat := by
            rw [hlba]
            exact Nat.not_le.mp hlong
          rw [run_bind_error (ataRead48Part_out (by rw [hlba]; decide) hout entry.bgdtBuf)]
          exact ⟨fun hsound => absurd hsound (not_soundlyFilled_bounds drives), fun hcond => absurd (hcond.2 hext).1 hlong⟩
      · refine ⟨fun _ => ⟨fun _ => hshift, fun hext' => absurd hext' hext⟩, fun _ => ?_⟩
        split_ifs with hsize hrequired hreadOnly
        · exact soundlyFilled_skip entry drives
        · exact soundlyFilled_skip entry drives
        · exact soundlyFilled_skip entry drives
        · exact absurd ⟨hsig, (blockSize_eq_iff hshift).mp (not_not.mp hsize), not_not.mp hrequired,
            not_not.mp hreadOnly⟩ hext
    · rw [if_pos (UInt32.not_lt.mp hshift)]
      exact ⟨fun hsound => absurd hsound (not_soundlyFilled_undefined drives), fun hcond => absurd (hcond.1 hsig) hshift⟩
  · rw [if_pos hsig]
    exact ⟨fun _ => ⟨fun h => absurd h hsig, fun hext => absurd hext.signature hsig⟩,
      fun _ => soundlyFilled_skip entry drives⟩

def fromTable (entry : FsEntry) (drive : AtaDrive) (part : Nat) (magic : UInt8) : FsEntry :=
  { entry with
    drive := some magic
    startLba := (drive.partStart part).toUInt64
    sectorCount := (drive.partCount part).toUInt64 }

theorem fillFromTable_eq (entry : FsEntry) (drive : AtaDrive) (part : Nat) (magic : UInt8) :
    entry.fillFromTable drive.mbr (AtaDrive.entryOff part) drive magic =
      if (entry.fromTable drive part magic).sectorCount = 0 ∨ drive.lbaSectorCount <
          (entry.fromTable drive part magic).startLba + (entry.fromTable drive part magic).sectorCount then
        pure { entry.fromTable drive part magic with sectorCount := 0 }
      else
        ataRead48Part magic (entry.fromTable drive part magic).startLba
          (entry.fromTable drive part magic).sectorCount 2 2 entry.sprblkBuf >>= fun sprblkBuf =>
        fillFromSuperblk { entry.fromTable drive part magic with sprblkBuf, superblk := true } magic :=
  rfl

theorem toNat_fromTable (entry : FsEntry) (drive : AtaDrive) (part : Nat) (magic : UInt8) :
    (entry.fromTable drive part magic).startLba.toNat = (drive.partStart part).toNat ∧
      (entry.fromTable drive part magic).sectorCount.toNat = (drive.partCount part).toNat :=
  ⟨UInt32.toNat_toUInt64 _, UInt32.toNat_toUInt64 _⟩

theorem fillFromTable_sound (hdrive : drives.drive? magic = some drive) :
    SoundlyFilled drives (entry.fillFromTable drive.mbr (AtaDrive.entryOff part) drive magic drives) ↔
      (drive.partCount part ≠ 0 → (drive.partStart part).toNat + (drive.partCount part).toNat ≤
          drive.lbaSectorCount.toNat →
        4 ≤ (drive.partCount part).toNat ∧
        (superExt2Signature (drive.sprblk part entry.sprblkBuf) = 0xEF53 →
          superBlockSizeAdjusted (drive.sprblk part entry.sprblkBuf) < 32) ∧
        (IsExt2 (drive.sprblk part entry.sprblkBuf) → 16 ≤ (drive.partCount part).toNat ∧
          SoundGeometry (drive.sprblk part entry.sprblkBuf) (drive.partCount part).toNat)) := by
  obtain ⟨hstart, hcount⟩ := entry.toNat_fromTable drive part magic
  have hstart_lt := (drive.partStart part).toNat_lt
  have hcount_lt := (drive.partCount part).toNat_lt
  have hzero : (entry.fromTable drive part magic).sectorCount = 0 ↔ drive.partCount part = 0 := by
    rw [← UInt64.toNat_inj, hcount, ← UInt32.toNat_inj]
    rfl
  have hbeyond : drive.lbaSectorCount <
      (entry.fromTable drive part magic).startLba + (entry.fromTable drive part magic).sectorCount ↔
      drive.lbaSectorCount.toNat < (drive.partStart part).toNat + (drive.partCount part).toNat := by
    rw [UInt64.lt_iff_toNat_lt, UInt64.toNat_add, hstart, hcount]
    omega
  rw [fillFromTable_eq]
  by_cases hskip : (entry.fromTable drive part magic).sectorCount = 0 ∨ drive.lbaSectorCount <
      (entry.fromTable drive part magic).startLba + (entry.fromTable drive part magic).sectorCount
  · rw [if_pos hskip]
    rw [hzero, hbeyond] at hskip
    refine ⟨fun _ hne hin => ?_, fun _ => .inl rfl⟩
    rcases hskip with hnone | hout
    · exact absurd hnone hne
    · omega
  · rw [if_neg hskip]
    have hne : (entry.fromTable drive part magic).sectorCount ≠ 0 := fun hnone => hskip (.inl hnone)
    rw [hzero, hbeyond, not_or, Nat.not_lt] at hskip
    have hpart : PartOf drives magic drive (entry.fromTable drive part magic).startLba
        (entry.fromTable drive part magic).sectorCount :=
      ⟨hdrive, by omega, by omega, by omega⟩
    by_cases hshort : 4 ≤ (drive.partCount part).toNat
    · have hin : (2 : UInt64).toNat + (2 : UInt16).toNat ≤
          (entry.fromTable drive part magic).sectorCount.toNat := by
        rw [hcount]
        exact hshort
      have hfill : ∀ sprblkBuf, SoundlyFilled drives
          (fillFromSuperblk { entry.fromTable drive part magic with sprblkBuf, superblk := true } magic drives) ↔
          (superExt2Signature sprblkBuf = 0xEF53 → superBlockSizeAdjusted sprblkBuf < 32) ∧
          (IsExt2 sprblkBuf → 16 ≤ (entry.fromTable drive part magic).sectorCount.toNat ∧
            SoundGeometry sprblkBuf (entry.fromTable drive part magic).sectorCount.toNat) :=
        fun _ => fillFromSuperblk_sound ⟨rfl, hpart⟩ hne
      rw [run_bind_ok (hpart.read_in hin entry.sprblkBuf), hfill, hstart, hcount]
      exact ⟨fun hcond _ _ => ⟨hshort, hcond⟩, fun hcond => (hcond hskip.1 hskip.2).2⟩
    · have hout : (entry.fromTable drive part magic).sectorCount.toNat <
          (2 : UInt64).toNat + (2 : UInt16).toNat := by
        rw [hcount]
        exact Nat.not_le.mp hshort
      rw [run_bind_error (ataRead48Part_out (by decide) hout entry.sprblkBuf)]
      exact ⟨fun hsound => absurd hsound (not_soundlyFilled_bounds drives),
        fun hcond => absurd (hcond hskip.1 hskip.2).1 hshort⟩

end FsEntry

/-! ### A whole call -/

section

variable {drives : Drives} {magic : UInt8} {drive : AtaDrive} {entry : FsEntry} {part : Nat}

theorem readMbr_none (hread48 : drive.supportsRead48 = false) : readMbr drive drives = .ok (none, drives) := by
  rw [readMbr, if_pos hread48]
  rfl

theorem readMbr_run (hdrive : drives.drive? magic = some drive) (hread48 : drive.supportsRead48 = true) :
    readMbr drive drives =
      if 1 ≤ drive.lbaSectorCount.toNat then .ok (some drive.mbr, drives)
      else .error (.panic "KERNEL PANIC: LBA OUT OF BOUNDS") := by
  have hsize : drive.lbaSectorCount < 0 + (1 : UInt16).toUInt64 ↔ ¬ 1 ≤ drive.lbaSectorCount.toNat := by
    rw [UInt64.lt_iff_toNat_lt, Nat.not_le]
    rfl
  have hread : ataRead48 drive.identifyMagic 0 1 zero drives =
      if 1 ≤ drive.lbaSectorCount.toNat then .ok (drive.mbr, drives)
      else .error (.panic "KERNEL PANIC: LBA OUT OF BOUNDS") := by
    rw [Drives.identifyMagic_of_drive? hdrive, ataRead48, run_bind_ok (run_get drives), hdrive]
    dsimp only
    by_cases hpos : 1 ≤ drive.lbaSectorCount.toNat
    · rw [if_pos hpos, if_neg (hsize.not.mpr (not_not.mpr hpos))]
      rfl
    · rw [if_neg hpos, if_pos (hsize.mpr hpos)]
      rfl
  rw [readMbr, hread48, if_neg (by decide)]
  by_cases hpos : 1 ≤ drive.lbaSectorCount.toNat
  · rw [if_pos hpos] at hread ⊢
    rw [run_bind_ok hread]
    rfl
  · rw [if_neg hpos] at hread ⊢
    rw [run_bind_error hread]

/-- The outcome of a whole call, without the result that says whether to go on with the drive. -/
def FillsSoundly (drives : Drives) (magic : UInt8) (part : Nat) (entry : FsEntry) : Prop :=
  SoundlyFilled drives ((fillPartitionEntry magic part entry drives).map fun run => (run.1.2, run.2))

theorem fillsSoundly_of_no_table (hdrive : drives.drive? magic = some drive) (hempty : entry.sectorCount = 0)
    (hnone : ¬ (drive.supportsRead48 = true ∧ 1 ≤ drive.lbaSectorCount.toNat ∧
      drive.mbr 510 = 0x55 ∧ drive.mbr 511 = 0xAA)) : FillsSoundly drives magic part entry := by
  rw [FillsSoundly, fillPartitionEntry, run_bind_ok (run_get drives), hdrive]
  dsimp only
  cases hread48 : drive.supportsRead48 with
  | false =>
    rw [run_bind_ok (readMbr_none hread48)]
    dsimp only
    split_ifs
    · exact List.mem_cons_self
    · exact .inl hempty
  | true =>
    have hread := readMbr_run hdrive hread48
    by_cases hsize : 1 ≤ drive.lbaSectorCount.toNat
    · have hsig : ¬ (drive.mbr 510 = 0x55 ∧ drive.mbr 511 = 0xAA) := fun hsig => hnone ⟨hread48, hsize, hsig⟩
      rw [if_pos hsize] at hread
      rw [run_bind_ok hread]
      dsimp only
      rw [if_pos hsig]
      split_ifs
      · exact List.mem_cons_of_mem _ List.mem_cons_self
      · exact .inl hempty
    · rw [if_neg hsize] at hread
      rw [run_bind_error hread]
      exact List.mem_cons_of_mem _ (List.mem_cons_of_mem _ List.mem_cons_self)

theorem fillsSoundly_of_table (hdrive : drives.drive? magic = some drive) (hempty : entry.sectorCount = 0)
    (hread48 : drive.supportsRead48 = true) (hsize : 1 ≤ drive.lbaSectorCount.toNat)
    (hsig : drive.mbr 510 = 0x55 ∧ drive.mbr 511 = 0xAA) :
    FillsSoundly drives magic part entry ↔ (drive.partType part = 0x83 →
      SoundlyFilled drives (entry.fillFromTable drive.mbr (AtaDrive.entryOff part) drive magic drives)) := by
  have hread := readMbr_run hdrive hread48
  rw [if_pos hsize] at hread
  rw [FillsSoundly, fillPartitionEntry, run_bind_ok (run_get drives), hdrive]
  dsimp only
  rw [run_bind_ok hread]
  dsimp only
  rw [if_neg (not_not.mpr hsig)]
  by_cases htype : drive.partType part = 0x83
  · have htype' : drive.mbr (446 + 16 * (part % partsPerDrive) + 4) = 0x83 := htype
    rw [if_neg (by rw [htype']; decide), if_neg (not_not.mpr htype')]
    rw [show 446 + 16 * (part % partsPerDrive) = AtaDrive.entryOff part from rfl]
    cases hfill : entry.fillFromTable drive.mbr (AtaDrive.entryOff part) drive magic drives with
    | error stop =>
      rw [run_bind_error hfill]
      exact ⟨fun hsound _ => hsound, fun hsound => hsound htype⟩
    | ok run =>
      rw [run_bind_ok hfill]
      exact ⟨fun hsound _ => hsound, fun hsound => hsound htype⟩
  · constructor
    · intro _ htype'
      exfalso
      exact htype htype'
    · intro _
      split_ifs with hext hother
      · exact .inl hempty
      · exact .inl hempty
      · exfalso
        exact htype (not_not.mp hother)

end

/-- `fill_partition_entry` leaves an empty or a usable slot, and stops only for want of a partition table, unless a
Linux partition inside the drive is too short for the superblock, or its superblock passes the tests and the
partition is too short for the descriptors or the geometry is not sound. -/
theorem fillsSoundly_iff (drives : Drives) (magic : UInt8) (part : Nat) {entry : FsEntry}
    (hempty : entry.sectorCount = 0) :
    FillsSoundly drives magic part entry ↔
      ∀ drive, drives.drive? magic = some drive → drive.Offers part →
        4 ≤ (drive.partCount part).toNat ∧
        (superExt2Signature (drive.sprblk part entry.sprblkBuf) = 0xEF53 →
          superBlockSizeAdjusted (drive.sprblk part entry.sprblkBuf) < 32) ∧
        (IsExt2 (drive.sprblk part entry.sprblkBuf) → 16 ≤ (drive.partCount part).toNat ∧
          SoundGeometry (drive.sprblk part entry.sprblkBuf) (drive.partCount part).toNat) := by
  cases hdrive : drives.drive? magic with
  | none =>
    refine ⟨fun _ drive hsome => ?_, fun _ => ?_⟩
    · cases hsome
    · rw [FillsSoundly, fillPartitionEntry, run_bind_ok (run_get drives), hdrive]
      exact .inl hempty
  | some drive =>
    by_cases htable : drive.supportsRead48 = true ∧ 1 ≤ drive.lbaSectorCount.toNat ∧
        drive.mbr 510 = 0x55 ∧ drive.mbr 511 = 0xAA
    · obtain ⟨hread48, hsize, hsig⟩ := htable
      rw [fillsSoundly_of_table hdrive hempty hread48 hsize hsig]
      constructor
      · intro hfill other hother hoffers
        obtain rfl := Option.some.inj hother
        have hsound := hfill hoffers.type
        rw [FsEntry.fillFromTable_sound hdrive] at hsound
        exact hsound hoffers.nonempty hoffers.inDrive
      · intro hcond htype
        rw [FsEntry.fillFromTable_sound hdrive]
        intro hne hin
        exact hcond drive rfl ⟨hread48, hsize, hsig, htype, hne, hin⟩
    · refine ⟨fun _ other hother hoffers => ?_, fun _ => fillsSoundly_of_no_table hdrive hempty htable⟩
      obtain rfl := Option.some.inj hother
      exact absurd ⟨hoffers.read48, hoffers.size, hoffers.signature⟩ htable

/-! ### What is accepted -/

namespace FsEntry

variable {drives drives' : Drives} {magic : UInt8} {drive : AtaDrive} {entry entry' : FsEntry} {part : Nat}

def SamePart (entry entry' : FsEntry) : Prop :=
  entry'.sectorCount = 0 ∨ (entry'.drive = entry.drive ∧ entry'.startLba = entry.startLba ∧
    entry'.sectorCount = entry.sectorCount)

theorem fillGeometry_same (hrun : entry.fillGeometry drives = .ok (entry', drives')) : entry.SamePart entry' := by
  rw [fillGeometry] at hrun
  split at hrun
  · cases hrun
  · obtain rfl : _ = entry' := (Prod.mk.inj (Except.ok.inj hrun)).1
    exact .inr ⟨rfl, rfl, rfl⟩

theorem skip_same (hrun : (pure entry.skip : Prog Stop Drives FsEntry) drives = .ok (entry', drives')) :
    entry.SamePart entry' := by
  obtain rfl : entry.skip = entry' := (Prod.mk.inj (Except.ok.inj hrun)).1
  exact .inl rfl

theorem fillFromSuperblk_same (hrun : entry.fillFromSuperblk magic drives = .ok (entry', drives')) :
    entry.SamePart entry' := by
  rw [fillFromSuperblk] at hrun
  split_ifs at hrun
  · exact skip_same hrun
  · cases hrun
  · exact skip_same hrun
  · exact skip_same hrun
  · exact skip_same hrun
  · obtain ⟨bgdtBuf, mid, -, hfill⟩ := run_bind_eq_ok hrun
    have hsame := fillGeometry_same hfill
    exact hsame

/-- A slot that is in use after the call has the fields that `read_block` and `write_block` rely on. -/
theorem accepted_of_fillFromTable (hdrive : drives.drive? magic = some drive)
    (hrun : entry.fillFromTable drive.mbr (AtaDrive.entryOff part) drive magic drives = .ok (entry', drives'))
    (hused : entry'.sectorCount ≠ 0) : entry'.Accepted drives magic drive := by
  obtain ⟨hstart, hcount⟩ := entry.toNat_fromTable drive part magic
  have hstart_lt := (drive.partStart part).toNat_lt
  have hcount_lt := (drive.partCount part).toNat_lt
  rw [fillFromTable_eq] at hrun
  split_ifs at hrun with hskip
  · obtain rfl : _ = entry' := (Prod.mk.inj (Except.ok.inj hrun)).1
    exact absurd rfl hused
  · have hin : ¬ drive.lbaSectorCount.toNat < (drive.partStart part).toNat + (drive.partCount part).toNat := by
      intro hout
      apply hskip
      right
      rw [UInt64.lt_iff_toNat_lt, UInt64.toNat_add, hstart, hcount]
      omega
    obtain ⟨sprblkBuf, mid, hread, hfill⟩ := run_bind_eq_ok hrun
    obtain hnone | ⟨hpointer, hsameStart, hsameCount⟩ := fillFromSuperblk_same hfill
    · exact absurd hnone hused
    · have hpart : PartOf drives magic drive (entry.fromTable drive part magic).startLba
          (entry.fromTable drive part magic).sectorCount :=
        ⟨hdrive, by omega, by omega, by omega⟩
      exact ⟨hpointer, by rw [hsameStart, hsameCount]; exact hpart⟩

end FsEntry

theorem accepted_of_fillPartitionEntry {drives drives' : Drives} {magic : UInt8} {part : Nat}
    {entry entry' : FsEntry} {more : Bool}
    (hrun : fillPartitionEntry magic part entry drives = .ok ((more, entry'), drives'))
    (hempty : entry.sectorCount = 0) (hused : entry'.sectorCount ≠ 0) :
    ∃ drive, entry'.Accepted drives magic drive := by
  have hpassed : ∀ {more'}, (pure (more', entry) : Prog Stop Drives (Bool × FsEntry)) drives ≠
      .ok ((more, entry'), drives') := by
    intro more' hpass
    obtain rfl : entry = entry' := (Prod.mk.inj (Prod.mk.inj (Except.ok.inj hpass)).1).2
    exact hused hempty
  rw [fillPartitionEntry, run_bind_ok (run_get drives)] at hrun
  cases hdrive : drives.drive? magic with
  | none =>
    rw [hdrive] at hrun
    exact absurd hrun hpassed
  | some drive =>
    rw [hdrive] at hrun
    dsimp only at hrun
    refine ⟨drive, ?_⟩
    cases hread48 : drive.supportsRead48 with
    | false =>
      rw [run_bind_ok (readMbr_none hread48)] at hrun
      dsimp only at hrun
      split_ifs at hrun
      · cases hrun
      · exact absurd hrun hpassed
    | true =>
      have hread := readMbr_run hdrive hread48
      split_ifs at hread with hsize
      · rw [run_bind_ok hread] at hrun
        dsimp only at hrun
        split_ifs at hrun
        · exact absurd hrun hpassed
        · exact absurd hrun hpassed
        · obtain ⟨filled, mid, hfill, hpure⟩ := run_bind_eq_ok hrun
          obtain rfl : filled = entry' := (Prod.mk.inj (Prod.mk.inj (Except.ok.inj hpure)).1).2
          exact FsEntry.accepted_of_fillFromTable hdrive hfill hused
        · cases hrun
        · exact absurd hrun hpassed
      · rw [run_bind_error hread] at hrun
        cases hrun

def sampleMbr : Buf :=
  store8 (store8 (store32 (store32 (store8 zero 450 0x83) 454 8) 458 64) 510 0x55) 511 0xAA

def sampleSprblk (blockCnt perGroup : UInt32) : Buf :=
  store16 (store16 (store32 (store32 (store32 (store32 zero 4 blockCnt) 24 2) 32 perGroup) 40 32) 56 0xEF53) 88 128

def sampleDrive (magic : UInt8) (blockCnt perGroup : UInt32) : AtaDrive where
  supportsRead48 := true
  identifyMagic := magic
  lbaSectorCount := 4096
  sectors := fun s => if s = 0 then sampleMbr else if s = 10 then sampleSprblk blockCnt perGroup else zero

def sampleDrives (blockCnt perGroup : UInt32) : Drives where
  master := sampleDrive ataMaster blockCnt perGroup
  slave := sampleDrive ataSlave blockCnt perGroup
  master_magic := rfl
  slave_magic := rfl

theorem fillsSoundly_sample : FillsSoundly (sampleDrives 8 8) ataMaster 0 FsEntry.zero := by
  have hempty : FsEntry.zero.sectorCount = 0 := rfl
  apply (fillsSoundly_iff (sampleDrives 8 8) ataMaster 0 hempty).mpr
  intro drive hdrive _
  obtain rfl : sampleDrive ataMaster 8 8 = drive := Option.some.inj hdrive
  refine ⟨by decide, fun _ => by decide, fun _ => ⟨by decide, ?_⟩⟩
  exact ⟨by decide, by decide, by decide, by decide, by decide⟩

/-- With no blocks per group the kernel divides by zero, and 4096 blocks are accepted in 64 sectors. -/
theorem fillPartitionEntry_geometry_untested :
    (fillPartitionEntry ataMaster 0 FsEntry.zero (sampleDrives 8 0)).map (fun run => run.1.1) = .error .undefined ∧
      (fillPartitionEntry ataMaster 0 FsEntry.zero (sampleDrives 4096 1)).toOption.map
        (fun run => (run.1.2.sectorCount, run.1.2.ngroups)) = some (64, 4096) := by
  constructor
  · decide
  · decide

/-- Calls on a slot that was filled get from the drive, panics included, what they get from its filesystem. -/
theorem filled_slot_serves_filesystem {drives drives' : Drives} {magic : UInt8} {part : Nat}
    {entry entry' : FsEntry} {more : Bool}
    (hrun : fillPartitionEntry magic part entry drives = .ok ((more, entry'), drives'))
    (hempty : entry.sectorCount = 0) (hused : entry'.sectorCount ≠ 0) :
    ∃ drive, drives.drive? magic = some drive ∧ ∀ calls : List BlockCall,
      (calls.mapM (BlockCall.onDrive entry') drives).map Prod.fst =
        (calls.mapM BlockCall.onFs (entry'.fsInfo drive)).map Prod.fst := by
  obtain ⟨drive, hacc⟩ := accepted_of_fillPartitionEntry hrun hempty hused
  refine ⟨drive, hacc.part.found, fun calls => ?_⟩
  have hmirrors : entry'.Mirrors magic drives (entry'.fsInfo drive) := ⟨⟨drive, hacc, fun _ _ _ => rfl⟩, rfl⟩
  exact (Simulates.mapM BlockCall.simulates calls).answers hmirrors

theorem filled_slot_serves_filesystem_sample : ∃ entry' drive, (sampleDrives 8 8).drive? ataMaster = some drive ∧
    entry'.sectorCount = 64 ∧ ∀ calls : List BlockCall,
      (calls.mapM (BlockCall.onDrive entry') (sampleDrives 8 8)).map Prod.fst =
        (calls.mapM BlockCall.onFs (entry'.fsInfo drive)).map Prod.fst := by
  have hfill : (fillPartitionEntry ataMaster 0 FsEntry.zero (sampleDrives 8 8)).toOption.map
      (fun run => run.1.2.sectorCount) = some 64 := by
    decide
  obtain ⟨⟨⟨more, entry'⟩, drives'⟩, hrun, hcount⟩ := eq_ok_of_toOption hfill
  have hused : entry'.sectorCount ≠ 0 := by
    rw [show entry'.sectorCount = 64 from hcount]
    decide
  obtain ⟨drive, hdrive, hcalls⟩ := filled_slot_serves_filesystem hrun rfl hused
  exact ⟨entry', drive, hdrive, hcount, hcalls⟩

end DeprecatOS
