import DeprecatOS.Proof.FileContents
import DeprecatOS.Proof.Geometry
import DeprecatOS.Syscall

/-!
# The number of blocks of a file

Four functions round `size_lo` up to blocks by adding 4095 in 32 bits. The sum overflows exactly for the
sizes above `2 ^ 32 - 4096`, which `append_to_inode` and `replace_inode` both let through.

Which file block indices do the callers of `map_file_block` hand to it? They have the mapping function as a
parameter, and ask for indices below the limit only if they do not notice what it does at the others.
-/

namespace DeprecatOS

open Bytes Bits Fault PointerTree

/-! ### The callers of `map_file_block` -/

def MapBlock.Agrees (map : MapBlock) : Prop :=
  ∀ inode idx mode allocCnt, idx.toNat < fileBlkLimit → map inode idx mode allocCnt = mapFileBlock inode idx mode allocCnt

section Agree

variable {map : MapBlock} (hmap : map.Agrees)

include hmap

theorem fillTailWith_eq (buf : Buf) {a : Append} (hidx : (blocksFor a.inode.sizeLo - 1).toNat < fileBlkLimit) :
    fillTailWith map buf a = fillTail buf a := by
  simp only [fillTailWith, hmap _ _ _ _ hidx]

theorem unwindBlockWith_eq (inode : Inode) {idx : UInt32} (hidx : idx.toNat < fileBlkLimit) :
    unwindBlockWith map inode idx = unwindBlock inode idx := by
  rw [unwindBlockWith, hmap _ _ _ _ hidx]
  rfl

theorem unwindBlocksWith_eq (start : UInt32) {cnt : Nat} {i : UInt32} (inode : Inode)
    (hbound : start.toNat + i.toNat + cnt ≤ fileBlkLimit) :
    unwindBlocksWith map start cnt i inode = unwindBlocks start cnt i inode := by
  rw [fileBlkLimit] at hbound
  induction cnt generalizing i inode with
  | zero => rfl
  | succ cnt ih =>
    have hidx : (start + i).toNat < fileBlkLimit := by
      rw [UInt32.toNat_add, fileBlkLimit]
      omega
    have hnext : (i + 1).toNat = i.toNat + 1 := toNat_add_one (by omega)
    rw [unwindBlocksWith, unwindBlocks, unwindBlocksWith, unwindBlockWith_eq hmap inode hidx]
    congr 1
    funext inode'
    exact ih inode' (by omega)

theorem appendBlocksWith_eq (buf junk : Buf) {oldBlkCnt : UInt32} {fuel : Nat} {blkIdx : UInt32} {a : Append}
    (hbound : oldBlkCnt.toNat + blkIdx.toNat + fuel ≤ fileBlkLimit)
    (hback : a.allocedBackward = true → (oldBlkCnt - 1).toNat < fileBlkLimit) :
    appendBlocksWith map buf junk oldBlkCnt fuel blkIdx a = appendBlocks buf junk oldBlkCnt fuel blkIdx a := by
  induction fuel generalizing blkIdx a with
  | zero => rfl
  | succ fuel ih =>
    have hlimit : fileBlkLimit < 4294967296 := by decide
    have hsum : (oldBlkCnt + blkIdx).toNat < fileBlkLimit := by
      rw [UInt32.toNat_add]
      omega
    have hnext : (blkIdx + 1).toNat = blkIdx.toNat + 1 := toNat_add_one (by omega)
    have hrest : oldBlkCnt.toNat + (blkIdx + 1).toNat + fuel ≤ fileBlkLimit := by omega
    have hunwind : ∀ inode, unwindBlocksWith map oldBlkCnt blkIdx.toNat 0 inode =
        unwindBlocks oldBlkCnt blkIdx.toNat 0 inode := fun inode =>
      unwindBlocksWith_eq hmap oldBlkCnt inode (by change oldBlkCnt.toNat + 0 + blkIdx.toNat ≤ _; omega)
    have hloop : ∀ inode allocCnt bufByteCursor bytesLeft,
        appendBlocksWith map buf junk oldBlkCnt fuel (blkIdx + 1)
          ⟨inode, allocCnt, bufByteCursor, bytesLeft, a.allocedBackward⟩ =
        appendBlocks buf junk oldBlkCnt fuel (blkIdx + 1)
          ⟨inode, allocCnt, bufByteCursor, bytesLeft, a.allocedBackward⟩ :=
      fun _ _ _ _ => ih hrest hback
    rw [appendBlocksWith, appendBlocks, appendBlocksWith, hmap _ _ _ _ hsum]
    simp only [hunwind, hloop]
    by_cases hbackward : a.allocedBackward = true
    · simp only [unwindBlockWith_eq hmap _ (hback hbackward)]
    · simp only [if_neg hbackward]

theorem truncateBlocksWith_eq {cnt : Nat} {blk : UInt32} (inode : Inode) (freeCnt : UInt32)
    (hbound : blk.toNat + cnt ≤ fileBlkLimit) :
    truncateBlocksWith map cnt blk inode freeCnt = truncateBlocks cnt blk inode freeCnt := by
  induction cnt generalizing blk inode freeCnt with
  | zero => rfl
  | succ cnt ih =>
    have hlimit : fileBlkLimit < 4294967296 := by decide
    have hnext : (blk + 1).toNat = blk.toNat + 1 := toNat_add_one (by omega)
    have hrest : (blk + 1).toNat + cnt ≤ fileBlkLimit := by omega
    rw [truncateBlocksWith, truncateBlocks, truncateBlocksWith,
      hmap _ _ _ _ (show blk.toNat < fileBlkLimit by omega)]
    simp only [ih _ _ hrest]

theorem clearTailWith_eq (inode : Inode) (newSize : UInt32) : clearTailWith map inode newSize = clearTail inode newSize := by
  have hidx : (newSize / 4096).toNat < fileBlkLimit := by
    have hlt := newSize.toNat_lt
    rw [UInt32.toNat_div, fileBlkLimit]
    change newSize.toNat / 4096 < _
    omega
  rw [clearTailWith, hmap _ _ _ _ hidx]
  rfl

theorem truncateInodeWith_eq (now inodeN newSize : UInt32) :
    truncateInodeWith map now inodeN newSize = truncateInode now inodeN newSize := by
  have hblocks : ∀ size : UInt32, (blocksFor newSize).toNat +
      ((blocksFor size).toNat - (blocksFor newSize).toNat) ≤ fileBlkLimit := by
    intro size
    have hfirst := blocksFor_lt newSize
    have hlast := blocksFor_lt size
    omega
  rw [truncateInodeWith, truncateInode, truncateInodeWith]
  simp only [truncateBlocksWith_eq hmap _ _ (hblocks _), clearTailWith_eq hmap]

theorem sysReadChunkWith_eq (frame : Regs) : sysReadChunkWith map frame = sysReadChunk frame := by
  have hchunk : ∀ ino : Inode, ¬ blocksFor ino.sizeLo ≤ frame 5 →
      readChunkWith map ino (frame 5) = readChunk ino (frame 5) := by
    intro ino hlt
    rw [readChunkWith, hmap _ _ _ _ (chunk_lt_fileBlkLimit hlt)]
    rfl
  rw [sysReadChunkWith, sysReadChunk, sysReadChunkWith]
  congr 1
  funext fs
  congr 1
  funext found
  obtain _ | ⟨slot, ino⟩ := found
  · rfl
  · dsimp only
    split_ifs with houtside hpast
    · rfl
    · rfl
    · rw [hchunk ino hpast]

theorem appendToInodeWith_eq {inodeN size : UInt32} {fs : FsInfo} (hsize : size.toNat ≤ maxSize)
    (hrecord : ∀ inode fs', getInode inodeN fs = .ok (some inode, fs') → inode.sizeLo = size) (now fSize : UInt32)
    (junk buf : Buf) :
    appendToInodeWith map now junk inodeN buf fSize fs = appendToInode now junk inodeN buf fSize fs := by
  rw [appendToInodeWith, appendToInode, appendToInodeWith]
  apply run_bind_congr
  intro found fs₁ hget
  obtain _ | inode := found
  · rfl
  obtain rfl := hrecord inode fs₁ hget
  have hblocks := toNat_blocksFor hsize
  have hle := blocksFor_small inode.sizeLo
  have hbound : (blocksFor inode.sizeLo).toNat + (0 : UInt32).toNat + (fSize.toNat / 4096 + 1) ≤ fileBlkLimit := by
    have hlt := fSize.toNat_lt
    change (blocksFor inode.sizeLo).toNat + 0 + (fSize.toNat / 4096 + 1) ≤ 1074791436
    omega
  dsimp only
  split_ifs with hoverflow haligned
  · rfl
  · simp only [pure_bind, appendBlocksWith_eq hmap buf junk hbound
      (show (Append.start inode fSize).allocedBackward = true → _ from fun h => absurd h (by simp [Append.start]))]
  · have hmod : inode.sizeLo.toNat % 4096 ≠ 0 := fun hzero =>
      haligned (UInt32.toNat_inj.mp ((UInt32.toNat_mod _ _).trans hzero))
    have hlast : (blocksFor inode.sizeLo - 1).toNat < fileBlkLimit := by
      have hone : (1 : UInt32) ≤ blocksFor inode.sizeLo := by
        rw [UInt32.le_iff_toNat_le, hblocks, sizeBlocks]
        change 1 ≤ _
        omega
      rw [UInt32.toNat_sub_of_le _ _ hone, fileBlkLimit]
      omega
    rw [fillTailWith_eq hmap buf (a := Append.start inode fSize) hlast]
    apply run_bind_congr
    intro filled fs₂ _
    obtain _ | a := filled
    · rfl
    · simp only [appendBlocksWith_eq hmap buf junk hbound fun _ => hlast]

end Agree

structure CountsBlocks (size : UInt32) : Prop where
  /-- `old_blk_cnt`, `total_blocks`, `blocks_left` and `blocks`. -/
  count : (blocksFor size).toNat = (size.toNat + 4095) / 4096
  append : ∀ map : MapBlock, map.Agrees → ∀ (now inodeN fSize : UInt32) (junk buf : Buf) (fs : FsInfo),
    (∀ inode fs', getInode inodeN fs = .ok (some inode, fs') → inode.sizeLo = size) →
      appendToInodeWith map now junk inodeN buf fSize fs = appendToInode now junk inodeN buf fSize fs
  truncate : ∀ map : MapBlock, map.Agrees → ∀ (now inodeN newSize : UInt32) (fs : FsInfo),
    (∀ inode fs', getInode inodeN fs = .ok (some inode, fs') → inode.sizeLo = size) →
      truncateInodeWith map now inodeN newSize fs = truncateInode now inodeN newSize fs
  read : ∀ map : MapBlock, map.Agrees → ∀ (frame : Regs) (s : Sys), sysReadChunkWith map frame s = sysReadChunk frame s
  /-- The slots of the pointer tables on the way to an index below the limit. -/
  table : ∀ idx < fileBlkLimit, 12 ≤ idx →
    (locate idx).2 / ptrsPerBlk ^ (rootHeight (locate idx).1 - 1) < ptrsPerBlk

theorem topSlot_lt {idx : Nat} (hidx : idx < fileBlkLimit) (hlow : 12 ≤ idx) :
    (locate idx).2 / ptrsPerBlk ^ (rootHeight (locate idx).1 - 1) < ptrsPerBlk := by
  have hlt := (locate_lt hidx).2
  have hheight : rootHeight (locate idx).1 = rootHeight (locate idx).1 - 1 + 1 := by
    have hroot : 12 ≤ (locate idx).1 := by
      rw [locate, if_neg (by omega)]
      split_ifs <;> simp
    rw [rootHeight]
    omega
  rw [hheight] at hlt
  exact slot_lt hlt

/-- The block counts are right for the sizes up to `2 ^ 32 - 4096` and for no others. -/
theorem countsBlocks_iff (size : UInt32) : CountsBlocks size ↔ size.toNat ≤ maxSize := by
  constructor
  · intro hcounts
    have hcount := hcounts.count
    have hlt := size.toNat_lt
    change (size.toNat + 4095) % 4294967296 / 4096 = _ at hcount
    rw [maxSize]
    omega
  · intro hsize
    refine ⟨toNat_blocksFor hsize, ?_, ?_, ?_, fun idx hidx hlow => topSlot_lt hidx hlow⟩
    · intro map hmap now inodeN fSize junk buf fs hrecord
      exact appendToInodeWith_eq hmap hsize hrecord now fSize junk buf
    · intro map hmap now inodeN newSize fs _
      rw [truncateInodeWith_eq hmap]
    · intro map hmap frame s
      rw [sysReadChunkWith_eq hmap]

/-- `replace_inode` accepts a size one byte above, for which the rounded size is 0, and appending to that file leads past
the pointer tables. -/
theorem block_count_overflows : ∃ inode fs', replaceInode 0 3 zero 4294963201 smallFs = .ok (some inode, fs') ∧
    inode.sizeLo = 4294963201 ∧ blocksFor inode.sizeLo = 0 ∧ sizeBlocks inode.sizeLo = 1048576 ∧
      appendToInode 0 zero 3 zero 1 fs' = .error .undefined := by
  have hsize : (replaceInode 0 3 zero 4294963201 smallFs).toOption.map (fun done => done.1.map Inode.sizeLo) =
      some (some 4294963201) := by
    decide +kernel
  have happend : (replaceInode 0 3 zero 4294963201 smallFs).toOption.map
      (fun done => (appendToInode 0 zero 3 zero 1 done.2).map (fun _ => ())) = some (.error .undefined) := by
    decide +kernel
  obtain ⟨⟨result, fs'⟩, hrun, hresult⟩ := eq_ok_of_toOption hsize
  obtain ⟨inode, rfl, hinode⟩ := Option.map_eq_some_iff.mp hresult
  rw [hrun] at happend
  refine ⟨inode, fs', hrun, hinode, ?_, ?_, ?_⟩
  · rw [hinode]
    decide
  · rw [hinode]
    decide
  · cases hlast : appendToInode 0 zero 3 zero 1 fs' with
    | error e =>
      have heq := Option.some.inj happend
      dsimp only at heq
      rw [hlast] at heq
      exact congrArg Except.error (Except.error.inj heq)
    | ok done =>
      have heq := Option.some.inj happend
      dsimp only at heq
      rw [hlast] at heq
      cases heq

end DeprecatOS
