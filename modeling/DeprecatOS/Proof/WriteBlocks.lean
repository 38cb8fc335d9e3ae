import DeprecatOS.Consistent
import DeprecatOS.Proof.Ownership

/-!
# Taking blocks and hanging them into a tree

A call that only takes free blocks leaves every tree that is there as it was, so the blocks it has
taken can be hung to empty block pointers one tree at a time. The innermost loops of `write_inode` do
this with the data blocks of a file, behind the direct pointers and behind one pointer block.
-/

namespace DeprecatOS

open Bytes Bits Fault PointerTree

structure Gain (static : UInt32 → Prop) (new : List UInt32) (fs fs' : FsInfo) : Prop where
  trade : Trade static [] new fs fs'
  nodup : new.Nodup

section Gains

variable {static : UInt32 → Prop} {fs fs' fs'' : FsInfo} {new more gone rest : List UInt32} {b : UInt32}

namespace Gain

theorem refl (hmounted : Mounted static fs) : Gain static [] fs fs :=
  ⟨Trade.refl hmounted (by simp), List.nodup_nil⟩

theorem mounted (hgain : Gain static new fs fs') : Mounted static fs' := hgain.trade.frame.mounted

theorem used (hgain : Gain static new fs fs') : fs'.Used b ↔ fs.Used b ∨ b ∈ new := by
  rw [hgain.trade.used]
  simp

theorem fresh (hgain : Gain static new fs fs') (hb : b ∈ new) : ¬ fs.Used b :=
  hgain.trade.fresh b hb List.not_mem_nil

theorem data_eq (hgain : Gain static new fs fs') (hb : fs.Used b) : fs'.data b = fs.data b :=
  hgain.trade.frame.data b hb List.not_mem_nil

theorem owned (hgain : Gain static new fs fs') (hmounted : Mounted static fs) : Owned static fs' new :=
  hgain.trade.owned hmounted (by simp)

theorem perm (hgain : Gain static new fs fs') (hperm : more.Perm new) : Gain static more fs fs' :=
  ⟨hgain.trade.congr (fun _ => Iff.rfl) fun _ => hperm.mem_iff, hperm.nodup_iff.mpr hgain.nodup⟩

theorem trans (hfirst : Gain static new fs fs') (hsecond : Gain static more fs' fs'') :
    Gain static (more ++ new) fs fs'' where
  trade := by
    refine hfirst.trade.trans ?_
    exact hsecond.trade.extend (fun b hb => hfirst.used.mpr (Or.inr hb)) fun _ _ => List.not_mem_nil
  nodup := List.nodup_append'.mpr ⟨hsecond.nodup, hfirst.nodup, fun _ hmore hnew =>
    hsecond.fresh hmore (hfirst.used.mpr (Or.inr hnew))⟩

theorem release (hgain : Gain static (gone ++ rest) fs fs') (hfree : Trade static gone [] fs' fs'') :
    Gain static rest fs fs'' := by
  obtain ⟨-, hrest, hdisjoint⟩ := List.nodup_append'.mp hgain.nodup
  refine ⟨hgain.trade.trans ?_, hrest⟩
  refine hfree.extend (fun b hb => hgain.used.mpr (Or.inr (List.mem_append_right _ hb))) ?_
  exact fun b hb hgone => hdisjoint hgone hb

theorem fail {own : List UInt32} (hgain : Gain static new fs fs') (hown : ∀ b ∈ own, fs.Used b)
    (hfree : Trade static more [] fs' fs'') (hperm : more.Perm (new ++ own)) :
    Trade static own [] fs fs'' := by
  refine (hgain.trade.extend hown fun _ _ => List.not_mem_nil).trans ?_
  exact hfree.congr (fun _ => hperm.symm.mem_iff) fun _ => Iff.rfl

theorem own_append {own : List UInt32} (hgain : Gain static new fs fs') (hmounted : Mounted static fs)
    (hnodup : own.Nodup) (hown : Owned static fs own) :
    (new ++ own).Nodup ∧ Owned static fs' (new ++ own) := by
  constructor
  · exact List.nodup_append'.mpr ⟨hgain.nodup, hnodup, fun b hnew hold =>
      hgain.fresh hnew (hown b hold).1⟩
  · intro b hb
    obtain hnew | hold := List.mem_append.mp hb
    · exact hgain.owned hmounted b hnew
    · exact ⟨hgain.used.mpr (Or.inl (hown b hold).1), (hown b hold).2⟩

theorem writeBlock_spec (hgain : Gain static new fs fs') (hmounted : Mounted static fs) (hb : b ∈ new)
    (buf : Buf) :
    Runs (writeBlock b buf) fs' fun _ fs'' =>
      Gain static new fs fs'' ∧ Wrote static fs' fs'' b buf := by
  have hown := hgain.owned hmounted b hb
  refine (hgain.mounted.writeBlock_spec hown.1 hown.2 buf).mono fun _ fs'' hwrote =>
    ⟨⟨hgain.trade.trans ?_, hgain.nodup⟩, hwrote⟩
  have hself : Trade static ([b] ++ new.filter (· ≠ b)) ([b] ++ new.filter (· ≠ b)) fs' fs'' :=
    (Trade.of_wrote hown.1 hwrote).extend
      (fun q hq => hgain.used.mpr (Or.inr (List.mem_of_mem_filter hq))) fun q hq heq => by
        simp [List.mem_singleton.mp heq] at hq
  refine hself.congr (fun q => ?_) fun q => ?_ <;>
  · by_cases heq : q = b <;> simp [heq, hb]

end Gain

theorem Mounted.gain_block (hmounted : Mounted static fs) :
    Runs allocBlock fs fun b fs' =>
      (b = blockError ∧ fs' = fs) ∨ (b ≠ blockError ∧ Gain static [b] fs fs') :=
  hmounted.allocBlock_trade.mono fun b _ hcall =>
    hcall.imp_right fun htook => ⟨htook.1, htook.2, List.nodup_singleton b⟩

theorem TreeOk.of_gain {inode : Inode} (htree : TreeOk static fs inode) (hgain : Gain static new fs fs') :
    TreeOk static fs' inode ∧ refs fs'.entries inode = refs fs.entries inode ∧
      ∀ j < fileBlkLimit, mapped fs'.entries inode j = mapped fs.entries inode j :=
  htree.of_frame hgain.trade.frame fun _ _ => List.not_mem_nil

theorem Gain.entries_eq (hgain : Gain static new fs fs') {n : Nat} {p : UInt32}
    (hused : ∀ b ∈ blocks ptrsPerBlk fs.entries n p, fs.Used b) :
    ∀ q ∈ nodes ptrsPerBlk fs.entries n p, fs'.entries q = fs.entries q :=
  hgain.trade.entries_eq hused fun _ _ => List.not_mem_nil

theorem TreeOk.owned {inode : Inode} (htree : TreeOk static fs inode) :
    Owned static fs (refs fs.entries inode) :=
  fun b hb => ⟨htree.used b hb, htree.notStatic b hb⟩

structure Grafted (static : UInt32 → Prop) (fs fs' : FsInfo) (inode inode' : Inode) (r : Nat)
    (p : UInt32) (new : List UInt32) : Prop where
  tree : TreeOk static fs' inode'
  perm : (refs fs'.entries inode').Perm (new ++ refs fs.entries inode)
  root : inode'.root = Function.update inode.root r p
  mapped_eq : ∀ j < fileBlkLimit, mapped fs'.entries inode' j =
    if (locate j).1 = r then find ptrsPerBlk fs'.entries (rootHeight r) p (locate j).2
    else mapped fs.entries inode j

theorem Grafted.of_tree {inode inode' : Inode} {r : Nat} {p : UInt32} (htree : TreeOk static fs inode)
    (hr : r < 15) (hempty : inode.root r = 0) (hroot : inode'.root = Function.update inode.root r p)
    (hblocks : (blocks ptrsPerBlk fs.entries (rootHeight r) p).Perm new)
    (hfull : Full ptrsPerBlk fs.entries (rootHeight r) p)
    (hnodup : (new ++ refs fs.entries inode).Nodup) (hown : Owned static fs new) :
    Grafted static fs fs inode inode' r p new := by
  have hperm : (refs fs.entries inode').Perm (new ++ refs fs.entries inode) := by
    rw [refs, hroot]
    exact perm_forest_graft hr hempty (fun _ _ _ _ => rfl) hblocks
  have hall : Owned static fs (refs fs.entries inode') := fun b hb =>
    (List.mem_append.mp (hperm.mem_iff.mp hb)).elim (hown b) (htree.owned b)
  refine ⟨⟨?_, fun b hb => (hall b hb).1, fun b hb => (hall b hb).2, fun k hk => ?_⟩, hperm, hroot,
    fun j hj => ?_⟩
  · exact hperm.nodup_iff.mpr hnodup
  · rw [hroot, Function.update_apply]
    split_ifs with hkr
    · rw [hkr]
      exact hfull
    · exact htree.full k hk
  · rw [mapped, mapped, hroot, Function.update_apply]
    split_ifs with hkr
    · rw [hkr]
    · rfl

theorem Grafted.of_gain {inode inode' : Inode} {r : Nat} {p : UInt32} (hmounted : Mounted static fs)
    (htree : TreeOk static fs inode) (hgain : Gain static new fs fs') (hr : r < 15)
    (hempty : inode.root r = 0) (hroot : inode'.root = Function.update inode.root r p)
    (hblocks : (blocks ptrsPerBlk fs'.entries (rootHeight r) p).Perm new)
    (hfull : Full ptrsPerBlk fs'.entries (rootHeight r) p) :
    Grafted static fs fs' inode inode' r p new := by
  obtain ⟨htree', hrefs, hmapped⟩ := htree.of_gain hgain
  have hnodup : (new ++ refs fs'.entries inode).Nodup := by
    rw [hrefs]
    exact (hgain.own_append hmounted htree.nodup htree.owned).1
  have hgraft := Grafted.of_tree htree' hr hempty hroot hblocks hfull hnodup (hgain.owned hmounted)
  refine ⟨hgraft.tree, hrefs ▸ hgraft.perm, hgraft.root, fun j hj => ?_⟩
  rw [hgraft.mapped_eq j hj, hmapped j hj]

end Gains

/-! ### Progress of the loops -/

def Inode.bare (inode : Inode) : Inode := { inode.clearPtrs with diskSectors := 0 }

structure Advanced (w w' : Progress) (dataBlks allBlks : Nat) : Prop where
  bare : w'.inode.bare = w.inode.bare
  sectors : w'.inode.diskSectors = w.inode.diskSectors + 8 * UInt32.ofNat allBlks
  left : w'.blocksLeft.toNat + dataBlks = w.blocksLeft.toNat

namespace Advanced

theorem refl (w : Progress) : Advanced w w 0 0 := ⟨rfl, by simp, rfl⟩

theorem trans {w w' w'' : Progress} {m m' n n' : Nat} (hfirst : Advanced w w' m n)
    (hsecond : Advanced w' w'' m' n') : Advanced w w'' (m + m') (n + n') where
  bare := hsecond.bare.trans hfirst.bare
  sectors := by
    rw [hsecond.sectors, hfirst.sectors, UInt32.ofNat_add, UInt32.mul_add, UInt32.add_assoc]
  left := by
    have := hsecond.left
    have := hfirst.left
    omega

theorem advance {w : Progress} (hleft : w.blocksLeft ≠ 0) : Advanced w w.advance 1 1 where
  bare := rfl
  sectors := rfl
  left := by
    have hpos : 1 ≤ w.blocksLeft := by
      rw [UInt32.le_iff_toNat_le]
      have := mt UInt32.toNat_inj.mp hleft
      change 1 ≤ _
      change _ ≠ 0 at this
      omega
    change (w.blocksLeft - 1).toNat + 1 = _
    rw [UInt32.toNat_sub_of_le _ _ hpos]
    rw [UInt32.le_iff_toNat_le] at hpos
    exact Nat.sub_add_cancel hpos

theorem countBlock (w : Progress) : Advanced w w.countBlock 0 1 := ⟨rfl, rfl, rfl⟩

end Advanced

/-! ### The direct pointers -/

theorem treeBlocks_trees_of_zero (fs : FsInfo) {inode : Inode} {n : Nat} (hn : n ≤ 15)
    (hzero : ∀ r, n ≤ r → inode.root r = 0) :
    treeBlocks fs (inode.trees n) = refs fs.entries inode := by
  have hsplit : List.range 15 = List.range n ++ (List.range (15 - n)).map (n + ·) := by
    rw [← List.range_add, Nat.add_sub_cancel' hn]
  have hnil : (((List.range (15 - n)).map (n + ·)).flatMap fun r =>
      blocks ptrsPerBlk fs.entries (rootHeight r) (inode.root r)) = [] := by
    refine List.flatMap_eq_nil_iff.mpr fun r hr => ?_
    obtain ⟨k, -, rfl⟩ := List.mem_map.mp hr
    rw [hzero (n + k) (by omega), blocks_zero_ptr]
  rw [treeBlocks, Inode.trees, List.flatMap_map, refs, forest, hsplit, List.flatMap_append, hnil,
    List.append_nil]

theorem Progress.inode_setDirect (w : Progress) {i : Nat} (hi : i < 12) (b : UInt32) :
    (w.setDirect i b).inode = w.inode.setRoot i b := by
  have hupdate : (fun k : Fin 12 => if k.val = i then b else w.inode.dirBlockPtr k)
      = Function.update w.inode.dirBlockPtr ⟨i, hi⟩ b := by
    funext k
    rw [Function.update_apply]
    exact if_congr (by rw [Fin.ext_iff]) rfl rfl
  rw [Inode.setRoot, dif_pos hi, setDirect, hupdate]

theorem sizeBlocks_le (size : UInt32) : sizeBlocks size ≤ 1048576 := by
  have hlt := size.toNat_lt
  rw [sizeBlocks]
  omega

theorem lt_fileBlkLimit {size : UInt32} {j : Nat} (hj : j < sizeBlocks size) : j < fileBlkLimit := by
  have hle := sizeBlocks_le size
  rw [fileBlkLimit]
  omega

/-- Block `b` holds block `j` of a file of `size` bytes that are those of the buffer, with zeros past its end. -/
structure HoldsChunk (fs : FsInfo) (buf : Buf) (size : UInt32) (j : Nat) (b : UInt32) : Prop where
  ne_zero : b ≠ 0
  data : ∀ k < blockSize, fs.data b k = if blockSize * j + k < size.toNat then buf (blockSize * j + k) else 0

theorem HoldsChunk.gain {static : UInt32 → Prop} {fs fs' : FsInfo} {buf : Buf} {size b : UInt32} {j : Nat}
    {new : List UInt32} (hholds : HoldsChunk fs buf size j b) (hgain : Gain static new fs fs') (hused : fs.Used b) :
    HoldsChunk fs' buf size j b :=
  ⟨hholds.ne_zero, by rw [hgain.data_eq hused]; exact hholds.data⟩

/-- As long as there are blocks to write, the next one is block `j` of the file. -/
def Progress.At (w : Progress) (j : Nat) : Prop :=
  w.blocksLeft ≠ 0 → w.bufCursor.toNat = 2048 * j ∧ w.blocksLeft.toNat + j = sizeBlocks w.inode.sizeLo

namespace Progress.At

variable {w : Progress} {j : Nat} (hat : w.At j) (hleft : w.blocksLeft ≠ 0)

include hat hleft

theorem lt_size : blockSize * j < w.inode.sizeLo.toNat := by
  have hpos : w.blocksLeft.toNat ≠ 0 := fun h => hleft (UInt32.toNat_inj.mp h)
  have hcount := (hat hleft).2
  rw [sizeBlocks] at hcount
  rw [blockSize]
  omega

theorem rest_eq : (w.inode.sizeLo - w.bufCursor * 2).toNat = w.inode.sizeLo.toNat - blockSize * j := by
  have hlt := hat.lt_size hleft
  have hmax := w.inode.sizeLo.toNat_lt
  rw [blockSize] at hlt ⊢
  have hdouble : (w.bufCursor * 2).toNat = 4096 * j := by
    rw [UInt32.toNat_mul, (hat hleft).1]
    change 2048 * j * 2 % 4294967296 = _
    omega
  rw [UInt32.toNat_sub_of_le _ _ (UInt32.le_iff_toNat_le.mpr (by omega)), hdouble]

theorem nextBlock_apply (buf : Buf) {k : Nat} (hk : k < blockSize) : w.nextBlock buf k =
    if blockSize * j + k < w.inode.sizeLo.toNat then buf (blockSize * j + k) else 0 := by
  have hlt := hat.lt_size hleft
  have hmax := w.inode.sizeLo.toNat_lt
  have hcursor := (hat hleft).1
  rw [Progress.nextBlock, hat.rest_eq hleft, hcursor]
  rw [blockSize] at hk hlt ⊢
  dsimp only
  by_cases hwords : k < 2 * (min (w.inode.sizeLo.toNat - 4096 * j) 4096 / 2)
  · rw [if_pos hwords, if_pos (by omega)]
    congr 1
    omega
  rw [if_neg hwords]
  by_cases hodd : min (w.inode.sizeLo.toNat - 4096 * j) 4096 % 2 = 1 ∧
      k = min (w.inode.sizeLo.toNat - 4096 * j) 4096 - 1
  · rw [if_pos hodd, if_pos (by omega)]
    have hlast : ((w.bufCursor + UInt32.ofNat (min (w.inode.sizeLo.toNat - 4096 * j) 4096 / 2)) * 2).toNat
        = 4096 * j + k := by
      rw [UInt32.toNat_mul, UInt32.toNat_add, UInt32.toNat_ofNat', hcursor]
      change (2048 * j + _ % 4294967296) % 4294967296 * 2 % 4294967296 = _
      omega
    rw [hlast]
  · rw [if_neg hodd, if_neg (by omega)]

theorem advance : w.advance.At (j + 1) := by
  intro hmore
  have hstep := (Advanced.advance hleft).left
  have hmore : w.advance.blocksLeft.toNat ≠ 0 := fun h => hmore (UInt32.toNat_inj.mp h)
  have hlt := hat.lt_size hleft
  have hmax := w.inode.sizeLo.toNat_lt
  obtain ⟨hcursor, hcount⟩ := hat hleft
  constructor
  · change (w.bufCursor + UInt32.ofNat (min (w.inode.sizeLo - w.bufCursor * 2).toNat blockSize / 2)).toNat = _
    rw [sizeBlocks] at hcount
    rw [hat.rest_eq hleft, UInt32.toNat_add, UInt32.toNat_ofNat', hcursor]
    rw [blockSize] at hlt ⊢
    omega
  · change w.advance.blocksLeft.toNat + (j + 1) = sizeBlocks w.inode.sizeLo
    omega

end Progress.At

theorem Progress.At.writeBlock_spec {static : UInt32 → Prop} {fs mid : FsInfo} {w : Progress} {j : Nat} {b : UInt32}
    (hat : w.At j) (hleft : w.blocksLeft ≠ 0) (hmounted : Mounted static fs) (hgain : Gain static [b] fs mid)
    (hb : b ≠ 0) (buf : Buf) :
    Runs (writeBlock b (w.nextBlock buf)) mid fun _ fs' =>
      Gain static [b] fs fs' ∧ HoldsChunk fs' buf w.inode.sizeLo j b := by
  refine (hgain.writeBlock_spec hmounted List.mem_cons_self _).mono fun _ fs' hwrote => ⟨hwrote.1, hb, fun k hk => ?_⟩
  rw [hwrote.2.data, Function.update_self, hat.nextBlock_apply hleft buf hk]

structure DirectDone (static : UInt32 → Prop) (fs fs' : FsInfo) (fuel i : Nat) (w w' : Progress)
    (new : List UInt32) (buf : Buf) : Prop where
  gain : Gain static new fs fs'
  tree : TreeOk static fs' w'.inode
  perm : (refs fs'.entries w'.inode).Perm (new ++ refs fs.entries w.inode)
  le : new.length ≤ fuel
  root : ∀ r, i + new.length ≤ r → w'.inode.root r = 0
  kept : ∀ r < i, w'.inode.root r = w.inode.root r
  content : ∀ r, i ≤ r → r < i + new.length → HoldsChunk fs' buf w.inode.sizeLo r (w'.inode.root r)
  next : w'.At (i + new.length)
  advanced : Advanced w w' new.length new.length
  stop : w'.blocksLeft = 0 ∨ new.length = fuel

theorem DirectDone.refl {static : UInt32 → Prop} {fs : FsInfo} {w : Progress} {fuel i : Nat} {buf : Buf}
    (hmounted : Mounted static fs) (htree : TreeOk static fs w.inode)
    (hzero : ∀ r, i ≤ r → w.inode.root r = 0) (hat : w.At i) (hstop : w.blocksLeft = 0 ∨ 0 = fuel) :
    DirectDone static fs fs fuel i w w [] buf where
  gain := Gain.refl hmounted
  tree := htree
  perm := by rw [List.nil_append]
  le := Nat.zero_le _
  root := hzero
  kept _ _ := rfl
  content r hlow hhigh := absurd hhigh (Nat.not_lt.mpr hlow)
  next := hat
  advanced := Advanced.refl w
  stop := hstop

theorem writeDirect_spec {static : UInt32 → Prop} (buf : Buf) (fuel i : Nat) {w : Progress} {fs : FsInfo}
    (hmounted : Mounted static fs) (hi : i + fuel = 12) (htree : TreeOk static fs w.inode)
    (hzero : ∀ r, i ≤ r → w.inode.root r = 0) (hat : w.At i) :
    Runs (writeDirect buf fuel i w) fs fun result fs' =>
      (result.1 = false ∧ result.2.inode.bare = w.inode.bare ∧
        Trade static (refs fs.entries w.inode) [] fs fs') ∨
      (result.1 = true ∧ ∃ new, DirectDone static fs fs' fuel i w result.2 new buf) := by
  induction fuel generalizing i w fs with
  | zero =>
    exact Runs.pure (Or.inr ⟨rfl, [], DirectDone.refl hmounted htree hzero hat (Or.inr rfl)⟩)
  | succ fuel ih =>
    rw [writeDirect]
    by_cases hleft : w.blocksLeft = 0
    · rw [if_pos hleft]
      exact Runs.pure (Or.inr ⟨rfl, [], DirectDone.refl hmounted htree hzero hat (Or.inl hleft)⟩)
    rw [if_neg hleft]
    refine hmounted.gain_block.bind fun b mid hcall => ?_
    obtain ⟨hnone, rfl⟩ | ⟨hb, hgain⟩ := hcall
    · have hblocks : treeBlocks mid (w.inode.trees 12) = refs mid.entries w.inode :=
        treeBlocks_trees_of_zero mid (by omega) fun r hr => hzero r (by omega)
      rw [if_pos hnone, freeDirect_eq]
      exact (freeTrees_of_perm hmounted (List.Perm.of_eq hblocks) htree.nodup htree.owned).bind
        fun _ fs' hfree => Runs.pure (Or.inl ⟨rfl, rfl, hfree⟩)
    rw [if_neg hb]
    have hne : b ≠ 0 := hb
    refine (hat.writeBlock_spec hleft hmounted hgain hne buf).bind fun _ fs₁ hwrote => ?_
    have hdirect : i < 12 := by omega
    have hheight : rootHeight i = 0 := by
      rw [rootHeight]
      omega
    have hgraft : Grafted static fs fs₁ w.advance.inode (w.advance.setDirect i b).inode i b [b] := by
      refine Grafted.of_gain hmounted (htree.of_root rfl) hwrote.1 (by omega) (hzero i le_rfl)
        (by rw [Progress.inode_setDirect _ hdirect, Inode.root_setRoot _ (by omega)]) ?_ ?_
      · rw [hheight, blocks, if_neg hne]
      · rw [hheight]
        trivial
    have hroots : ∀ r, i + 1 ≤ r → (w.advance.setDirect i b).inode.root r = 0 := fun r hr => by
      rw [hgraft.root, Function.update_of_ne (by omega)]
      exact hzero r (by omega)
    have hstep : Advanced w (w.advance.setDirect i b) 1 1 := by
      have hadvance := Advanced.advance hleft
      exact ⟨hadvance.bare, hadvance.sectors, hadvance.left⟩
    refine (ih (i + 1) hwrote.1.mounted (by omega) hgraft.tree hroots (hat.advance hleft)).mono
      fun result fs' hrest => ?_
    obtain ⟨hfail, hbare, hfree⟩ | ⟨hok, new, hdone⟩ := hrest
    · refine Or.inl ⟨hfail, hbare.trans hstep.bare, ?_⟩
      exact hwrote.1.fail htree.used hfree hgraft.perm
    · have hlength : (new ++ [b]).length = 1 + new.length := by
        rw [List.length_append, List.length_singleton, Nat.add_comm]
      have hrootB : result.2.inode.root i = b := by
        rw [hdone.kept i (Nat.lt_succ_self i), hgraft.root, Function.update_self]
      refine Or.inr ⟨hok, new ++ [b], hwrote.1.trans hdone.gain, hdone.tree, ?_, ?_, ?_, ?_, ?_, ?_, ?_, ?_⟩
      · rw [List.append_assoc]
        exact hdone.perm.trans (hgraft.perm.append_left new)
      · have hle := hdone.le
        omega
      · exact fun r hr => hdone.root r (by omega)
      · intro r hr
        rw [hdone.kept r (by omega), hgraft.root, Function.update_of_ne (by omega)]
        rfl
      · intro r hlow hhigh
        by_cases heq : r = i
        · subst heq
          rw [hrootB]
          exact hwrote.2.gain hdone.gain (hwrote.1.used.mpr (Or.inr List.mem_cons_self))
        · exact hdone.content r (by omega) (by omega)
      · rw [hlength, ← Nat.add_assoc]
        exact hdone.next
      · rw [hlength]
        exact hstep.trans hdone.advanced
      · exact hdone.stop.imp_right fun h => by omega

/-! ### The pointer blocks -/

def leaves (blk : Buf) : List UInt32 :=
  forest ptrsPerBlk (fun _ _ => 0) (fun _ => 0) (ptr blk) ptrsPerBlk

/-- The loop over the entries of a pointer block, which stand for the file blocks from `base` on, went from `blk` to
`blk'` and from `w` to `w'`, writing the data blocks `new`. -/
structure IndirDone (static : UInt32 → Prop) (fs fs' : FsInfo) (buf : Buf) (base fuel i : Nat) (blk blk' : Buf)
    (w w' : Progress) (ok : Bool) (new : List UInt32) : Prop where
  gain : Gain static new fs fs'
  perm : (leaves blk').Perm (new ++ leaves blk)
  le : new.length ≤ fuel
  tail : ∀ k < ptrsPerBlk, i + new.length ≤ k → ptr blk' k = 0
  kept : ∀ k < i, ptr blk' k = ptr blk k
  content : ∀ k, i ≤ k → k < i + new.length → HoldsChunk fs' buf w.inode.sizeLo (base + k) (ptr blk' k)
  next : w'.At (base + (i + new.length))
  root : w'.inode.root = w.inode.root
  advanced : Advanced w w' new.length new.length
  stop : ok = true → w'.blocksLeft = 0 ∨ new.length = fuel

theorem IndirDone.refl {static : UInt32 → Prop} {fs : FsInfo} {base fuel i : Nat} {buf blk : Buf} {w : Progress}
    {ok : Bool} (hmounted : Mounted static fs) (hzero : ∀ k < ptrsPerBlk, i ≤ k → ptr blk k = 0)
    (hat : w.At (base + i)) (hstop : ok = true → w.blocksLeft = 0 ∨ 0 = fuel) :
    IndirDone static fs fs buf base fuel i blk blk w w ok [] where
  gain := Gain.refl hmounted
  perm := by rw [List.nil_append]
  le := Nat.zero_le _
  tail := hzero
  kept _ _ := rfl
  content k hlow hhigh := absurd hhigh (Nat.not_lt.mpr hlow)
  next := hat
  root := rfl
  advanced := Advanced.refl w
  stop := hstop

theorem writeIndir_spec {static : UInt32 → Prop} (buf : Buf) {base : Nat} (fuel i : Nat) {blk : Buf} {w : Progress}
    {fs : FsInfo} (hmounted : Mounted static fs) (hi : i + fuel = ptrsPerBlk)
    (hzero : ∀ k < ptrsPerBlk, i ≤ k → ptr blk k = 0) (hat : w.At (base + i)) :
    Runs (writeIndir buf fuel i blk w) fs fun result fs' =>
      ∃ new, IndirDone static fs fs' buf base fuel i blk result.2.1 w result.2.2 result.1 new := by
  induction fuel generalizing i blk w fs with
  | zero =>
    exact Runs.pure ⟨[], IndirDone.refl hmounted hzero hat fun _ => Or.inr rfl⟩
  | succ fuel ih =>
    have hslot : i < ptrsPerBlk := by omega
    rw [writeIndir]
    by_cases hleft : w.blocksLeft = 0
    · rw [if_pos hleft]
      exact Runs.pure ⟨[], IndirDone.refl hmounted hzero hat fun _ => Or.inl hleft⟩
    rw [if_neg hleft]
    refine hmounted.gain_block.bind fun b mid hcall => ?_
    obtain ⟨hnone, rfl⟩ | ⟨hb, hgain⟩ := hcall
    · rw [if_pos hnone]
      exact Runs.pure ⟨[], IndirDone.refl hmounted hzero hat fun hok => Bool.noConfusion hok⟩
    rw [if_neg hb]
    have hne : b ≠ 0 := hb
    refine (hat.writeBlock_spec hleft hmounted hgain hne buf).bind fun _ fs₁ hwrote => ?_
    refine (ih (i + 1) hwrote.1.mounted (by omega) (fun k hk hik => ?_) (hat.advance hleft)).mono
      fun result fs' hdone => ?_
    · rw [ptr_setPtr, Function.update_of_ne (by omega)]
      exact hzero k hk (by omega)
    obtain ⟨new, hdone⟩ := hdone
    have hlength : (new ++ [b]).length = 1 + new.length := by
      rw [List.length_append, List.length_singleton, Nat.add_comm]
    have hslotB : ptr result.2.1 i = b := by
      rw [hdone.kept i (Nat.lt_succ_self i), ptr_setPtr, Function.update_self]
    have hgraft : (leaves (setPtr blk i b)).Perm ([b] ++ leaves blk) := by
      rw [leaves, ptr_setPtr]
      refine perm_forest_graft hslot (hzero i hslot le_rfl) (by simp [nodes]) ?_
      rw [blocks, if_neg hne]
    refine ⟨new ++ [b], hwrote.1.trans hdone.gain, ?_, ?_, ?_, ?_, ?_, ?_, hdone.root, ?_, ?_⟩
    · rw [List.append_assoc]
      exact hdone.perm.trans (hgraft.append_left new)
    · have hle := hdone.le
      omega
    · intro k hk hik
      exact hdone.tail k hk (by omega)
    · intro k hk
      rw [hdone.kept k (by omega), ptr_setPtr, Function.update_of_ne (by omega)]
    · intro k hlow hhigh
      by_cases heq : k = i
      · subst heq
        rw [hslotB]
        exact hwrote.2.gain hdone.gain (hwrote.1.used.mpr (Or.inr List.mem_cons_self))
      · exact hdone.content k (by omega) (by omega)
    · rw [hlength, ← Nat.add_assoc i]
      exact hdone.next
    · rw [hlength]
      exact (Advanced.advance hleft).trans hdone.advanced
    · intro hok
      exact (hdone.stop hok).imp_right fun h => by omega

section OneBlock

variable {static : UInt32 → Prop} {fs mid fs₁ fs₂ : FsInfo} {w w' : Progress} {p : UInt32} {buf blk : Buf}
  {base : Nat} {data : List UInt32}

theorem leaves_zero : leaves zero = [] :=
  List.flatMap_eq_nil_iff.mpr fun k _ => by rw [ptr_zero, blocks_zero_ptr]

/-- One pointer block, for the file blocks from `base` on, was taken, filled with the blocks `data` and written. -/
structure Filled (static : UInt32 → Prop) (fs fs' : FsInfo) (buf : Buf) (base : Nat) (w w' : Progress) (p : UInt32)
    (data : List UInt32) : Prop where
  gain : Gain static (data ++ [p]) fs fs'
  blocks_perm : (blocks ptrsPerBlk fs'.entries 1 p).Perm (data ++ [p])
  full : Full ptrsPerBlk fs'.entries 1 p
  le : data.length ≤ ptrsPerBlk
  find_eq : ∀ o < ptrsPerBlk, data.length ≤ o → find ptrsPerBlk fs'.entries 1 p o = 0
  content : ∀ o < data.length, HoldsChunk fs' buf w.inode.sizeLo (base + o) (find ptrsPerBlk fs'.entries 1 p o)
  next : w'.At (base + data.length)
  ne_zero : p ≠ 0
  root : w'.inode.root = w.inode.root
  advanced : Advanced w w' data.length (data ++ [p]).length
  stop : w'.blocksLeft = 0 ∨ data.length = ptrsPerBlk

theorem Filled.of_indirDone (hmounted : Mounted static fs) (hp : p ≠ 0) (hleft : w.blocksLeft ≠ 0)
    (htook : Gain static [p] fs mid)
    (hdone : IndirDone static mid fs₁ buf base ptrsPerBlk 0 zero blk w.countBlock w' true data) :
    Runs (writeBlock p blk) fs₁ fun _ fs₂ => Filled static fs fs₂ buf base w w' p data := by
  have hgain := htook.trans hdone.gain
  refine (hgain.writeBlock_spec hmounted (List.mem_append_right _ List.mem_cons_self) blk).mono
    fun _ fs₂ hwrote => ?_
  have hentries : fs₂.entries p = ptr blk := by
    funext k
    rw [FsInfo.entries, hwrote.2.data, Function.update_self]
  have hperm := hdone.perm
  rw [leaves_zero, List.append_nil] at hperm
  have hadvanced := (Advanced.countBlock w).trans hdone.advanced
  rw [Nat.zero_add, Nat.add_comm, ← List.length_singleton (a := p), ← List.length_append] at hadvanced
  have hstop := hdone.stop rfl
  have hfind : ∀ o, find ptrsPerBlk fs₂.entries 1 p o = ptr blk o := fun o => by
    rw [find_succ hp, pow_zero, Nat.div_one, hentries, find]
  have hnext := hdone.next
  rw [Nat.zero_add] at hnext
  refine ⟨hwrote.1, ?_, Or.inr ⟨?_, fun _ _ => trivial⟩, hdone.le, ?_, fun o ho => ?_, hnext, hp, hdone.root, hadvanced, hstop⟩
  · rw [blocks_succ hp, hentries]
    exact (hperm.cons p).trans (List.perm_append_singleton p data).symm
  · have hdata : data ≠ [] := by
      rintro rfl
      obtain hzero | hfull := hstop
      · have hcount := hadvanced.left
        rw [hzero] at hcount
        exact hleft (UInt32.toNat_inj.mp hcount.symm)
      · cases hfull
    obtain ⟨b, hb⟩ := List.exists_mem_of_ne_nil data hdata
    obtain ⟨k, hk, hmem⟩ := mem_forest.mp (hperm.mem_iff.mpr hb)
    refine ⟨k, hk, fun hzero => ?_⟩
    rw [hentries] at hzero
    rw [hzero, blocks_zero_ptr] at hmem
    cases hmem
  · intro o ho hpast
    rw [hfind]
    exact hdone.tail o ho (by omega)
  · have hholds := hdone.content o (Nat.zero_le o) (by omega)
    rw [hfind]
    refine ⟨hholds.ne_zero, ?_⟩
    -- the data blocks were written while `p` was in use, so `p` is none of them
    have hmem : ptr blk o ∈ data := by
      have hle := hdone.le
      refine hperm.mem_iff.mp (mem_forest.mpr ⟨o, by omega, ?_⟩)
      rw [blocks, if_neg hholds.ne_zero]
      exact List.mem_cons_self
    rw [hwrote.2.data, Function.update_of_ne]
    · exact hholds.data
    · rintro heq
      exact hdone.gain.fresh hmem (heq ▸ htook.used.mpr (Or.inr List.mem_cons_self))

end OneBlock

end DeprecatOS
