import DeprecatOS.FsInfo

/-!
# The byte image of an inode

An inode written to a slot of a table block reads back as it was, and writing it changes no byte
outside the 128 bytes of the slot.
-/

namespace DeprecatOS

open Bytes Bits Fault

namespace Inode

theorem storePtrs_apply_of_disjoint {off k n : Nat} (ino : Inode) (buf : Buf) (hn : n ≤ 12)
    (hk : k < off ∨ off + 4 * n ≤ k) : storePtrs ino buf off n k = buf k := by
  induction n with
  | zero => rfl
  | succ n ih =>
    rw [storePtrs, dif_pos (by omega), store32_apply_of_disjoint _ _ (by omega),
      ih (by omega) (by omega)]

theorem load32_storePtrs_self {off n : Nat} (ino : Inode) (buf : Buf) (i : Fin 12) (hi : i < n)
    (hn : n ≤ 12) : load32 (storePtrs ino buf off n) (off + 4 * i) = ino.dirBlockPtr i := by
  induction n with
  | zero => omega
  | succ n ih =>
    rw [storePtrs, dif_pos (by omega)]
    by_cases heq : i.val = n
    · subst heq
      rw [load32_store32_self]
    · rw [load32_store32_of_disjoint _ _ (by omega), ih (by omega) (by omega)]

theorem load16_storePtrs_of_disjoint {off n off' : Nat} (ino : Inode) (buf : Buf) (hn : n ≤ 12)
    (hdisjoint : off' + 2 ≤ off ∨ off + 4 * n ≤ off') :
    load16 (storePtrs ino buf off n) off' = load16 buf off' :=
  load16_congr fun k hlow hhigh => storePtrs_apply_of_disjoint ino buf hn (by omega)

theorem load32_storePtrs_of_disjoint {off n off' : Nat} (ino : Inode) (buf : Buf) (hn : n ≤ 12)
    (hdisjoint : off' + 4 ≤ off ∨ off + 4 * n ≤ off') :
    load32 (storePtrs ino buf off n) off' = load32 buf off' :=
  load32_congr fun k hlow hhigh => storePtrs_apply_of_disjoint ino buf hn (by omega)

theorem load_store_self (ino : Inode) (buf : Buf) (off : Nat) : load (store ino buf off) off = ino := by
  have hptrs : ∀ i : Fin 12, load32 (store ino buf off) (off + 40 + 4 * i) = ino.dirBlockPtr i := by
    intro i
    unfold store
    simp (disch := omega) only [load32_store16_of_disjoint, load32_store32_of_disjoint,
      load32_store8_of_disjoint]
    exact load32_storePtrs_self ino _ i i.isLt le_rfl
  have hload : load (store ino buf off) off
      = { load (store ino buf off) off with dirBlockPtr := ino.dirBlockPtr } := by
    rw [← (funext hptrs : (fun i : Fin 12 => load32 (store ino buf off) (off + 40 + 4 * i)) = _)]
    rfl
  rw [hload]
  unfold load store
  simp (disch := omega) only [load16_store16_self, load32_store32_self, load16_store16_of_disjoint,
    load16_store32_of_disjoint, load32_store16_of_disjoint, load32_store32_of_disjoint,
    load16_store8_of_disjoint, load32_store8_of_disjoint, store16_apply_of_disjoint,
    store32_apply_of_disjoint, store8_apply_of_ne, store8_apply_self, load16_storePtrs_of_disjoint,
    load32_storePtrs_of_disjoint]

theorem store_apply_of_disjoint (ino : Inode) (buf : Buf) {off k : Nat}
    (hk : k < off ∨ off + 128 ≤ k) : store ino buf off k = buf k := by
  unfold store
  simp (disch := omega) only [store16_apply_of_disjoint, store32_apply_of_disjoint, store8_apply_of_ne,
    storePtrs_apply_of_disjoint]

theorem load_congr {left right : Buf} {off : Nat}
    (hsame : ∀ k, off ≤ k → k < off + 128 → left k = right k) : load left off = load right off := by
  have h16 : ∀ d, d + 2 ≤ 128 → load16 left (off + d) = load16 right (off + d) := fun d hd =>
    load16_congr fun k hlow hhigh => hsame k (by omega) (by omega)
  have h32 : ∀ d, d + 4 ≤ 128 → load32 left (off + d) = load32 right (off + d) := fun d hd =>
    load32_congr fun k hlow hhigh => hsame k (by omega) (by omega)
  have hptrs : ∀ i : Fin 12, load32 left (off + 40 + 4 * i) = load32 right (off + 40 + 4 * i) := by
    intro i
    rw [Nat.add_assoc]
    exact h32 _ (by omega)
  have hzero := h16 0 (by omega)
  rw [Nat.add_zero] at hzero
  unfold load
  simp only [hzero, h16, h32, hptrs, hsame (off + 116) (by omega) (by omega),
    hsame (off + 117) (by omega) (by omega), Nat.reduceLeDiff, Nat.reduceAdd]

end Inode

end DeprecatOS
