import Mathlib.Logic.Function.Basic
import Mathlib.Algebra.Order.Ring.Nat
import Mathlib.Tactic.Ring

/-!
# Byte buffers and little-endian fields

A buffer is a total map from offsets to bytes. A struct that a program overlays on a buffer is a set
of little-endian fields at fixed offsets, so all that is needed of one is how a field reads after
another one has been written: itself at the same offset, and what it was at a disjoint one.
-/

namespace Bytes

/-- A byte buffer. Offsets past the end of the buffer it stands for are never read or written. -/
abbrev Buf := Nat → UInt8

def zero : Buf := fun _ => 0

/-- The little-endian number in the `width` bytes from `off` on. -/
def load : Nat → Buf → Nat → Nat
  | 0, _, _ => 0
  | width + 1, buf, off => (buf off).toNat + 256 * load width buf (off + 1)

/-- The buffer with `value` written little-endian to the `width` bytes from `off` on. -/
def store (width : Nat) (buf : Buf) (off value : Nat) : Buf := fun k =>
  if off ≤ k ∧ k < off + width then UInt8.ofNat (value / 256 ^ (k - off)) else buf k

theorem store_apply_of_disjoint {width off k : Nat} (buf : Buf) (value : Nat)
    (hk : k < off ∨ off + width ≤ k) : store width buf off value k = buf k := by
  unfold store
  rw [if_neg (by omega)]

theorem store_apply_of_mem {width off k : Nat} (buf : Buf) (value : Nat)
    (hlow : off ≤ k) (hhigh : k < off + width) :
    store width buf off value k = UInt8.ofNat (value / 256 ^ (k - off)) := by
  unfold store
  rw [if_pos ⟨hlow, hhigh⟩]

theorem load_lt (width : Nat) (buf : Buf) (off : Nat) : load width buf off < 256 ^ width := by
  induction width generalizing off with
  | zero => simp [load]
  | succ width ih =>
    have hhead := (buf off).toNat_lt
    have htail := ih (off + 1)
    rw [load, pow_succ]
    omega

theorem load_congr {width off : Nat} {left right : Buf}
    (hsame : ∀ k, off ≤ k → k < off + width → left k = right k) :
    load width left off = load width right off := by
  induction width generalizing off with
  | zero => rfl
  | succ width ih =>
    rw [load, load, hsame off le_rfl (by omega),
      ih fun k hlow hhigh => hsame k (by omega) (by omega)]

theorem load_store_of_disjoint {width width' off off' : Nat} (buf : Buf) (value : Nat)
    (hdisjoint : off + width ≤ off' ∨ off' + width' ≤ off) :
    load width (store width' buf off' value) off = load width buf off := by
  apply load_congr
  intro k hlow hhigh
  exact store_apply_of_disjoint buf value (by omega)

theorem load_store_self (width : Nat) (buf : Buf) (off value : Nat) :
    load width (store width buf off value) off = value % 256 ^ width := by
  -- One byte at a time: the tail of the field is the field of `value / 256`, one byte on.
  induction width generalizing off value buf with
  | zero => simp [load, Nat.mod_one]
  | succ width ih =>
    have htail : load width (store (width + 1) buf off value) (off + 1)
        = load width (store width buf (off + 1) (value / 256)) (off + 1) := by
      apply load_congr
      intro k hlow hhigh
      rw [store_apply_of_mem buf value (by omega) (by omega),
        store_apply_of_mem buf (value / 256) hlow hhigh, Nat.div_div_eq_div_mul, ← pow_succ']
      congr 3
      omega
    have hhead : (store (width + 1) buf off value off).toNat = value % 256 := by
      rw [store_apply_of_mem buf value le_rfl (by omega), Nat.sub_self, pow_zero, Nat.div_one,
        UInt8.toNat_ofNat']
    rw [load, htail, ih, hhead, pow_succ', Nat.mod_mul]

theorem load_zero (width off : Nat) : load width zero off = 0 := by
  induction width generalizing off with
  | zero => rfl
  | succ width ih => simp [load, ih, zero]

theorem load_byte {width off k : Nat} (buf : Buf) (hk : k < width) :
    UInt8.ofNat (load width buf off / 256 ^ k) = buf (off + k) := by
  induction width generalizing off k with
  | zero => omega
  | succ width ih =>
    have hhead := (buf off).toNat_lt
    rw [load]
    cases k with
    | zero =>
      apply UInt8.toNat_inj.mp
      rw [UInt8.toNat_ofNat', pow_zero, Nat.div_one]
      change _ % 256 = (buf off).toNat
      omega
    | succ k =>
      have hdiv : ((buf off).toNat + 256 * load width buf (off + 1)) / 256
          = load width buf (off + 1) := by omega
      rw [pow_succ', ← Nat.div_div_eq_div_mul, hdiv, ih (by omega)]
      congr 1
      omega

theorem store_load (width : Nat) (buf : Buf) (off : Nat) :
    store width buf off (load width buf off) = buf := by
  funext k
  by_cases hk : off ≤ k ∧ k < off + width
  · rw [store_apply_of_mem buf _ hk.1 hk.2, load_byte buf (by omega)]
    congr 1
    omega
  · exact store_apply_of_disjoint buf _ (by omega)

theorem store_store_self (width : Nat) (buf : Buf) (off first second : Nat) :
    store width (store width buf off first) off second = store width buf off second := by
  funext k
  by_cases hk : off ≤ k ∧ k < off + width
  · rw [store_apply_of_mem _ _ hk.1 hk.2, store_apply_of_mem _ _ hk.1 hk.2]
  · rw [store_apply_of_disjoint _ _ (by omega), store_apply_of_disjoint _ _ (by omega),
      store_apply_of_disjoint _ _ (by omega)]

/-! ### Typed fields -/

def load16 (buf : Buf) (off : Nat) : UInt16 := UInt16.ofNat (load 2 buf off)

def load32 (buf : Buf) (off : Nat) : UInt32 := UInt32.ofNat (load 4 buf off)

def store16 (buf : Buf) (off : Nat) (value : UInt16) : Buf := store 2 buf off value.toNat

def store32 (buf : Buf) (off : Nat) (value : UInt32) : Buf := store 4 buf off value.toNat

def store8 (buf : Buf) (off : Nat) (value : UInt8) : Buf := Function.update buf off value

theorem toNat_load16 (buf : Buf) (off : Nat) : (load16 buf off).toNat = load 2 buf off := by
  rw [load16, UInt16.toNat_ofNat']
  exact Nat.mod_eq_of_lt (load_lt 2 buf off)

theorem toNat_load32 (buf : Buf) (off : Nat) : (load32 buf off).toNat = load 4 buf off := by
  rw [load32, UInt32.toNat_ofNat']
  exact Nat.mod_eq_of_lt (load_lt 4 buf off)

@[simp]
theorem load16_store16_self (buf : Buf) (off : Nat) (value : UInt16) :
    load16 (store16 buf off value) off = value := by
  apply UInt16.toNat_inj.mp
  rw [toNat_load16, store16, load_store_self]
  exact Nat.mod_eq_of_lt value.toNat_lt

@[simp]
theorem load32_store32_self (buf : Buf) (off : Nat) (value : UInt32) :
    load32 (store32 buf off value) off = value := by
  apply UInt32.toNat_inj.mp
  rw [toNat_load32, store32, load_store_self]
  exact Nat.mod_eq_of_lt value.toNat_lt

theorem byte_eq_of_load16 {off k : Nat} {left right : Buf} (hload : load16 left off = load16 right off) (hk : k < 2) :
    left (off + k) = right (off + k) := by
  have hnat := congrArg UInt16.toNat hload
  rw [toNat_load16, toNat_load16] at hnat
  rw [← load_byte left hk, ← load_byte right hk, hnat]

theorem byte_eq_of_load32 {off k : Nat} {left right : Buf} (hload : load32 left off = load32 right off) (hk : k < 4) :
    left (off + k) = right (off + k) := by
  have hnat := congrArg UInt32.toNat hload
  rw [toNat_load32, toNat_load32] at hnat
  rw [← load_byte left hk, ← load_byte right hk, hnat]

theorem load16_congr {off : Nat} {left right : Buf}
    (hsame : ∀ k, off ≤ k → k < off + 2 → left k = right k) :
    load16 left off = load16 right off := by
  rw [load16, load16, load_congr hsame]

theorem load32_congr {off : Nat} {left right : Buf}
    (hsame : ∀ k, off ≤ k → k < off + 4 → left k = right k) :
    load32 left off = load32 right off := by
  rw [load32, load32, load_congr hsame]

theorem store16_apply_of_disjoint {off k : Nat} (buf : Buf) (value : UInt16)
    (hk : k < off ∨ off + 2 ≤ k) : store16 buf off value k = buf k :=
  store_apply_of_disjoint buf _ hk

theorem store32_apply_of_disjoint {off k : Nat} (buf : Buf) (value : UInt32)
    (hk : k < off ∨ off + 4 ≤ k) : store32 buf off value k = buf k :=
  store_apply_of_disjoint buf _ hk

theorem load16_store16_of_disjoint {off off' : Nat} (buf : Buf) (value : UInt16)
    (hdisjoint : off + 2 ≤ off' ∨ off' + 2 ≤ off) :
    load16 (store16 buf off' value) off = load16 buf off := by
  rw [load16, store16, load_store_of_disjoint buf _ hdisjoint, load16]

theorem load16_store32_of_disjoint {off off' : Nat} (buf : Buf) (value : UInt32)
    (hdisjoint : off + 2 ≤ off' ∨ off' + 4 ≤ off) :
    load16 (store32 buf off' value) off = load16 buf off := by
  rw [load16, store32, load_store_of_disjoint buf _ hdisjoint, load16]

theorem load32_store16_of_disjoint {off off' : Nat} (buf : Buf) (value : UInt16)
    (hdisjoint : off + 4 ≤ off' ∨ off' + 2 ≤ off) :
    load32 (store16 buf off' value) off = load32 buf off := by
  rw [load32, store16, load_store_of_disjoint buf _ hdisjoint, load32]

theorem load32_store32_of_disjoint {off off' : Nat} (buf : Buf) (value : UInt32)
    (hdisjoint : off + 4 ≤ off' ∨ off' + 4 ≤ off) :
    load32 (store32 buf off' value) off = load32 buf off := by
  rw [load32, store32, load_store_of_disjoint buf _ hdisjoint, load32]

@[simp]
theorem load32_zero (off : Nat) : load32 zero off = 0 := by
  rw [load32, load_zero]
  rfl

@[simp]
theorem store32_store32_self (buf : Buf) (off : Nat) (first second : UInt32) :
    store32 (store32 buf off first) off second = store32 buf off second :=
  store_store_self 4 buf off _ _

@[simp]
theorem store32_load32 (buf : Buf) (off : Nat) : store32 buf off (load32 buf off) = buf := by
  rw [store32, toNat_load32, store_load]

theorem store8_apply_of_ne {off k : Nat} (buf : Buf) (value : UInt8) (hk : k ≠ off) :
    store8 buf off value k = buf k := Function.update_of_ne hk _ _

@[simp]
theorem store8_apply_self (buf : Buf) (off : Nat) (value : UInt8) : store8 buf off value off = value :=
  Function.update_self _ _ _

theorem load16_store8_of_disjoint {off off' : Nat} (buf : Buf) (value : UInt8)
    (hdisjoint : off + 2 ≤ off' ∨ off' < off) : load16 (store8 buf off' value) off = load16 buf off :=
  load16_congr fun k hlow hhigh => store8_apply_of_ne buf value (by omega)

theorem load32_store8_of_disjoint {off off' : Nat} (buf : Buf) (value : UInt8)
    (hdisjoint : off + 4 ≤ off' ∨ off' < off) : load32 (store8 buf off' value) off = load32 buf off :=
  load32_congr fun k hlow hhigh => store8_apply_of_ne buf value (by omega)

end Bytes
