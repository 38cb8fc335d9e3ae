import DeprecatOS.Lib.Bytes
import Mathlib.Data.Finset.Card
import Mathlib.Data.Nat.Bitwise

/-!
# Bitmaps in a byte buffer

Bit `i` of a buffer is bit `i % 8` of byte `i / 8`. Setting or clearing one bit changes no other, and
changes the number of clear bits below any bound that covers it by exactly one.
-/

namespace Bits

open Bytes

def mask (i : Nat) : UInt8 := UInt8.ofNat (2 ^ (i % 8))

def bit (buf : Buf) (i : Nat) : Bool := buf (i / 8) &&& mask i ≠ 0

def setBit (buf : Buf) (i : Nat) : Buf := store8 buf (i / 8) (buf (i / 8) ||| mask i)

def clearBit (buf : Buf) (i : Nat) : Buf := store8 buf (i / 8) (buf (i / 8) &&& ~~~mask i)

def clearBits (buf : Buf) : Nat → Nat
  | 0 => 0
  | n + 1 => clearBits buf n + if bit buf n then 0 else 1

def firstClear (buf : Buf) : Nat → Nat → Option Nat
  | 0, _ => none
  | fuel + 1, idx => if bit buf idx then firstClear buf fuel (idx + 1) else some idx

/-! ### One byte -/

theorem toNat_mask (i : Nat) : (mask i).toNat = 2 ^ (i % 8) := by
  have hlt : 2 ^ (i % 8) < 2 ^ 8 := Nat.pow_lt_pow_right (by omega) (Nat.mod_lt _ (by omega))
  rw [mask, UInt8.toNat_ofNat', Nat.mod_eq_of_lt hlt]

theorem getLsbD_mask (i j : Nat) : (mask i).toBitVec.getLsbD j = decide (i % 8 = j) := by
  rw [← BitVec.testBit_toNat]
  change (mask i).toNat.testBit j = _
  rw [toNat_mask, Nat.testBit_two_pow]

theorem bit_eq_getLsbD (buf : Buf) (i : Nat) :
    bit buf i = (buf (i / 8)).toBitVec.getLsbD (i % 8) := by
  have hand : (buf (i / 8) &&& mask i ≠ 0) ↔ (buf (i / 8)).toNat.testBit (i % 8) = true := by
    refine (not_congr UInt8.toNat_inj.symm).trans ?_
    rw [UInt8.toNat_and, toNat_mask, Nat.and_two_pow]
    cases (buf (i / 8)).toNat.testBit (i % 8) <;> simp
  rw [bit, ← BitVec.testBit_toNat, Bool.decide_congr hand, Bool.decide_eq_true]
  rfl

theorem byte_eq_of_bits {left right : Buf} {k : Nat} (hbits : ∀ i, i / 8 = k → bit left i = bit right i) :
    left k = right k := by
  apply UInt8.toBitVec_inj.mp
  apply BitVec.eq_of_getLsbD_eq
  intro j hj
  have hdiv : (8 * k + j) / 8 = k := by omega
  have hmod : (8 * k + j) % 8 = j := by omega
  have hbit := hbits (8 * k + j) hdiv
  rwa [bit_eq_getLsbD, bit_eq_getLsbD, hdiv, hmod] at hbit

theorem bit_store8 (buf : Buf) (byteIdx : Nat) (value : UInt8) (i : Nat) :
    bit (store8 buf byteIdx value) i
      = if i / 8 = byteIdx then value.toBitVec.getLsbD (i % 8) else bit buf i := by
  rw [bit_eq_getLsbD, bit_eq_getLsbD, store8]
  by_cases heq : i / 8 = byteIdx
  · rw [if_pos heq, heq, Function.update_self]
  · rw [if_neg heq, Function.update_of_ne heq]

@[simp]
theorem bit_setBit (buf : Buf) (i j : Nat) :
    bit (setBit buf i) j = if j = i then true else bit buf j := by
  rw [setBit, bit_store8]
  by_cases hbyte : j / 8 = i / 8
  · rw [if_pos hbyte, UInt8.toBitVec_or, BitVec.getLsbD_or, getLsbD_mask, ← hbyte,
      ← bit_eq_getLsbD]
    by_cases heq : j = i
    · simp [heq]
    · rw [if_neg heq, decide_eq_false (by omega), Bool.or_false]
  · rw [if_neg hbyte, if_neg (by rintro rfl; exact hbyte rfl)]

@[simp]
theorem bit_clearBit (buf : Buf) (i j : Nat) :
    bit (clearBit buf i) j = if j = i then false else bit buf j := by
  rw [clearBit, bit_store8]
  by_cases hbyte : j / 8 = i / 8
  · have hlt : j % 8 < 8 := Nat.mod_lt _ (by omega)
    rw [if_pos hbyte, UInt8.toBitVec_and, BitVec.getLsbD_and, UInt8.toBitVec_not,
      BitVec.getLsbD_not, getLsbD_mask, ← hbyte, ← bit_eq_getLsbD, decide_eq_true hlt,
      Bool.true_and]
    by_cases heq : j = i
    · simp [heq]
    · rw [if_neg heq, decide_eq_false (by omega), Bool.not_false, Bool.and_true]
  · rw [if_neg hbyte, if_neg (by rintro rfl; exact hbyte rfl)]

theorem bit_of_byte_full {buf : Buf} {i : Nat} (hfull : buf (i / 8) = 255) : bit buf i = true := by
  rw [bit_eq_getLsbD, hfull]
  have hall : ∀ j < 8, (255 : UInt8).toBitVec.getLsbD j = true := by decide
  exact hall _ (Nat.mod_lt _ (by omega))

/-! ### A bitmap from its bits -/

/-- The bitmap whose bit `i` is `set i`. -/
def ofBits (set : Nat → Bool) : Buf := fun k =>
  (List.range 8).foldr (fun j byte => if set (8 * k + j) then byte ||| mask j else byte) 0

theorem getLsbD_foldr_mask (set : Nat → Bool) (js : List Nat) (i : Nat) (hjs : ∀ j ∈ js, j < 8) :
    (js.foldr (fun j byte => if set j then byte ||| mask j else byte) 0).toBitVec.getLsbD i =
      decide (i ∈ js ∧ set i = true) := by
  induction js with
  | nil => simp
  | cons j js ih =>
    have hj : j % 8 = j := Nat.mod_eq_of_lt (hjs j List.mem_cons_self)
    have hrest := ih fun k hk => hjs k (List.mem_cons_of_mem _ hk)
    rw [List.foldr_cons]
    by_cases hset : set j = true
    · rw [if_pos hset, UInt8.toBitVec_or, BitVec.getLsbD_or, hrest, getLsbD_mask, hj, ← Bool.decide_or]
      apply decide_eq_decide.mpr
      rw [List.mem_cons]
      constructor
      · rintro (⟨hi, hon⟩ | rfl)
        · exact ⟨.inr hi, hon⟩
        · exact ⟨.inl rfl, hset⟩
      · rintro ⟨rfl | hi, hon⟩
        · exact .inr rfl
        · exact .inl ⟨hi, hon⟩
    · rw [if_neg hset, hrest]
      apply decide_eq_decide.mpr
      rw [List.mem_cons]
      constructor
      · exact fun ⟨hi, hon⟩ => ⟨.inr hi, hon⟩
      · rintro ⟨rfl | hi, hon⟩
        · exact absurd hon hset
        · exact ⟨hi, hon⟩

theorem bit_ofBits (set : Nat → Bool) (i : Nat) : bit (ofBits set) i = set i := by
  have hlt : i % 8 < 8 := Nat.mod_lt _ (by omega)
  rw [bit_eq_getLsbD, ofBits, getLsbD_foldr_mask (fun j => set (8 * (i / 8) + j)) _ _ fun j => List.mem_range.mp,
    Nat.div_add_mod]
  simp [hlt]

/-! ### Counting and searching clear bits -/

theorem clearBits_congr {left right : Buf} {n : Nat} (hsame : ∀ i < n, bit left i = bit right i) :
    clearBits left n = clearBits right n := by
  induction n with
  | zero => rfl
  | succ n ih =>
    rw [clearBits, clearBits, ih fun i hi => hsame i (by omega), hsame n (by omega)]

theorem clearBits_eq_of_set {buf : Buf} {m n : Nat} (hmn : m ≤ n)
    (hset : ∀ i, m ≤ i → i < n → bit buf i = true) : clearBits buf n = clearBits buf m := by
  induction n, hmn using Nat.le_induction with
  | base => rfl
  | succ n hmn ih =>
    rw [clearBits, hset n hmn (by omega), ih fun i hm hi => hset i hm (by omega)]
    rfl

theorem clearBits_le (buf : Buf) (n : Nat) : clearBits buf n ≤ n := by
  induction n with
  | zero => rfl
  | succ n ih =>
    rw [clearBits]
    split <;> omega

theorem clearBits_eq_add_one {left right : Buf} {n i : Nat} (hi : i < n)
    (hleft : bit left i = false) (hright : bit right i = true)
    (hsame : ∀ j, j ≠ i → bit left j = bit right j) :
    clearBits left n = clearBits right n + 1 := by
  induction n with
  | zero => omega
  | succ n ih =>
    rw [clearBits, clearBits]
    by_cases heq : i = n
    · subst heq
      rw [hleft, hright, clearBits_congr fun j hj => hsame j (by omega)]
      simp
    · rw [ih (by omega), hsame n (by omega)]
      omega

theorem clearBits_setBit {buf : Buf} {n i : Nat} (hi : i < n) (hclear : bit buf i = false) :
    clearBits buf n = clearBits (setBit buf i) n + 1 :=
  clearBits_eq_add_one hi hclear (by simp) fun j hj => by simp [hj]

theorem clearBits_clearBit {buf : Buf} {n i : Nat} (hi : i < n) (hset : bit buf i = true) :
    clearBits (clearBit buf i) n = clearBits buf n + 1 :=
  clearBits_eq_add_one hi (by simp) hset fun j hj => by simp [hj]

theorem clearBits_eq_card (buf : Buf) (n : Nat) :
    clearBits buf n = ((Finset.range n).filter fun i => bit buf i = false).card := by
  induction n with
  | zero => rfl
  | succ n ih =>
    rw [clearBits, ih, Finset.range_add_one, Finset.filter_insert]
    cases hbit : bit buf n with
    | true => simp
    | false => simp [Finset.card_insert_of_notMem]

theorem clearBits_pos_iff (buf : Buf) (n : Nat) :
    0 < clearBits buf n ↔ ∃ i < n, bit buf i = false := by
  induction n with
  | zero => simp [clearBits]
  | succ n ih =>
    rw [clearBits]
    constructor
    · intro hpos
      cases hbit : bit buf n with
      | false => exact ⟨n, by omega, hbit⟩
      | true =>
        rw [hbit] at hpos
        obtain ⟨i, hi, hclear⟩ := ih.mp (by simpa using hpos)
        exact ⟨i, by omega, hclear⟩
    · rintro ⟨i, hi, hclear⟩
      by_cases heq : i = n
      · rw [← heq, hclear]
        simp
      · have := ih.mpr ⟨i, by omega, hclear⟩
        omega

theorem firstClear_eq_some {buf : Buf} {fuel idx i : Nat} (hfind : firstClear buf fuel idx = some i) :
    idx ≤ i ∧ i < idx + fuel ∧ bit buf i = false := by
  induction fuel generalizing idx with
  | zero => simp [firstClear] at hfind
  | succ fuel ih =>
    rw [firstClear] at hfind
    cases hbit : bit buf idx with
    | true =>
      rw [hbit, if_pos rfl] at hfind
      obtain ⟨hlow, hhigh, hclear⟩ := ih hfind
      exact ⟨by omega, by omega, hclear⟩
    | false =>
      rw [hbit, if_neg (by simp), Option.some.injEq] at hfind
      subst hfind
      exact ⟨le_rfl, by omega, hbit⟩

theorem firstClear_isSome {buf : Buf} {fuel idx i : Nat} (hlow : idx ≤ i) (hhigh : i < idx + fuel)
    (hclear : bit buf i = false) : ∃ found, firstClear buf fuel idx = some found := by
  induction fuel generalizing idx with
  | zero => omega
  | succ fuel ih =>
    rw [firstClear]
    cases hbit : bit buf idx with
    | true =>
      have hne : idx ≠ i := by
        rintro rfl
        rw [hclear] at hbit
        exact Bool.noConfusion hbit
      exact ih (by omega) (by omega)
    | false => exact ⟨idx, rfl⟩

end Bits
