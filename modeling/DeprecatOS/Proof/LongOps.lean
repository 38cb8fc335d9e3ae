import DeprecatOS.LongOps
import Mathlib.Data.Nat.Bitwise
import Mathlib.Tactic.Ring

/-!
# Division is exact

After `i` passes the loop has divided the number that the first `i` bits of the numerator make. That number has at most
`i` bits and the remainder is no larger, so the last shift still has a free bit, for every divisor.
-/

namespace DeprecatOS

/-! ### One more digit -/

section Digit

variable {p d b : Nat}

theorem two_mul_add_eq : 2 * p + b = 2 * (p % d) + b + d * (2 * (p / d)) :=
  calc 2 * p + b = 2 * (d * (p / d) + p % d) + b := by rw [Nat.div_add_mod]
    _ = _ := by ring

theorem two_mul_add_div (hd : 0 < d) (hb : b < 2) :
    (2 * p + b) / d = 2 * (p / d) + if d ≤ 2 * (p % d) + b then 1 else 0 := by
  have hlt := Nat.mod_lt p hd
  rw [two_mul_add_eq, Nat.add_mul_div_left _ _ hd, Nat.add_comm]
  congr 1
  split_ifs with hle
  · exact Nat.div_eq_of_lt_le (by omega) (by omega)
  · exact Nat.div_eq_of_lt (by omega)

theorem two_mul_add_mod (hd : 0 < d) (hb : b < 2) :
    (2 * p + b) % d = if d ≤ 2 * (p % d) + b then 2 * (p % d) + b - d else 2 * (p % d) + b := by
  have hlt := Nat.mod_lt p hd
  rw [two_mul_add_eq, Nat.add_mul_mod_self_left]
  split_ifs with hle
  · rw [Nat.mod_eq_sub_mod hle, Nat.mod_eq_of_lt (by omega)]
  · exact Nat.mod_eq_of_lt (by omega)

end Digit

def leading (n : UInt64) (i : Nat) : Nat := n.toNat / 2 ^ (64 - i)

theorem leading_lt (n : UInt64) {i : Nat} (hi : i ≤ 64) : leading n i < 2 ^ i := by
  apply Nat.div_lt_of_lt_mul
  rw [← Nat.pow_add, Nat.sub_add_cancel hi]
  exact n.toNat_lt

def bitAt (n : UInt64) (i : Nat) : Nat := n.toNat / 2 ^ (63 - i) % 2

theorem leading_succ (n : UInt64) {i : Nat} (hi : i < 64) : leading n (i + 1) = 2 * leading n i + bitAt n i := by
  have hexp : 64 - i = 63 - i + 1 := by omega
  unfold leading bitAt
  rw [show 64 - (i + 1) = 63 - i by omega, hexp, Nat.pow_succ, ← Nat.div_div_eq_div_mul, Nat.div_add_mod]

/-! ### The loop -/

namespace LongDiv

variable {n d : UInt64} {i : Nat} {s : LongDiv}

structure Divided (n d : UInt64) (i : Nat) (s : LongDiv) : Prop where
  rest : s.n.toNat = n.toNat * 2 ^ i % 2 ^ 64
  quotient : s.q.toNat = leading n i / d.toNat
  remainder : s.r.toNat = leading n i % d.toNat

theorem Divided.remainder_le (hs : Divided n d i s) : s.r.toNat ≤ leading n i := by
  rw [hs.remainder]
  exact Nat.mod_le _ _

theorem Divided.remainder_lt (hs : Divided n d i s) (hi : i < 64) : s.r.toNat < 2 ^ 63 :=
  calc s.r.toNat ≤ leading n i := hs.remainder_le
    _ < 2 ^ i := leading_lt n hi.le
    _ ≤ 2 ^ 63 := Nat.pow_le_pow_right (by decide) (by omega)

theorem Divided.shift (hs : Divided n d i s) (hi : i < 64) : (s.r <<< 1).toNat = 2 * s.r.toNat := by
  have hlt := hs.remainder_lt hi
  rw [UInt64.toNat_shiftLeft, show (1 : UInt64).toNat % 64 = 1 from rfl, Nat.shiftLeft_eq]
  omega

theorem Divided.top (hs : Divided n d i s) (hi : i < 64) : (s.n >>> 63).toNat = bitAt n i := by
  have hpow : 2 ^ 64 = 2 ^ (64 - i) * 2 ^ i := by rw [← Nat.pow_add, Nat.sub_add_cancel hi.le]
  have hpow' : 2 ^ 63 = 2 ^ (63 - i) * 2 ^ i := by rw [← Nat.pow_add, Nat.sub_add_cancel (by omega)]
  have hexp : 64 - i = 63 - i + 1 := by omega
  rw [UInt64.toNat_shiftRight, show (63 : UInt64).toNat % 64 = 63 from rfl, Nat.shiftRight_eq_div_pow, hs.rest, hpow,
    Nat.mul_mod_mul_right, hpow', Nat.mul_div_mul_right _ _ (Nat.two_pow_pos i), hexp, Nat.pow_succ,
    Nat.mod_mul_right_div_self]
  rfl

theorem Divided.next (hs : Divided n d i s) (hi : i < 64) :
    ((s.r <<< 1) ||| (s.n >>> 63)).toNat = 2 * (leading n i % d.toNat) + bitAt n i := by
  have hbit : bitAt n i < 2 ^ 1 := Nat.mod_lt _ (by decide)
  rw [UInt64.toNat_or, hs.shift hi, hs.top hi, hs.remainder, ← Nat.pow_one 2, Nat.two_pow_add_eq_or_of_lt hbit]

theorem Divided.step (hs : Divided n d i s) (hi : i < 64) (hd : d ≠ 0) : Divided n d (i + 1) (s.step d) := by
  have hpos : 0 < d.toNat := UInt64.lt_iff_toNat_lt.mp (UInt64.pos_iff_ne_zero.mpr hd)
  have hbit : bitAt n i < 2 := Nat.mod_lt _ (by decide)
  have hnext := hs.next hi
  have hle : d ≤ (s.r <<< 1) ||| (s.n >>> 63) ↔ d.toNat ≤ 2 * (leading n i % d.toNat) + bitAt n i := by
    rw [UInt64.le_iff_toNat_le, hnext]
  have hrest : (s.n <<< 1).toNat = n.toNat * 2 ^ (i + 1) % 2 ^ 64 := by
    rw [UInt64.toNat_shiftLeft, show (1 : UInt64).toNat % 64 = 1 from rfl, Nat.shiftLeft_eq, hs.rest, Nat.mod_mul_mod,
      Nat.pow_one, Nat.mul_assoc, ← Nat.pow_succ]
  -- The quotient so far has at most `i` bits.
  have hquot : (s.q <<< 1).toNat = 2 * (leading n i / d.toNat) := by
    have hlt : leading n i / d.toNat < 2 ^ 63 :=
      calc leading n i / d.toNat ≤ leading n i := Nat.div_le_self _ _
        _ < 2 ^ i := leading_lt n hi.le
        _ ≤ 2 ^ 63 := Nat.pow_le_pow_right (by decide) (by omega)
    rw [UInt64.toNat_shiftLeft, show (1 : UInt64).toNat % 64 = 1 from rfl, Nat.shiftLeft_eq, hs.quotient]
    omega
  unfold LongDiv.step
  dsimp only
  by_cases hfits : d ≤ (s.r <<< 1) ||| (s.n >>> 63)
  · rw [if_pos hfits]
    have hfits' := hle.mp hfits
    refine ⟨hrest, ?_, ?_⟩
    · rw [leading_succ n hi, two_mul_add_div hpos hbit, if_pos hfits', UInt64.toNat_or, hquot, ← Nat.pow_one 2]
      exact (Nat.two_pow_add_eq_or_of_lt (by decide) _).symm
    · rw [leading_succ n hi, two_mul_add_mod hpos hbit, if_pos hfits', UInt64.toNat_sub_of_le _ _ hfits, hnext]
  · rw [if_neg hfits]
    have hfits' := mt hle.mpr hfits
    refine ⟨hrest, ?_, ?_⟩
    · rw [leading_succ n hi, two_mul_add_div hpos hbit, if_neg hfits', hquot, Nat.add_zero]
    · rw [leading_succ n hi, two_mul_add_mod hpos hbit, if_neg hfits', hnext]

theorem divided_after (n : UInt64) (hd : d ≠ 0) (hi : i ≤ 64) : Divided n d i (after n d i) := by
  induction i with
  | zero =>
    have hnone : leading n 0 = 0 := Nat.div_eq_of_lt n.toNat_lt
    refine ⟨?_, ?_, ?_⟩
    · simp [after]
    · simp [after, hnone]
    · simp [after, hnone]
  | succ i ih =>
    have hstep := (ih (by omega)).step (by omega) hd
    rwa [after, Function.iterate_succ_apply']

end LongDiv

theorem leading_all (n : UInt64) : leading n 64 = n.toNat := Nat.div_one _

/-- **Division is exact.** No pass of the loop loses a bit of the remainder when it shifts it, and all three functions
agree with the division of numbers. -/
theorem udivmoddi4_exact (n d : UInt64) (hd : d ≠ 0) :
    (∀ i < 64, ((LongDiv.after n d i).r <<< 1).toNat = 2 * (LongDiv.after n d i).r.toNat) ∧
      ∃ q r : UInt64, q.toNat = n.toNat / d.toNat ∧ r.toNat = n.toNat % d.toNat ∧
        (∀ old, udivmoddi4 n d (some old) = .ok (q, some r)) ∧ udivmoddi4 n d none = .ok (q, none) ∧
        udivdi3 n d = .ok q ∧ ∀ old, umoddi3 n d old = .ok r := by
  have hdone := LongDiv.divided_after n hd le_rfl
  have hall : ∀ rem, udivmoddi4 n d rem = .ok ((LongDiv.after n d 64).q, rem.map fun _ => (LongDiv.after n d 64).r) :=
    fun rem => if_neg hd
  refine ⟨fun i hi => (LongDiv.divided_after n hd hi.le).shift hi, (LongDiv.after n d 64).q,
    (LongDiv.after n d 64).r, ?_, ?_, fun old => hall _, hall _, ?_, fun old => ?_⟩
  · rw [hdone.quotient, leading_all]
  · rw [hdone.remainder, leading_all]
  · rw [udivdi3, hall]
    rfl
  · rw [umoddi3, hall]
    rfl

theorem udivmoddi4_exact_large :
    ∃ q r : UInt64, q.toNat = 1 ∧ r.toNat = 1 ∧ udivdi3 18446744073709551615 18446744073709551614 = .ok q ∧
      umoddi3 18446744073709551615 18446744073709551614 0 = .ok r := by
  obtain ⟨-, q, r, hq, hr, -, -, hdiv, hmod⟩ := udivmoddi4_exact 18446744073709551615 18446744073709551614 (by decide)
  exact ⟨q, r, hq, hr, hdiv, hmod 0⟩

end DeprecatOS
