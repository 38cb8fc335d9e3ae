import DeprecatOS.Mem
import Mathlib.Tactic.SplitIfs

/-!
# Copying overlapping memory

`copied` is memory with a part of the destination copied from the memory before the call. Both directions enlarge the
part element by element: up from the front when the destination is below the source, down from the back when it is
above. What the next element is read from is not in the part yet, whatever the distance.
-/

namespace DeprecatOS

variable {mem : UInt32 → UInt8} {dst src n : UInt32}

def copied (mem : UInt32 → UInt8) (dst src : UInt32) (lo hi : Nat) : UInt32 → UInt8 := fun a =>
  if dst.toNat + lo ≤ a.toNat ∧ a.toNat < dst.toNat + hi then mem (src + (a - dst)) else mem a

theorem copied_empty (mem : UInt32 → UInt8) (dst src : UInt32) (k : Nat) : copied mem dst src k k = mem := by
  funext a
  exact if_neg (by omega)

section Addresses

theorem toNat_add_ofNat {a : UInt32} {k : Nat} (hk : a.toNat + k < 2 ^ 32) : (a + UInt32.ofNat k).toNat = a.toNat + k := by
  rw [UInt32.toNat_add, UInt32.toNat_ofNat']
  omega

theorem toNat_sub_eq {a b : UInt32} (hle : b.toNat ≤ a.toNat) : (a - b).toNat = a.toNat - b.toNat :=
  UInt32.toNat_sub_of_le _ _ (UInt32.le_iff_toNat_le.mpr hle)

theorem toNat_sub_of_gt {a b : UInt32} (hlt : a.toNat < b.toNat) : (a - b).toNat = 2 ^ 32 + a.toNat - b.toNat := by
  have ha := a.toNat_lt
  have hb := b.toNat_lt
  rw [UInt32.toNat_sub]
  omega

end Addresses

/-! ### One element -/

section Element

variable {lo hi k size : Nat} {s : Cpu}

theorem sub_lt_iff {a p : UInt32} (hsize : size < 2 ^ 32) (hend : p.toNat + size ≤ 2 ^ 32) :
    a - p < UInt32.ofNat size ↔ p.toNat ≤ a.toNat ∧ a.toNat < p.toNat + size := by
  have ha := a.toNat_lt
  rw [UInt32.lt_iff_toNat_lt, UInt32.toNat_ofNat_of_lt' hsize]
  by_cases hle : p.toNat ≤ a.toNat
  · rw [toNat_sub_eq hle]
    omega
  · rw [toNat_sub_of_gt (by omega)]
    omega

theorem moveElement_apply (hsize : size < 2 ^ 32) (hdst : dst.toNat + k + size ≤ 2 ^ 32)
    (hsrc : src.toNat + k + size ≤ 2 ^ 32) (hmem : s.mem = copied mem dst src lo hi)
    (hedi : s.edi = dst + UInt32.ofNat k) (hesi : s.esi = src + UInt32.ofNat k) (hpos : 0 < size)
    (hfresh : ∀ a : UInt32, src.toNat + k ≤ a.toNat → a.toNat < src.toNat + k + size →
      ¬ (dst.toNat + lo ≤ a.toNat ∧ a.toNat < dst.toNat + hi)) (a : UInt32) :
    s.moveElement (UInt32.ofNat size) a =
      if dst.toNat + k ≤ a.toNat ∧ a.toNat < dst.toNat + k + size then mem (src + (a - dst))
      else copied mem dst src lo hi a := by
  have hediNat : s.edi.toNat = dst.toNat + k := by rw [hedi, toNat_add_ofNat (by omega)]
  have hin := sub_lt_iff (a := a) (p := s.edi) hsize (by omega)
  rw [hediNat] at hin
  unfold Cpu.moveElement
  by_cases hmoved : a - s.edi < UInt32.ofNat size
  · have hrange := hin.mp hmoved
    have hoff : s.esi + (a - s.edi) = src + (a - dst) := by
      rw [hesi, hedi]
      grind
    have haddr : (src + (a - dst)).toNat = src.toNat + (a.toNat - dst.toNat) := by
      rw [UInt32.toNat_add, toNat_sub_eq (by omega)]
      omega
    rw [if_pos hmoved, if_pos hrange, hoff, hmem]
    exact if_neg (hfresh _ (by omega) (by omega))
  · rw [if_neg hmoved, if_neg (mt hin.mpr hmoved), hmem]

end Element

/-! ### Up from the front -/

section Forward

variable {k size : Nat} {s : Cpu}

structure MovedUp (mem : UInt32 → UInt8) (dst src : UInt32) (k : Nat) (s : Cpu) : Prop where
  mem : s.mem = copied mem dst src 0 k
  edi : s.edi = dst + UInt32.ofNat k
  esi : s.esi = src + UInt32.ofNat k
  df : s.df = false

theorem MovedUp.movs (hs : MovedUp mem dst src k s) (hbelow : dst < src) (hpos : 0 < size)
    (hsrc : src.toNat + k + size ≤ 2 ^ 32) : MovedUp mem dst src (k + size) (s.repStep (UInt32.ofNat size)) := by
  have hlt : dst.toNat < src.toNat := UInt32.lt_iff_toNat_lt.mp hbelow
  refine ⟨?_, ?_, ?_, hs.df⟩
  · funext a
    have hmove := moveElement_apply (by omega) (by omega) hsrc hs.mem hs.edi hs.esi hpos (fun b _ _ => by omega) a
    refine hmove.trans ?_
    unfold copied
    by_cases hnew : dst.toNat + k ≤ a.toNat ∧ a.toNat < dst.toNat + k + size
    · rw [if_pos hnew, if_pos (by omega)]
    · rw [if_neg hnew]
      exact if_congr (by omega) rfl rfl
  · simp only [Cpu.repStep, Cpu.movs, hs.df, hs.edi]
    rw [if_neg (by simp), UInt32.ofNat_add, UInt32.add_assoc]
  · simp only [Cpu.repStep, Cpu.movs, hs.df, hs.esi]
    rw [if_neg (by simp), UInt32.ofNat_add, UInt32.add_assoc]

theorem MovedUp.rep {count : Nat} (hs : MovedUp mem dst src k s) (hbelow : dst < src) (hpos : 0 < size)
    (hsrc : src.toNat + k + count * size ≤ 2 ^ 32) :
    MovedUp mem dst src (k + count * size) ((Cpu.repStep (UInt32.ofNat size))^[count] s) := by
  induction count with
  | zero => simpa using hs
  | succ count ih =>
    rw [Nat.succ_mul] at hsrc ⊢
    rw [Function.iterate_succ_apply', ← Nat.add_assoc]
    exact (ih (by omega)).movs hbelow hpos (by omega)

theorem copyFwd_mem (hbelow : dst < src) (hsrc : src.toNat + n.toNat ≤ 2 ^ 32) (s : Cpu) :
    (copyFwd dst src n s).2.mem = copied s.mem dst src 0 n.toNat := by
  have hdwords : (n >>> 2).toNat = n.toNat / 4 := by
    rw [UInt32.toNat_shiftRight]
    exact Nat.shiftRight_eq_div_pow _ 2
  have hbytes : (n &&& 3).toNat = n.toNat % 4 := by
    rw [UInt32.toNat_and]
    exact Nat.and_two_pow_sub_one_eq_mod _ 2
  have hstart : MovedUp s.mem dst src 0 { s with edi := dst, esi := src, ecx := n >>> 2, df := false } :=
    ⟨(copied_empty _ _ _ 0).symm, by simp, by simp, rfl⟩
  have hwords : MovedUp s.mem dst src (0 + n.toNat / 4 * 4) ((Cpu.repStep (UInt32.ofNat 4))^[n.toNat / 4] _) :=
    hstart.rep hbelow (by decide) (by omega)
  have htail : MovedUp s.mem dst src (0 + n.toNat / 4 * 4)
      { (Cpu.repStep 4)^[n.toNat / 4] { s with edi := dst, esi := src, ecx := n >>> 2, df := false } with
        ecx := n &&& 3, df := false } := ⟨hwords.mem, hwords.edi, hwords.esi, rfl⟩
  have hall : MovedUp s.mem dst src (0 + n.toNat / 4 * 4 + n.toNat % 4 * 1)
      ((Cpu.repStep (UInt32.ofNat 1))^[n.toNat % 4] _) := htail.rep hbelow (by decide) (by omega)
  rw [show 0 + n.toNat / 4 * 4 + n.toNat % 4 * 1 = n.toNat by omega] at hall
  rw [← hall.mem]
  simp only [copyFwd, Cpu.repMovsl, Cpu.repMovsb, Cpu.rep, Cpu.cld, hdwords, hbytes]
  rfl

end Forward

/-! ### Down from the back -/

section Backward

variable {k : Nat} {s : Cpu}

structure MovedDown (mem : UInt32 → UInt8) (dst src n : UInt32) (k : Nat) (s : Cpu) : Prop where
  mem : s.mem = copied mem dst src k n.toNat
  edi : s.edi = dst + UInt32.ofNat k - 1
  esi : s.esi = src + UInt32.ofNat k - 1
  df : s.df = true

theorem MovedDown.movs (hs : MovedDown mem dst src n (k + 1) s) (habove : src.toNat < dst.toNat) (hk : k < n.toNat)
    (hdst : dst.toNat + n.toNat ≤ 2 ^ 32) : MovedDown mem dst src n k (s.repStep 1) := by
  have hone : ∀ p : UInt32, p + UInt32.ofNat (k + 1) - 1 = p + UInt32.ofNat k := by
    intro p
    rw [UInt32.ofNat_add]
    change p + (UInt32.ofNat k + 1) - 1 = _
    rw [← UInt32.add_assoc, UInt32.add_sub_cancel]
  refine ⟨?_, ?_, ?_, hs.df⟩
  · funext a
    have hmove := moveElement_apply (show 1 < 2 ^ 32 by decide) (by omega) (by omega) hs.mem ((hs.edi).trans (hone dst))
      ((hs.esi).trans (hone src)) (by decide) (fun b _ _ => by omega) a
    refine hmove.trans ?_
    unfold copied
    by_cases hnew : dst.toNat + k ≤ a.toNat ∧ a.toNat < dst.toNat + k + 1
    · rw [if_pos hnew, if_pos (by omega)]
    · rw [if_neg hnew]
      exact if_congr (by omega) rfl rfl
  · simp only [Cpu.repStep, Cpu.movs, hs.df, hs.edi, hone, if_true]
  · simp only [Cpu.repStep, Cpu.movs, hs.df, hs.esi, hone, if_true]

theorem MovedDown.rep {count : Nat} (hs : MovedDown mem dst src n n.toNat s) (habove : src.toNat < dst.toNat)
    (hcount : count ≤ n.toNat) (hdst : dst.toNat + n.toNat ≤ 2 ^ 32) :
    MovedDown mem dst src n (n.toNat - count) ((Cpu.repStep 1)^[count] s) := by
  induction count with
  | zero => exact hs
  | succ count ih =>
    have hleft : n.toNat - count = n.toNat - (count + 1) + 1 := by omega
    have hprev := ih (by omega)
    rw [hleft] at hprev
    rw [Function.iterate_succ_apply']
    exact hprev.movs habove (by omega) hdst

theorem copyBwd_mem (habove : ¬ dst < src) (hdst : dst.toNat + n.toNat ≤ 2 ^ 32) (s : Cpu) :
    (copyBwd dst src n s).2.mem = copied s.mem dst src 0 n.toNat := by
  unfold copyBwd
  by_cases hnothing : n = 0 ∨ dst = src
  · rw [if_pos hnothing]
    obtain rfl | rfl := hnothing
    · exact (copied_empty _ _ _ 0).symm
    · funext a
      have hback : dst + (a - dst) = a := by rw [UInt32.add_comm, UInt32.sub_add_cancel]
      simp [copied, hback]
  · rw [if_neg hnothing]
    rw [not_or] at hnothing
    have hlt : src.toNat < dst.toNat := by
      have hle : src.toNat ≤ dst.toNat := UInt32.le_iff_toNat_le.mp (UInt32.not_lt.mp habove)
      have hne : dst.toNat ≠ src.toNat := mt UInt32.toNat_inj.mp hnothing.2
      omega
    have hstart : MovedDown s.mem dst src n n.toNat
        { s with edi := dst + n - 1, esi := src + n - 1, ecx := n, df := true } :=
      ⟨(copied_empty _ _ _ _).symm, by simp, by simp, rfl⟩
    have hall := hstart.rep hlt (Nat.le_refl _) hdst
    rw [Nat.sub_self] at hall
    exact hall.mem

end Backward

theorem memmove_mem (hdst : dst.toNat + n.toNat ≤ 2 ^ 32) (hsrc : src.toNat + n.toNat ≤ 2 ^ 32) (s : Cpu) :
    (memmove dst src n s).2.mem = copied s.mem dst src 0 n.toNat := by
  unfold memmove
  by_cases hbelow : dst < src
  · rw [if_pos hbelow, copyFwd_mem hbelow hsrc]
  · rw [if_neg hbelow, copyBwd_mem hbelow hdst]

/-- **Moving memory.** Every byte of the destination is the byte that the source had before the call and no other byte
changes, however the two overlap. -/
theorem memmove_correct (s : Cpu) (hdst : dst.toNat + n.toNat ≤ 2 ^ 32) (hsrc : src.toNat + n.toNat ≤ 2 ^ 32) :
    (memmove dst src n s).1 = dst ∧
      (∀ i < n.toNat, (memmove dst src n s).2.mem (dst + UInt32.ofNat i) = s.mem (src + UInt32.ofNat i)) ∧
      ∀ a : UInt32, (∀ i < n.toNat, a ≠ dst + UInt32.ofNat i) → (memmove dst src n s).2.mem a = s.mem a := by
  refine ⟨?_, fun i hi => ?_, fun a hout => ?_⟩
  · unfold memmove copyFwd copyBwd
    split_ifs <;> rfl
  · rw [memmove_mem hdst hsrc, copied, toNat_add_ofNat (by omega), if_pos (by omega)]
    rw [UInt32.add_comm dst, UInt32.add_sub_cancel]
  · rw [memmove_mem hdst hsrc]
    apply if_neg
    intro hin
    apply hout (a.toNat - dst.toNat) (by omega)
    apply UInt32.toNat_inj.mp
    rw [toNat_add_ofNat (by have := a.toNat_lt; omega)]
    omega

def lowBytes : Cpu := ⟨fun a => a.toUInt8, 0, 0, 0, true⟩

/-- Six bytes moved down by one: a word and two bytes, each read next to where the one before was written. -/
theorem memmove_correct_overlap :
    (memmove 4096 4097 6 lowBytes).2.mem 4096 = 1 ∧ (memmove 4096 4097 6 lowBytes).2.mem 4101 = 6 ∧
      (memmove 4096 4097 6 lowBytes).2.mem 4102 = 6 := by
  obtain ⟨-, hin, hout⟩ := memmove_correct lowBytes (show (4096 : UInt32).toNat + (6 : UInt32).toNat ≤ 2 ^ 32 by decide)
    (show (4097 : UInt32).toNat + (6 : UInt32).toNat ≤ 2 ^ 32 by decide)
  refine ⟨hin 0 (by decide), hin 5 (by decide), hout 4102 fun i hi heq => ?_⟩
  have hnat := congrArg UInt32.toNat heq
  rw [toNat_add_ofNat (show 4096 + i < 2 ^ 32 from by change i < 6 at hi; omega)] at hnat
  change i < 6 at hi
  change 4102 = 4096 + i at hnat
  omega

end DeprecatOS
