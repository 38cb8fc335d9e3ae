import DeprecatOS.Paths
import DeprecatOS.Proof.Records

/-!
# The text of a path

What the index arithmetic of `lookup_path` computes, in terms of the text: where a component ends, the name it copies
out, and the text it splices together.
-/

namespace DeprecatOS

open Bytes Bits Fault NameSpace

variable {p : Buf} {text : Text}

structure HoldsText (p : Buf) (text : Text) : Prop where
  short : text.length < pathLen
  chars : ∀ k ≤ text.length, p k = cstr text k
  ne_zero : ∀ c ∈ text, c ≠ 0

theorem cstr_append (s t : List UInt8) (k : Nat) :
    cstr (s ++ t) k = if k < s.length then cstr s k else cstr t (k - s.length) := by
  split_ifs with hk
  · exact List.getD_append _ _ _ _ hk
  · exact List.getD_append_right _ _ _ _ (Nat.le_of_not_lt hk)

theorem HoldsText.scanName_eq (hholds : HoldsText p text) : scanName p pathLen 0 = text.length := by
  rw [scanName_eq_iff p (Nat.zero_le _) (by have := hholds.short; omega)]
  refine ⟨by rw [hholds.chars _ le_rfl, cstr_length], fun k _ hk => ?_⟩
  rw [hholds.chars k hk.le, cstr_of_lt hk]
  exact hholds.ne_zero _ (List.getElem_mem hk)

theorem HoldsText.textOf_eq (hholds : HoldsText p text) : textOf p = text := by
  rw [textOf, hholds.scanName_eq]
  refine List.ext_getElem (by simp) fun k hk hk' => ?_
  rw [List.getElem_map, List.getElem_range, hholds.chars k hk'.le, cstr_of_lt hk']

theorem holdsText_textOf (hlen : scanName p pathLen 0 < pathLen) : HoldsText p (textOf p) := by
  obtain ⟨len, hscan⟩ : ∃ len, len = scanName p pathLen 0 := ⟨_, rfl⟩
  have hstop := (scanName_eq_iff p (Nat.zero_le len) (by omega)).mp hscan.symm
  have hlength : (textOf p).length = len := by rw [textOf, List.length_map, List.length_range, hscan]
  refine ⟨by omega, fun k hk => ?_, fun c hc => ?_⟩
  · rw [hlength] at hk
    obtain rfl | hlt := Nat.eq_or_lt_of_le hk
    · rw [hstop.1, ← hlength, cstr_length]
    · rw [cstr_of_lt (by omega)]
      simp [textOf]
  · rw [textOf, ← hscan, List.mem_map] at hc
    obtain ⟨k, hk, rfl⟩ := hc
    exact hstop.2 k (Nat.zero_le k) (List.mem_range.mp hk)

/-! ### Components -/

theorem componentLoop_eq {len stop : Nat} (hstop : stop < len ∧ p stop = slash ∨ stop = len) {fuel j : Nat} {c : UInt8}
    (hbefore : ∀ k, j ≤ k → k < stop → p k ≠ slash) (hc : c ≠ slash) (hj : j ≤ stop) (hfuel : stop - j + 1 < fuel) :
    componentLoop p len fuel c j = stop + 1 := by
  induction fuel generalizing c j with
  | zero => omega
  | succ fuel ih =>
    rw [componentLoop, if_neg hc]
    by_cases hend : len ≤ j
    · rw [if_pos hend]
      omega
    rw [if_neg hend]
    obtain rfl | hlt := Nat.eq_or_lt_of_le hj
    · obtain ⟨-, hslash⟩ := hstop.resolve_right (by omega)
      cases fuel with
      | zero => omega
      | succ fuel => rw [componentLoop, if_pos hslash]
    · exact ih (fun k hk hk' => hbefore k (by omega) hk') (hbefore j le_rfl hlt) hlt (by omega)

/-- The text around a component: what stands before it, and what stands behind it, which is nothing or starts with a
slash. -/
structure SplitAt (text before c after : Text) : Prop where
  eq : text = before ++ (c ++ after)
  sep : slash ∉ c
  rest : after = [] ∨ ∃ more, after = slash :: more

section Component

variable {before c after : Text} (hholds : HoldsText p text) (hsplit : SplitAt text before c after)

include hholds hsplit

omit hholds in
theorem SplitAt.length_eq : text.length = before.length + (c.length + after.length) := by
  rw [hsplit.eq, List.length_append, List.length_append]

theorem SplitAt.chars_before {k : Nat} (hk : k < before.length) : p k = cstr before k := by
  have hlength := hsplit.length_eq
  rw [hholds.chars k (by omega), hsplit.eq, cstr_append, if_pos hk]

theorem SplitAt.chars {k : Nat} (hk : k < c.length) : p (before.length + k) = cstr c k := by
  have hlength := hsplit.length_eq
  rw [hholds.chars _ (by omega), hsplit.eq, cstr_append, if_neg (by omega), Nat.add_sub_cancel_left, cstr_append,
    if_pos hk]

theorem SplitAt.chars_after {k : Nat} (hk : k ≤ after.length) :
    p (before.length + c.length + k) = cstr after k := by
  have hlength := hsplit.length_eq
  rw [hholds.chars _ (by omega), hsplit.eq, cstr_append, if_neg (by omega), cstr_append, if_neg (by omega)]
  congr 1
  omega

theorem SplitAt.stop : before.length + c.length < text.length ∧ p (before.length + c.length) = slash ∨
    before.length + c.length = text.length := by
  have hlength := hsplit.length_eq
  have hafter := hsplit.chars_after hholds (Nat.zero_le _)
  obtain rfl | ⟨more, rfl⟩ := hsplit.rest
  · exact .inr hlength.symm
  · rw [List.length_cons] at hlength
    exact .inl ⟨by omega, hafter⟩

theorem SplitAt.componentEnd_eq (hlt : before.length < text.length) :
    componentEnd p text.length before.length = before.length + c.length := by
  have hstop := hsplit.stop hholds
  have hchar : ∀ k, before.length ≤ k → k < before.length + c.length → p k ≠ slash := by
    intro k hlow hhigh heq
    have hk : k - before.length < c.length := by omega
    have hpk := hsplit.chars hholds hk
    rw [Nat.add_sub_cancel' hlow, heq, cstr_of_lt hk] at hpk
    exact hsplit.sep (hpk ▸ List.getElem_mem hk)
  rw [componentEnd]
  by_cases hempty : c.length = 0
  · have hslash : p before.length = slash := by
      have := hstop.resolve_right (by omega)
      simpa [hempty] using this.2
    have hloop : componentLoop p text.length (text.length + 2) (p before.length) before.length = before.length := by
      rw [componentLoop, if_pos hslash]
    rw [hloop]
    split_ifs <;> omega
  · rw [componentLoop_eq hstop (fun k hk hk' => hchar k hk hk') (hchar _ le_rfl (by omega)) (by omega) (by omega)]
    rw [Nat.add_sub_cancel, if_neg (by omega)]

theorem SplitAt.nameOf_eq (stack : Buf) (hshort : c.length < nameLen) :
    nameOf (componentName stack p before.length (before.length + c.length)) = c := by
  have hchars : ∀ k < c.length, componentName stack p before.length (before.length + c.length) k = cstr c k := by
    intro k hk
    rw [componentName, Nat.add_sub_cancel_left, if_pos hk, hsplit.chars hholds hk]
  have hlength : nameLength (componentName stack p before.length (before.length + c.length)) = c.length := by
    rw [nameLength_eq_iff _ hshort]
    refine ⟨?_, fun k hk => ?_⟩
    · rw [componentName, Nat.add_sub_cancel_left, if_neg (lt_irrefl _), if_pos rfl]
    · rw [hchars k hk, cstr_of_lt hk]
      refine hholds.ne_zero _ ?_
      rw [hsplit.eq]
      exact List.mem_append_right _ (List.mem_append_left _ (List.getElem_mem hk))
  rw [nameOf, hlength]
  refine List.ext_getElem (by simp) fun k hk _ => ?_
  have hk : k < c.length := by simpa using hk
  simpa [cstr_of_lt hk] using hchars k hk

theorem SplitAt.splicePath_eq {target : Buf} {link kept : Text} (hlink : ∀ k < link.length, target k = cstr link k)
    (hne : ∀ c ∈ link, c ≠ 0) (hpos : link ≠ []) (hkept : kept = if link.head? = some slash then [] else before) :
    if (kept ++ (link ++ after)).length < pathLen then
      ∃ p', splicePath p before.length (before.length + c.length) text.length target link.length = some p' ∧
        HoldsText p' (kept ++ (link ++ after))
    else splicePath p before.length (before.length + c.length) text.length target link.length = none := by
  have hlength := hsplit.length_eq
  have hfirst : target 0 = slash ↔ link.head? = some slash := by
    obtain ⟨x, rest, rfl⟩ := List.exists_cons_of_ne_nil hpos
    rw [hlink 0 (by simp), List.head?_cons, Option.some.injEq]
    rfl
  have hkeptLen : (if target 0 ≠ slash then before.length else 0) = kept.length := by
    rw [hkept]
    by_cases habsolute : link.head? = some slash
    · rw [if_pos habsolute, if_neg (not_not.mpr (hfirst.mpr habsolute))]
      rfl
    · rw [if_neg habsolute, if_pos (mt hfirst.mp habsolute)]
  have hkeptChars : ∀ k < kept.length, p k = cstr kept k := by
    intro k hk
    rw [hkept] at hk ⊢
    split_ifs at hk ⊢
    · cases hk
    · exact hsplit.chars_before hholds hk
  have hrest : text.length - (before.length + c.length) = after.length := by omega
  rw [List.length_append, List.length_append, splicePath]
  simp only [hkeptLen, hrest]
  split_ifs with hshort hlong hlong
  · rw [pathLen] at hshort hlong
    omega
  · refine ⟨_, rfl, by rw [List.length_append, List.length_append]; exact hshort, fun k hk => ?_, fun x hx => ?_⟩
    · rw [List.length_append, List.length_append] at hk
      rw [cstr_append]
      split_ifs with h1 h2 h3
      · exact hkeptChars k h1
      · rw [cstr_append, if_pos (by omega), hlink _ (by omega)]
      · rw [cstr_append, if_neg (by omega), hsplit.chars_after hholds (by omega), Nat.sub_sub]
      · have hend : k = kept.length + link.length + after.length := by omega
        rw [cstr_append, if_neg (by omega), show k - kept.length - link.length = after.length by omega, cstr_length]
    · rcases List.mem_append.mp hx with hx | hx
      · rw [hkept] at hx
        split_ifs at hx
        · cases hx
        · exact hholds.ne_zero x (hsplit.eq ▸ List.mem_append_left _ hx)
      · rcases List.mem_append.mp hx with hx | hx
        · exact hne x hx
        · exact hholds.ne_zero x (hsplit.eq ▸ List.mem_append_right _ (List.mem_append_right _ hx))
  · rfl
  · rw [pathLen] at hshort hlong
    omega

end Component

end DeprecatOS
