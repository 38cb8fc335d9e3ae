import DeprecatOS.Depsh
import DeprecatOS.Proof.LookupPath
import DeprecatOS.Proof.Sample

/-!
# Changing the directory

`cmd_cd` normalises a path by its text alone: a `.` is left out, and a `..` takes away the name before it. In a tree
without links, where `..` leads to the directory that has the name, the kernel's walk over the path and its walk over
what is left end at the same inode.
-/

namespace DeprecatOS

open Bytes Fault NameSpace

/-! ### The characters of a path -/

section Loops

variable {path dir : Buf} {i j stop fuel : Nat}

theorem skipSlashes_eq (hslash : ∀ k, i ≤ k → k < stop → path k = slash) (hstop : path stop ≠ slash) (hle : i ≤ stop)
    (hfuel : stop - i < fuel) : skipSlashes path fuel i = stop := by
  induction fuel generalizing i with
  | zero => omega
  | succ fuel ih =>
    rw [skipSlashes]
    obtain rfl | hlt := Nat.eq_or_lt_of_le hle
    · rw [if_neg hstop]
    · rw [if_pos (hslash i le_rfl hlt)]
      exact ih (fun k hk => hslash k (by omega)) hlt (by omega)

theorem skipComponent_eq (hchar : ∀ k, i ≤ k → k < stop → path k ≠ slash ∧ path k ≠ 0)
    (hstop : path stop = slash ∨ path stop = 0) (hle : i ≤ stop) (hfuel : stop - i < fuel) :
    skipComponent path fuel i = stop := by
  induction fuel generalizing i with
  | zero => omega
  | succ fuel ih =>
    rw [skipComponent]
    obtain rfl | hlt := Nat.eq_or_lt_of_le hle
    · rw [if_neg]
      rintro ⟨hne, hne'⟩
      exact hstop.elim hne hne'
    · rw [if_pos (hchar i le_rfl hlt)]
      exact ih (fun k hk => hchar k (by omega)) hlt (by omega)

theorem dropComponent_eq {n : Nat} (hchar : ∀ k, stop ≤ k → k < n → dir k ≠ slash)
    (hstop : stop = 0 ∨ dir (stop - 1) = slash) (hle : stop ≤ n) : dropComponent dir n = stop := by
  induction n with
  | zero =>
    rw [dropComponent]
    omega
  | succ n ih =>
    rw [dropComponent]
    obtain rfl | hlt := Nat.eq_or_lt_of_le hle
    · rw [if_neg]
      exact not_not.mpr (hstop.resolve_left (Nat.succ_ne_zero n))
    · rw [if_pos (hchar n (by omega) (by omega))]
      exact ih (fun k hk hk' => hchar k hk (by omega)) (by omega)

theorem copyComponent_eq {left k toWrite : Nat} (hroom : toWrite + left ≤ dirSize) :
    copyComponent path j left k toWrite dir = some (toWrite + left, fun x =>
      if toWrite ≤ x ∧ x < toWrite + left then path (j + k + (x - toWrite)) else dir x) := by
  induction left generalizing k toWrite dir with
  | zero =>
    rw [copyComponent]
    congr 2
    funext x
    rw [if_neg (by omega)]
  | succ left ih =>
    rw [copyComponent, if_neg (by omega), ih (by omega)]
    congr 2
    · omega
    · funext x
      by_cases hx : x = toWrite
      · subst hx
        rw [if_neg (by omega), Function.update_self, if_pos (by omega), Nat.sub_self, Nat.add_zero]
      · rw [Function.update_of_ne hx]
        by_cases hin : toWrite ≤ x ∧ x < toWrite + (left + 1)
        · rw [if_pos (by omega), if_pos hin, show j + (k + 1) + (x - (toWrite + 1)) = j + k + (x - toWrite) by omega]
        · rw [if_neg (by omega), if_neg hin]

end Loops

/-! ### The loop over the components -/

def flatPath (names : List Name) : Text := names.flatMap (slash :: ·)

def StartsWith (dir : Buf) (text : Text) : Prop := ∀ k < text.length, dir k = cstr text k

theorem flatPath_append (names more : List Name) : flatPath (names ++ more) = flatPath names ++ flatPath more :=
  List.flatMap_append

theorem flatPath_cons (name : Name) (names : List Name) : flatPath (name :: names) = slash :: (name ++ flatPath names) :=
  List.flatMap_cons

theorem StartsWith.left {dir : Buf} {text more : Text} (hstart : StartsWith dir (text ++ more)) : StartsWith dir text := by
  intro k hk
  rw [hstart k (by rw [List.length_append]; omega), cstr_append, if_pos hk]

theorem exists_first_name (comps : List Name) : ∃ n tail, comps = List.replicate n [] ++ tail ∧
    (tail = [] ∨ ∃ c rest, tail = c :: rest ∧ c ≠ []) := by
  induction comps with
  | nil => exact ⟨0, [], rfl, .inl rfl⟩
  | cons c comps ih =>
    by_cases hc : c = []
    · obtain ⟨n, tail, rfl, htail⟩ := ih
      exact ⟨n + 1, tail, by rw [hc, List.replicate_succ, List.cons_append], htail⟩
    · exact ⟨0, c :: comps, rfl, .inr ⟨c, comps, rfl, hc⟩⟩

theorem flatPath_replicate (n : Nat) : flatPath (List.replicate n []) = List.replicate n slash := by
  induction n with
  | zero => rfl
  | succ n ih => rw [List.replicate_succ, flatPath_cons, ih, List.replicate_succ, List.nil_append]

theorem HoldsText.chars_from {path : Buf} {before rest : Text} (hholds : HoldsText path (before ++ rest)) {k : Nat}
    (hk : k ≤ rest.length) : path (before.length + k) = cstr rest k := by
  rw [hholds.chars _ (by rw [List.length_append]; omega), cstr_append, if_neg (by omega), Nat.add_sub_cancel_left]

/-- What `cmd_cd` leaves of a path: the names, and a slash if the path ends with one. -/
def cdText (stack comps : List Name) : Text :=
  flatPath (lexical dot dotDot stack comps) ++ if comps.getLast? = some [] then [slash] else []

section Component

variable {path dir : Buf} {before : Text} {n : Nat} {c : Name} {rest : List Name}

theorem HoldsText.first_name (hholds : HoldsText path (before ++ flatPath (List.replicate n [] ++ c :: rest))) :
    (∀ k, before.length ≤ k → k < before.length + n + 1 → path k = slash) ∧
      (∀ k < c.length, path (before.length + n + 1 + k) = cstr c k) ∧
      ∀ k ≤ (flatPath rest).length, path (before.length + n + 1 + c.length + k) = cstr (flatPath rest) k := by
  have htext : flatPath (List.replicate n [] ++ c :: rest) =
      List.replicate (n + 1) slash ++ (c ++ flatPath rest) := by
    rw [flatPath_append, flatPath_replicate, flatPath_cons, List.replicate_succ', List.append_assoc]
    rfl
  rw [htext] at hholds
  have hchars : ∀ k ≤ (List.replicate (n + 1) slash ++ (c ++ flatPath rest)).length,
      path (before.length + k) = cstr (List.replicate (n + 1) slash ++ (c ++ flatPath rest)) k :=
    fun k hk => hholds.chars_from hk
  simp only [List.length_append, List.length_replicate] at hchars
  refine ⟨fun k hlow hhigh => ?_, fun k hk => ?_, fun k hk => ?_⟩
  · have hchar := hchars (k - before.length) (by omega)
    rw [Nat.add_sub_cancel' hlow, cstr_append, if_pos (by rw [List.length_replicate]; omega),
      cstr_of_lt (by rw [List.length_replicate]; omega), List.getElem_replicate] at hchar
    exact hchar
  · have hchar := hchars (n + 1 + k) (by omega)
    rw [cstr_append, if_neg (by rw [List.length_replicate]; omega), List.length_replicate, Nat.add_sub_cancel_left,
      cstr_append, if_pos hk] at hchar
    rw [← hchar, ← Nat.add_assoc, ← Nat.add_assoc]
  · have hchar := hchars (n + 1 + (c.length + k)) (by omega)
    rw [cstr_append, if_neg (by rw [List.length_replicate]; omega), List.length_replicate, Nat.add_sub_cancel_left,
      cstr_append, if_neg (by omega), Nat.add_sub_cancel_left] at hchar
    rw [← hchar, ← Nat.add_assoc, ← Nat.add_assoc, ← Nat.add_assoc]

theorem eq_dot_iff {j : Nat} (hchars : ∀ k < c.length, path (j + k) = cstr c k) :
    c.length = 1 ∧ path j = 46 ↔ c = dot := by
  constructor
  · rintro ⟨hlength, hchar⟩
    obtain ⟨x, rfl⟩ := List.length_eq_one_iff.mp hlength
    have hx : path (j + 0) = x := hchars 0 (by simp)
    rw [← hx, Nat.add_zero, hchar]
    rfl
  · rintro rfl
    exact ⟨rfl, hchars 0 (by decide)⟩

theorem eq_dotDot_iff {j : Nat} (hchars : ∀ k < c.length, path (j + k) = cstr c k) :
    c.length = 2 ∧ path j = 46 ∧ path (j + 1) = 46 ↔ c = dotDot := by
  constructor
  · rintro ⟨hlength, hfirst, hsecond⟩
    obtain ⟨x, y, rfl⟩ := List.length_eq_two.mp hlength
    have hx : path (j + 0) = x := hchars 0 (by simp)
    have hy : path (j + 1) = y := hchars 1 (by simp)
    rw [← hx, ← hy, Nat.add_zero, hfirst, hsecond]
    rfl
  · rintro rfl
    exact ⟨rfl, hchars 0 (by decide), hchars 1 (by decide)⟩

def Plain (names : List Name) : Prop := ∀ name ∈ names, name ≠ [] ∧ slash ∉ name

theorem HoldsText.round (hholds : HoldsText path (before ++ flatPath (List.replicate n [] ++ c :: rest)))
    (hc : c ≠ []) (hsep : slash ∉ c) :
    path before.length ≠ 0 ∧ skipSlashes path pathLen before.length = before.length + n + 1 ∧
      skipComponent path pathLen (before.length + n + 1) = before.length + n + 1 + c.length := by
  obtain ⟨hslashes, hname, hrest⟩ := hholds.first_name
  have hshort := hholds.short
  have hlength : (before ++ flatPath (List.replicate n [] ++ c :: rest)).length =
      before.length + n + 1 + c.length + (flatPath rest).length := by
    rw [List.length_append, flatPath_append, flatPath_replicate, flatPath_cons, List.length_append,
      List.length_replicate, List.length_cons, List.length_append]
    omega
  have hpos : 0 < c.length := List.length_pos_iff.mpr hc
  have hchar : ∀ k < c.length, path (before.length + n + 1 + k) ≠ slash ∧ path (before.length + n + 1 + k) ≠ 0 := by
    intro k hk
    rw [hname k hk, cstr_of_lt hk]
    refine ⟨fun heq => hsep (heq ▸ List.getElem_mem hk), hholds.ne_zero _ ?_⟩
    simp only [flatPath, List.mem_append, List.mem_flatMap, List.mem_cons]
    exact .inr ⟨c, .inr (.inl rfl), .inr (List.getElem_mem hk)⟩
  refine ⟨?_, ?_, ?_⟩
  · rw [hslashes _ le_rfl (by omega)]
    decide
  · exact skipSlashes_eq hslashes (hchar 0 hpos).1 (by omega) (by omega)
  · refine skipComponent_eq (fun k hlow hhigh => ?_) ?_ (by omega) (by omega)
    · have := hchar (k - (before.length + n + 1)) (by omega)
      rwa [Nat.add_sub_cancel' hlow] at this
    · have hstop := hrest 0 (Nat.zero_le _)
      rw [Nat.add_zero] at hstop
      rw [hstop]
      cases rest with
      | nil => exact .inr rfl
      | cons next rest => exact .inl rfl

theorem dropComponent_flatPath {stack : List Name} (hstack : Plain stack) (hdir : StartsWith dir (flatPath stack)) :
    (if 0 < dropComponent dir (flatPath stack).length then dropComponent dir (flatPath stack).length - 1
      else dropComponent dir (flatPath stack).length) = (flatPath stack.dropLast).length := by
  rcases List.eq_nil_or_concat stack with rfl | ⟨names, name, rfl⟩
  · rfl
  · rw [List.concat_eq_append] at hstack hdir ⊢
    obtain ⟨-, hsep⟩ := hstack name (by simp)
    have htext : flatPath (names ++ [name]) = flatPath names ++ slash :: name := by
      rw [flatPath_append, flatPath_cons]
      simp [flatPath]
    have hlength : (flatPath (names ++ [name])).length = (flatPath names).length + 1 + name.length := by
      rw [htext, List.length_append, List.length_cons]
      omega
    have hchar : ∀ k ≤ name.length, dir ((flatPath names).length + k) = cstr (slash :: name) k := by
      intro k hk
      rw [hdir _ (by omega), htext, cstr_append, if_neg (by omega), Nat.add_sub_cancel_left]
    have hdrop : dropComponent dir (flatPath (names ++ [name])).length = (flatPath names).length + 1 := by
      apply dropComponent_eq
      · intro k hlow hhigh
        have hk : k - ((flatPath names).length + 1) < name.length := by omega
        have hname := hchar (k - ((flatPath names).length + 1) + 1) (by omega)
        rw [show (flatPath names).length + (k - ((flatPath names).length + 1) + 1) = k by omega] at hname
        rw [hname]
        change cstr name _ ≠ slash
        rw [cstr_of_lt hk]
        exact fun heq => hsep (heq ▸ List.getElem_mem hk)
      · right
        rw [Nat.add_sub_cancel]
        exact hchar 0 (Nat.zero_le _)
      · omega
    rw [hdrop, List.dropLast_concat]
    simp

theorem cdLoop_component (hholds : HoldsText path (before ++ flatPath (List.replicate n [] ++ c :: rest)))
    (hc : c ≠ []) (hsep : slash ∉ c) {stack : List Name} (hstack : Plain stack) (hdir : StartsWith dir (flatPath stack))
    (hroom : (flatPath stack).length + (c.length + 1) < dirSize) (fuel : Nat) :
    ∃ dir', StartsWith dir' (flatPath (pushName dot dotDot stack c)) ∧
      cdLoop path (fuel + 1) before.length (flatPath stack).length dir =
        cdLoop path fuel (before.length + n + 1 + c.length) (flatPath (pushName dot dotDot stack c)).length dir' := by
  obtain ⟨hpos, hj, hi⟩ := hholds.round hc hsep
  obtain ⟨-, hname, -⟩ := hholds.first_name
  rw [cdLoop, if_neg hpos, hj]
  dsimp only
  rw [hi, Nat.add_sub_cancel_left]
  by_cases hdot : c = dot
  · refine ⟨dir, ?_, ?_⟩
    · rw [pushName, if_pos hdot]
      exact hdir
    · rw [if_pos ((eq_dot_iff hname).mpr hdot), pushName, if_pos hdot]
  rw [if_neg (mt (eq_dot_iff hname).mp hdot)]
  by_cases hup : c = dotDot
  · refine ⟨dir, ?_, ?_⟩
    · have hsplit : stack = stack.dropLast ++ stack.drop (stack.length - 1) := by
        rw [List.dropLast_eq_take, List.take_append_drop]
      rw [hsplit, flatPath_append] at hdir
      rw [pushName, if_neg hdot, if_pos hup]
      exact hdir.left
    · rw [if_pos ((eq_dotDot_iff hname).mpr hup), dropComponent_flatPath hstack hdir, pushName, if_neg hdot, if_pos hup]
  have hpush : flatPath (pushName dot dotDot stack c) = flatPath stack ++ slash :: c := by
    rw [pushName, if_neg hdot, if_neg hup, flatPath_append, flatPath_cons]
    simp [flatPath]
  have hlength : (flatPath stack ++ slash :: c).length = (flatPath stack).length + 1 + c.length := by
    rw [List.length_append, List.length_cons]
    omega
  rw [if_neg (mt (eq_dotDot_iff hname).mp hup), if_neg (by omega), copyComponent_eq (by omega), hpush, hlength]
  refine ⟨_, fun k hk => ?_, rfl⟩
  rw [hlength] at hk
  rw [cstr_append]
  by_cases hold : k < (flatPath stack).length
  · rw [if_neg (by omega), Function.update_of_ne (by omega), if_pos hold, hdir k hold]
  rw [if_neg hold]
  obtain rfl | hlt := Nat.eq_or_lt_of_le (Nat.not_lt.mp hold)
  · rw [if_neg (by omega), Function.update_self, Nat.sub_self]
    rfl
  · rw [if_pos (by omega), Nat.add_zero, hname _ (by omega),
      show k - (flatPath stack).length = k - ((flatPath stack).length + 1) + 1 by omega]
    rfl

theorem cdLoop_slashes (hholds : HoldsText path (before ++ flatPath (List.replicate (n + 1) [])))
    {stack : List Name} (hdir : StartsWith dir (flatPath stack)) (hroom : (flatPath stack).length + 1 < dirSize)
    (fuel : Nat) :
    ∃ dir', StartsWith dir' (flatPath stack ++ [slash]) ∧
      cdLoop path (fuel + 2) before.length (flatPath stack).length dir =
        some ((flatPath stack ++ [slash]).length, dir') := by
  rw [flatPath_replicate] at hholds
  have hshort := hholds.short
  rw [List.length_append, List.length_replicate] at hshort
  have hslashes : ∀ k, before.length ≤ k → k < before.length + (n + 1) → path k = slash := by
    intro k hlow hhigh
    have hchar := hholds.chars_from (show k - before.length ≤ (List.replicate (n + 1) slash).length by
      rw [List.length_replicate]; omega)
    rw [Nat.add_sub_cancel' hlow, cstr_of_lt (by rw [List.length_replicate]; omega), List.getElem_replicate] at hchar
    exact hchar
  have hend : path (before.length + (n + 1)) = 0 := by
    have hlast := hholds.chars _ le_rfl
    rwa [cstr_length, List.length_append, List.length_replicate] at hlast
  have hpos : path before.length ≠ 0 := by
    rw [hslashes _ le_rfl (by omega)]
    decide
  have hj : skipSlashes path pathLen before.length = before.length + (n + 1) :=
    skipSlashes_eq hslashes (by rw [hend]; decide) (by omega) (by omega)
  have hi : skipComponent path pathLen (before.length + (n + 1)) = before.length + (n + 1) :=
    skipComponent_eq (fun k hlow hhigh => by omega) (.inr hend) le_rfl (by omega)
  have hlength : (flatPath stack ++ [slash]).length = (flatPath stack).length + 1 := by
    rw [List.length_append, List.length_singleton]
  refine ⟨Function.update dir (flatPath stack).length slash, fun k hk => ?_, ?_⟩
  · rw [hlength] at hk
    rw [cstr_append]
    by_cases hold : k < (flatPath stack).length
    · rw [if_pos hold, Function.update_of_ne (by omega), hdir k hold]
    · obtain rfl : k = (flatPath stack).length := by omega
      rw [if_neg hold, Function.update_self, Nat.sub_self]
      rfl
  · rw [cdLoop, if_neg hpos, hj]
    dsimp only
    rw [hi, Nat.sub_self, if_neg (fun h => absurd h.1 (by decide)), if_neg (fun h => absurd h.1 (by decide)),
      if_neg (by omega), copyComponent]
    dsimp only
    rw [cdLoop, if_pos hend, hlength]

theorem lexical_replicate (stack : List Name) (n : Nat) (comps : List Name) :
    lexical dot dotDot stack (List.replicate n [] ++ comps) = lexical dot dotDot stack comps := by
  rw [lexical, lexical, List.filter_append]
  simp

theorem lexical_cons (stack : List Name) (hc : c ≠ []) (comps : List Name) :
    lexical dot dotDot stack (c :: comps) = lexical dot dotDot (pushName dot dotDot stack c) comps := by
  rw [lexical, lexical, List.filter_cons_of_pos (by simpa using hc), List.foldl_cons]

theorem cdText_nil (stack : List Name) : cdText stack [] = flatPath stack := List.append_nil _

theorem cdText_slashes (stack : List Name) (n : Nat) :
    cdText stack (List.replicate (n + 1) []) = flatPath stack ++ [slash] := by
  have hlexical := lexical_replicate stack (n + 1) []
  rw [List.append_nil] at hlexical
  rw [cdText, hlexical, List.getLast?_replicate, if_neg (Nat.succ_ne_zero n), if_pos rfl]
  rfl

theorem cdText_component (stack : List Name) (n : Nat) (hc : c ≠ []) (rest : List Name) :
    cdText stack (List.replicate n [] ++ c :: rest) = cdText (pushName dot dotDot stack c) rest := by
  rw [cdText, cdText, lexical_replicate, lexical_cons stack hc, List.getLast?_append_of_ne_nil _ (List.cons_ne_nil _ _)]
  cases rest with
  | nil => simp [hc]
  | cons next rest => rw [List.getLast?_cons_cons]

theorem Plain.push {stack : List Name} (hstack : Plain stack) (hc : c ≠ []) (hsep : slash ∉ c) :
    Plain (pushName dot dotDot stack c) := by
  intro name hname
  rw [pushName] at hname
  split_ifs at hname with hdot hup
  · exact hstack name hname
  · exact hstack name (List.dropLast_subset stack hname)
  · rcases List.mem_append.mp hname with hold | hnew
    · exact hstack name hold
    · rw [List.mem_singleton.mp hnew]
      exact ⟨hc, hsep⟩

theorem length_flatPath_push (stack : List Name) (c : Name) :
    (flatPath (pushName dot dotDot stack c)).length ≤ (flatPath stack).length + (c.length + 1) := by
  rw [pushName]
  split_ifs
  · omega
  · have hsplit : stack = stack.dropLast ++ stack.drop (stack.length - 1) := by
      rw [List.dropLast_eq_take, List.take_append_drop]
    have hlength : (flatPath stack).length = _ := congrArg (fun names => (flatPath names).length) hsplit
    rw [flatPath_append, List.length_append] at hlength
    omega
  · rw [flatPath_append, flatPath_cons]
    simp [flatPath]

theorem cdLoop_run {comps stack : List Name} (hholds : HoldsText path (before ++ flatPath comps))
    (hcomps : ∀ c ∈ comps, slash ∉ c) (hstack : Plain stack) (hdir : StartsWith dir (flatPath stack))
    (hroom : (flatPath stack).length + (flatPath comps).length < dirSize) {fuel : Nat} (hfuel : comps.length < fuel) :
    ∃ dir', StartsWith dir' (cdText stack comps) ∧ (cdText stack comps).length < dirSize ∧
      cdLoop path fuel before.length (flatPath stack).length dir = some ((cdText stack comps).length, dir') := by
  induction fuel generalizing before stack comps dir with
  | zero => omega
  | succ fuel ih =>
    obtain ⟨n, tail, rfl, rfl | ⟨c, rest, rfl, hc⟩⟩ := exists_first_name comps
    · rw [List.append_nil] at hholds hroom hfuel ⊢
      rw [List.length_replicate] at hfuel
      rw [flatPath_replicate, List.length_replicate] at hroom
      cases n with
      | zero =>
        have hend : path before.length = 0 := by
          have hlast := hholds.chars _ le_rfl
          rwa [cstr_length, flatPath_replicate, List.replicate_zero, List.append_nil] at hlast
        rw [List.replicate_zero, cdText_nil]
        exact ⟨dir, hdir, hroom, by rw [cdLoop, if_pos hend]⟩
      | succ n =>
        obtain ⟨fuel, rfl⟩ : ∃ more, fuel = more + 1 := ⟨fuel - 1, by omega⟩
        rw [cdText_slashes]
        obtain ⟨dir', hdir', hrun⟩ := cdLoop_slashes hholds hdir (by omega) fuel
        refine ⟨dir', hdir', ?_, hrun⟩
        rw [List.length_append, List.length_singleton]
        omega
    · have hsep := hcomps c (by simp)
      have hlength : (flatPath (List.replicate n [] ++ c :: rest)).length =
          n + (c.length + 1) + (flatPath rest).length := by
        rw [flatPath_append, flatPath_replicate, flatPath_cons, List.length_append, List.length_replicate,
          List.length_cons, List.length_append]
        omega
      have hpush := length_flatPath_push stack c
      obtain ⟨dir', hdir', hround⟩ := cdLoop_component hholds hc hsep hstack hdir (by omega) fuel
      have hbefore : before ++ flatPath (List.replicate n [] ++ c :: rest) =
          before ++ List.replicate n slash ++ slash :: c ++ flatPath rest := by
        rw [flatPath_append, flatPath_replicate, flatPath_cons]
        simp
      have hindex : before.length + n + 1 + c.length = (before ++ List.replicate n slash ++ slash :: c).length := by
        rw [List.length_append, List.length_append, List.length_replicate, List.length_cons]
        omega
      rw [hbefore] at hholds
      rw [hround, cdText_component stack n hc, hindex]
      apply ih hholds (fun c hc => hcomps c (by simp [hc])) (hstack.push hc hsep) hdir' (by omega)
      rw [List.length_append, List.length_replicate, List.length_cons] at hfuel
      omega

end Component

/-! ### The directory that is written -/

def cdComps (comps : List Name) : List Name :=
  [] :: lexical dot dotDot [] comps ++
    if comps.getLast? = some [] ∨ lexical dot dotDot [] comps = [] then [[]] else []

theorem cdComps_filter {comps : List Name} (hnames : ∀ name ∈ lexical dot dotDot [] comps, name ≠ []) :
    (cdComps comps).filter (· ≠ []) = lexical dot dotDot [] comps := by
  have hself : (lexical dot dotDot [] comps).filter (· ≠ []) = lexical dot dotDot [] comps :=
    List.filter_eq_self.mpr fun name hname => by simpa using hnames name hname
  rw [cdComps, List.cons_append, List.filter_cons_of_neg (by simp), List.filter_append, hself]
  split_ifs
  · simp
  · simp

theorem intercalate_cdComps (comps : List Name) : [slash].intercalate (cdComps comps) =
    if cdText [] comps = [] then [slash] else cdText [] comps := by
  rw [cdComps, List.cons_append, intercalate_cons, List.nil_append, ← flatPath, flatPath_append, cdText]
  by_cases hlast : comps.getLast? = some []
  · rw [if_pos (.inl hlast), if_pos hlast, if_neg (by simp)]
    rfl
  · rw [if_neg hlast, List.append_nil]
    by_cases hnone : lexical dot dotDot [] comps = []
    · rw [hnone, if_pos (.inr rfl), if_pos (show flatPath [] = [] from rfl)]
      rfl
    · have hne : flatPath (lexical dot dotDot [] comps) ≠ [] := by
        obtain ⟨name, names, hcons⟩ := List.exists_cons_of_ne_nil hnone
        rw [hcons, flatPath_cons]
        exact List.cons_ne_nil _ _
      rw [if_neg (not_or.mpr ⟨hlast, hnone⟩), if_neg hne]
      exact List.append_nil _

theorem StartsWith.holdsText {dir : Buf} {text : Text} (hdir : StartsWith dir text) (hshort : text.length < dirSize)
    (hne : ∀ c ∈ text, c ≠ 0) : HoldsText (Function.update dir text.length 0) text where
  short := lt_trans hshort (by decide)
  chars := by
    intro k hk
    obtain rfl | hlt := Nat.eq_or_lt_of_le hk
    · rw [Function.update_self, cstr_length]
    · rw [Function.update_of_ne (by omega), hdir k hlt]
  ne_zero := hne

theorem mem_lexical {comps stack : List Name} {name : Name} (hname : name ∈ lexical dot dotDot stack comps) :
    name ∈ stack ∨ name ∈ comps := by
  rw [lexical] at hname
  induction comps generalizing stack with
  | nil => exact .inl hname
  | cons c comps ih =>
    by_cases hc : c = []
    · rw [List.filter_cons_of_neg (by simp [hc])] at hname
      exact (ih hname).imp_right (List.mem_cons_of_mem c)
    · rw [List.filter_cons_of_pos (by simpa using hc), List.foldl_cons] at hname
      rcases ih hname with hpush | hrest
      · rw [pushName] at hpush
        split_ifs at hpush
        · exact .inl hpush
        · exact .inl (List.dropLast_subset stack hpush)
        · exact (List.mem_append.mp hpush).imp_right fun hmem => by simpa using .inl (List.mem_singleton.mp hmem)
      · exact .inr (List.mem_cons_of_mem c hrest)

theorem cdDir_run (dir : Buf) {path : Buf} {comps : List Name} (hholds : HoldsText path (flatPath comps))
    (hcomps : ∀ c ∈ comps, slash ∉ c) (hshort : (flatPath comps).length < dirSize) :
    ∃ dir', cdDir path dir = some dir' ∧ HoldsText dir' ([slash].intercalate (cdComps comps)) ∧
      ([slash].intercalate (cdComps comps)).length < dirSize := by
  have hchars : ∀ x ∈ cdText [] comps, x ≠ 0 := by
    intro x hx
    rw [cdText, List.mem_append] at hx
    rcases hx with hx | hx
    · obtain ⟨name, hname, hx⟩ := List.mem_flatMap.mp hx
      have hmem : name ∈ comps := (mem_lexical hname).resolve_left List.not_mem_nil
      exact hholds.ne_zero x (List.mem_flatMap.mpr ⟨name, hmem, hx⟩)
    · split_ifs at hx
      · rw [List.mem_singleton.mp hx]
        decide
      · cases hx
  have hcount : comps.length < pathLen := lt_of_le_of_lt (length_le_flatMap comps) hholds.short
  have hstart : StartsWith dir (flatPath []) := fun k hk => absurd hk (Nat.not_lt_zero k)
  have hplain : Plain [] := fun name hname => absurd hname List.not_mem_nil
  have hroom : (flatPath []).length + (flatPath comps).length < dirSize := by
    rw [show (flatPath []).length = 0 from rfl, Nat.zero_add]
    exact hshort
  have hwhole : HoldsText path ([] ++ flatPath comps) := hholds
  obtain ⟨dir', hdir', hlt, hrun⟩ := cdLoop_run hwhole hcomps hplain hstart hroom hcount
  have hrun' : cdLoop path pathLen 0 0 dir = some ((cdText [] comps).length, dir') := hrun
  rw [intercalate_cdComps, cdDir, hrun']
  dsimp only
  by_cases hempty : cdText [] comps = []
  · rw [if_pos hempty, hempty, List.length_nil, if_pos rfl]
    dsimp only
    have hslash : StartsWith (Function.update dir' 0 slash) [slash] := by
      intro k hk
      obtain rfl : k = 0 := Nat.lt_one_iff.mp hk
      rw [Function.update_self]
      rfl
    refine ⟨_, if_neg (by decide), hslash.holdsText (by decide) ?_, by decide⟩
    intro x hx
    rw [List.mem_singleton.mp hx]
    decide
  · have hpos : (cdText [] comps).length ≠ 0 := fun hzero => hempty (List.length_eq_zero_iff.mp hzero)
    rw [if_neg hempty, if_neg hpos]
    dsimp only
    exact ⟨_, if_neg (Nat.not_le.mpr hlt), hdir'.holdsText hlt hchars, hlt⟩

/-! ### The tree of directories -/

/-- In every directory `.` is the directory itself, and in one that another directory has a name for `..` is that
directory. The root is its own `..`. -/
structure FsInfo.DotsOk (fs : FsInfo) : Prop where
  here : ∀ d, fs.IsDir d → fs.child d dot = some d
  top : fs.child rootInodeN dotDot = some rootInodeN
  parent : ∀ d name c, fs.IsDir d → name ≠ dot → name ≠ dotDot → fs.child d name = some c → fs.IsDir c →
    fs.child c dotDot = some d

namespace Machine

variable {static : Slot → UInt32 → Prop} {m : Machine} {place next : Place} {c : Name}

theorem child_unmounted (hmount : ∀ i, (m.fsEntries i).mountpoint = 0)
    (hvalid : m.Valid place) (hchild : m.visible.child place c = some next) :
    place.1 = m.rootFs ∧ next.1 = m.rootFs ∧ (m.fsEntries m.rootFs).IsDir place.2 ∧
      (m.fsEntries m.rootFs).child place.2 c = some next.2 := by
  have hroot : place.1 = m.rootFs := hvalid.1.resolve_right fun hne => hne (hmount place.1)
  have hstays : m.mntRoot place.1 place.2 = (false, place.1, place.2) := by
    rw [mntRoot, if_neg (not_not.mpr hroot), List.find?_eq_none.mpr]
    intro part _
    rw [hmount part, decide_eq_true_iff]
    exact UInt32.ne_of_lt (FsInfo.real_of_marked hvalid.2).1
  have hup : ∀ k, (m.mntMountpoint m.rootFs k).2 = (m.rootFs, k) := by
    intro k
    rw [mntMountpoint, if_pos (.inl rfl)]
  rw [visible_child, hstays] at hchild
  dsimp only at hchild
  split_ifs at hchild with hbad hseven
  · obtain ⟨k, hk, rfl⟩ := Option.map_eq_some_iff.mp hchild
    rw [not_or, not_not] at hbad
    rw [hroot] at hk hbad ⊢
    rw [hup]
    exact ⟨rfl, rfl, ⟨hroot ▸ hvalid.2, hbad.2⟩, hk⟩
  · cases hchild

theorem Readable.visible_tree (hread : m.Readable static) (hmount : ∀ i, (m.fsEntries i).mountpoint = 0)
    (hdots : (m.fsEntries m.rootFs).DotsOk) : m.visible.Tree dot dotDot m.Valid where
  validRoot := hread.valid_root
  validChild _ _ _ := hread.valid_child
  stays := by
    intro place next hvalid hchild
    obtain ⟨hroot, hroot', hdir, hfound⟩ := child_unmounted hmount hvalid hchild
    rw [hdots.here _ hdir] at hfound
    exact Prod.ext (hroot'.trans hroot.symm) (Option.some.inj hfound).symm
  top := by
    intro next hchild
    obtain ⟨-, hroot', -, hfound⟩ := child_unmounted hmount hread.valid_root hchild
    have hsame := hdots.top.symm.trans hfound
    exact Prod.ext hroot' (Option.some.inj hsame).symm
  above := by
    intro place name child next hvalid hhere hup hchild hnext
    obtain ⟨hroot, hroot', hdir, hfound⟩ := child_unmounted hmount hvalid hchild
    have hvalid' := hread.valid_child hvalid hchild
    obtain ⟨-, hroot'', hdir', hfound'⟩ := child_unmounted hmount hvalid' hnext
    rw [hdots.parent _ _ _ hdir hhere hup hfound hdir'] at hfound'
    exact Prod.ext (hroot''.trans hroot.symm) (Option.some.inj hfound').symm

theorem Readable.lookupPath_descend (hread : m.Readable static)
    (hlinks : ∀ place, m.Valid place → m.visible.link place = none) (stack : Buf) {path : Buf} {comps : List Name}
    (hholds : HoldsText path ([slash].intercalate comps)) (hhead : path 0 = slash) (hsep : ∀ c ∈ comps, slash ∉ c)
    (hne : comps ≠ []) :
    lookupPath stack path true m = .ok (m.visible.descend m.visible.root comps, m) := by
  have htext := hholds.textOf_eq
  have hshort : (textOf path).length < pathLen := by
    rw [htext]
    exact hholds.short
  rw [lookupPath_run hread true stack hhead hshort, htext, List.splitOn_intercalate slash hsep hne,
    Space.resolveWithin_eq_descend (fun _ _ _ => hread.valid_child) hlinks true pathLen symlinkMaxDepth hread.valid_root]

end Machine

/-! ### The command -/

structure Depsh.SamePlace (s s' : Depsh) : Prop where
  machine : s'.machine = s.machine
  dir : s'.dir = s.dir

theorem updFullPath_run (s : Depsh) : ∃ success s', updFullPath s = .ok (success, s') ∧ s.SamePlace s' :=
  ⟨_, _, rfl, rfl, rfl⟩

theorem returnPath_same {args : Buf} {s s' : Depsh} {path : Option Buf}
    (hrun : returnPath args s = .ok (path, s')) : s.SamePlace s' := by
  rw [returnPath] at hrun
  split_ifs at hrun with habsolute
  · obtain rfl : s = s' := (Prod.mk.inj (Except.ok.inj hrun)).2
    exact ⟨rfl, rfl⟩
  · obtain ⟨success, mid, hupd, hsame⟩ := updFullPath_run s
    rw [run_bind_ok hupd] at hrun
    cases success with
    | false =>
      obtain rfl : mid = s' := (Prod.mk.inj (Except.ok.inj hrun)).2
      exact hsame
    | true =>
      rw [if_pos rfl, run_bind_ok (run_get mid)] at hrun
      generalize copyArgs args _ _ _ _ = result at hrun
      obtain ⟨copied, full⟩ := result
      dsimp only at hrun
      rw [run_bind_ok (run_modify _ mid)] at hrun
      cases copied with
      | none =>
        obtain rfl : _ = s' := (Prod.mk.inj (Except.ok.inj hrun)).2
        exact ⟨hsame.machine, hsame.dir⟩
      | some j =>
        dsimp only at hrun
        split_ifs at hrun
        · cases hrun
        · obtain rfl : _ = s' := (Prod.mk.inj (Except.ok.inj hrun)).2
          exact ⟨hsame.machine, hsame.dir⟩

variable {static : Slot → UInt32 → Prop}

theorem onKernel_run_read {α : Type} {prog : MachineM α} {s : Depsh} {a : α}
    (hrun : prog s.machine = .ok (a, s.machine)) : onKernel prog s = .ok (a, s) := by
  rw [onKernel, zoom, hrun]

theorem Machine.fsFromIndex_slotIndex {m : Machine} {i : Slot} (hlive : m.Live i) :
    m.fsFromIndex (slotIndex i) = some i := by
  have hval : (slotIndex i).toNat = i.val := by
    rw [slotIndex, UInt32.toNat_ofNat']
    exact Nat.mod_eq_of_lt (lt_trans i.isLt (by decide))
  have hlt : (slotIndex i).toNat < 8 := hval ▸ i.isLt
  have hslot : (⟨(slotIndex i).toNat, hlt⟩ : Slot) = i := Fin.ext hval
  rw [fsFromIndex, dif_pos hlt]
  dsimp only
  rw [hslot, if_neg]
  rintro ⟨hroot, hunmounted⟩
  exact hlive.elim hroot fun hmount => hmount hunmounted

theorem isDir_run {s : Depsh} (hread : s.machine.Readable static) {place : Place} (hvalid : s.machine.Valid place) :
    ∃ answer s', isDir place.2 (slotIndex place.1) s = .ok (answer, s') ∧ s.SamePlace s' := by
  have hstat : ∃ result s', getStatCall (slotIndex place.1) place.2 s = .ok (result, s') ∧ s.SamePlace s' := by
    rw [getStatCall, run_bind_ok (run_get s), Machine.fsFromIndex_slotIndex hvalid.1]
    dsimp only
    rw [run_bind_ok (onKernel_run_read (getInode_run_valid hread hvalid))]
    exact ⟨_, _, rfl, rfl, rfl⟩
  obtain ⟨result, mid, hrun, hsame⟩ := hstat
  rw [isDir, run_bind_ok hrun]
  exact ⟨_, _, rfl, hsame⟩

/-- A string that fits in `dir`, names the root or starts there, and has no component `.` or `..`. -/
structure WorkingDir (dir : Buf) : Prop where
  ends : ∃ len < dirSize, dir len = 0 ∧ ∀ k < len, dir k ≠ 0
  absolute : dir 0 = slash
  plain : ∀ c ∈ (textOf dir).splitOn slash, c ≠ dot ∧ c ≠ dotDot

def cdPath (args path : Buf) : Buf := if args 0 = 0 then cstr [slash] else path

theorem length_textOf_cdPath (args : Buf) {path : Buf} (hshort : (textOf path).length < dirSize) :
    (textOf (cdPath args path)).length < dirSize := by
  rw [cdPath]
  split_ifs
  · decide
  · exact hshort

theorem exists_flatPath {p : Buf} (habsolute : p 0 = slash) (hshort : (textOf p).length < pathLen) :
    ∃ comps ≠ [], textOf p = flatPath comps ∧ HoldsText p (flatPath comps) ∧ ∀ c ∈ comps, slash ∉ c := by
  have hscan : scanName p pathLen 0 < pathLen := by
    rwa [textOf, List.length_map, List.length_range] at hshort
  obtain ⟨hholds, hhead⟩ := holdsText_path habsolute hscan
  have hsep : ∀ c ∈ (textOf p).splitOn slash, slash ∉ c := fun c hc => notMem_of_mem_splitOn slash hc
  obtain ⟨comps, hne, hsplit, htext⟩ := exists_components hhead hsep
  rw [htext] at hholds
  refine ⟨comps, hne, hholds.textOf_eq, hholds, fun c hc => hsep c ?_⟩
  rw [hsplit]
  exact List.mem_cons_of_mem _ hc

section

variable {m : Machine} {comps : List Name} {place : Place}

theorem cdComps_sep (hsep : ∀ c ∈ comps, slash ∉ c) : ∀ c ∈ cdComps comps, slash ∉ c := by
  intro c hc
  rw [cdComps, List.mem_append, List.mem_cons] at hc
  rcases hc with (rfl | hname) | hlast
  · exact List.not_mem_nil
  · exact hsep c ((mem_lexical hname).resolve_left List.not_mem_nil)
  · split_ifs at hlast
    · rw [List.mem_singleton.mp hlast]
      exact List.not_mem_nil
    · cases hlast

theorem descend_cdComps (htree : m.visible.Tree dot dotDot m.Valid)
    (hplace : m.visible.descend m.visible.root comps = some place) :
    m.visible.descend m.visible.root (cdComps comps) = some place ∧ ∀ c ∈ cdComps comps, c ≠ dot ∧ c ≠ dotDot := by
  have hnil : ∀ name ∈ ([] : List Name), Downward dot dotDot name := fun name hname => absurd hname List.not_mem_nil
  obtain ⟨hdown, hdescend⟩ := htree.descend_lexical hnil rfl hplace
  constructor
  · rw [← Space.descend_filter, cdComps_filter fun name hname => (hdown name hname).1]
    exact hdescend
  · intro c hc
    rw [cdComps, List.mem_append, List.mem_cons] at hc
    rcases hc with (rfl | hname) | hlast
    · decide
    · exact (hdown c hname).2
    · split_ifs at hlast
      · rw [List.mem_singleton.mp hlast]
        decide
      · cases hlast

theorem cdComps_eq_cons (comps : List Name) : ∃ c rest, cdComps comps = [] :: c :: rest := by
  rw [cdComps]
  cases hnames : lexical dot dotDot [] comps with
  | nil => exact ⟨[], [], by rw [if_pos (.inr rfl)]; rfl⟩
  | cons name names => exact ⟨name, _, rfl⟩

theorem cdComps_absolute {dir : Buf} (hholds : HoldsText dir ([slash].intercalate (cdComps comps))) :
    dir 0 = slash := by
  obtain ⟨c, rest, hcons⟩ := cdComps_eq_cons comps
  rw [hcons, intercalate_cons, List.nil_append, List.flatMap_cons] at hholds
  exact hholds.chars 0 (Nat.zero_le _)

theorem workingDir_cdComps {dir : Buf} (hsep : ∀ c ∈ comps, slash ∉ c)
    (hplain : ∀ c ∈ cdComps comps, c ≠ dot ∧ c ≠ dotDot) (hholds : HoldsText dir ([slash].intercalate (cdComps comps)))
    (hshort : ([slash].intercalate (cdComps comps)).length < dirSize) : WorkingDir dir where
  ends := by
    refine ⟨_, hshort, by rw [hholds.chars _ le_rfl, cstr_length], fun k hk => ?_⟩
    rw [hholds.chars k hk.le, cstr_of_lt hk]
    exact hholds.ne_zero _ (List.getElem_mem hk)
  absolute := cdComps_absolute hholds
  plain := by
    rw [hholds.textOf_eq, List.splitOn_intercalate slash (cdComps_sep hsep) (List.cons_ne_nil _ _)]
    exact hplain

end

theorem lookupPath_cdDir {m : Machine} (hread : m.Readable static)
    (hlinks : ∀ place, m.Valid place → m.visible.link place = none) (htree : m.visible.Tree dot dotDot m.Valid)
    (stack : Buf) {p : Buf} (hshort : (textOf p).length < dirSize) :
    ∃ found, lookupPath stack p true m = .ok (found, m) ∧ ∀ place, found = some place → m.Valid place ∧
      ∀ dir, ∃ dir', cdDir p dir = some dir' ∧ WorkingDir dir' ∧
        lookupPath stack dir' true m = .ok (some place, m) := by
  by_cases habsolute : p 0 = slash
  · obtain ⟨comps, hne, htext, hholds, hsep⟩ := exists_flatPath habsolute (lt_trans hshort (by decide))
    rw [htext] at hshort
    have hcomps : [slash].intercalate ([] :: comps) = flatPath comps := by
      rw [intercalate_cons, List.nil_append, flatPath]
    have hsep' : ∀ c ∈ [] :: comps, slash ∉ c := List.forall_mem_cons.mpr ⟨List.not_mem_nil, hsep⟩
    have hlookup := hread.lookupPath_descend hlinks stack (hcomps.symm ▸ hholds) habsolute hsep' (List.cons_ne_nil _ _)
    refine ⟨_, hlookup, fun place hplace => ?_⟩
    have hdescend : m.visible.descend m.visible.root comps = some place := hplace
    obtain ⟨hsame, hplain⟩ := descend_cdComps htree hdescend
    refine ⟨Space.descend_valid htree.validChild htree.validRoot hdescend, fun dir => ?_⟩
    obtain ⟨dir', hdir', hholds', hshort'⟩ := cdDir_run dir hholds hsep hshort
    refine ⟨dir', hdir', workingDir_cdComps hsep hplain hholds' hshort', ?_⟩
    rw [hread.lookupPath_descend hlinks stack hholds' (cdComps_absolute hholds') (cdComps_sep hsep)
      (List.cons_ne_nil _ _), hsame]
  · refine ⟨none, ?_, fun place hnone => ?_⟩
    · rw [lookupPath, if_pos habsolute]
      rfl
    · cases hnone

/-- `cmd_cd` either writes a message and leaves `dir` as it is, or leaves in `dir` a path without `.` and `..` that leads
to the inode of the path it was given. -/
theorem cmdCd_faithful {s s₁ : Depsh} (hread : s.machine.Readable static)
    (hmount : ∀ i, (s.machine.fsEntries i).mountpoint = 0)
    (hlinks : ∀ n, (s.machine.fsEntries s.machine.rootFs).marked .inode n = true →
      ((s.machine.fsEntries s.machine.rootFs).record n).type ≠ inodeSymlinkType)
    (hdots : (s.machine.fsEntries s.machine.rootFs).DotsOk) (env : Env) (args : Buf) (dFs : UInt32) {path : Buf}
    (hpath : returnPath args s = .ok (some path, s₁)) (hshort : (textOf path).length < dirSize) :
    ∃ message s', cmdCd env args dFs s = .ok (message, s') ∧ s'.machine = s.machine ∧
      (message ≠ none → s'.dir = s.dir) ∧
      (message = none → WorkingDir s'.dir ∧ ∃ place,
        lookupPath env.stack s'.dir true s.machine = .ok (some place, s.machine) ∧
        lookupPath env.stack (cdPath args path) true s.machine = .ok (some place, s.machine)) := by
  have hsame := returnPath_same hpath
  have hnoLink : ∀ place, s.machine.Valid place → s.machine.visible.link place = none := by
    intro place hvalid
    have hroot : place.1 = s.machine.rootFs := hvalid.1.resolve_right fun hne => hne (hmount place.1)
    have hmark := hvalid.2
    rw [hroot] at hmark
    simp only [Machine.visible, Machine.space, FsInfo.space]
    rw [hroot, if_neg (hlinks place.2 hmark)]
  obtain ⟨found, hfound, hplace⟩ := lookupPath_cdDir hread hnoLink (hread.visible_tree hmount hdots) env.stack
    (length_textOf_cdPath args hshort)
  have hfound₁ : lookupPath env.stack (cdPath args path) true s₁.machine = .ok (found, s₁.machine) := by
    rw [hsame.machine]
    exact hfound
  rw [cmdCd, run_bind_ok hpath]
  dsimp only
  rw [← cdPath]
  cases found with
  | none =>
    have hresolve : resolveDirCall env (cdPath args path) dFs s₁ = .ok ((syscallError, dFs), s₁) := by
      rw [resolveDirCall, run_bind_ok (onKernel_run_read hfound₁)]
      rfl
    rw [run_bind_ok hresolve]
    exact ⟨_, s₁, rfl, hsame.machine, fun _ => hsame.dir, fun hnone => by cases hnone⟩
  | some place =>
    obtain ⟨hvalid, hdir⟩ := hplace place rfl
    by_cases herror : place.2 = syscallError
    · have hresolve : resolveDirCall env (cdPath args path) dFs s₁ = .ok ((syscallError, dFs), s₁) := by
        rw [resolveDirCall, run_bind_ok (onKernel_run_read hfound₁)]
        dsimp only
        rw [herror, if_neg (not_not.mpr rfl)]
        rfl
      rw [run_bind_ok hresolve]
      exact ⟨_, s₁, rfl, hsame.machine, fun _ => hsame.dir, fun hnone => by cases hnone⟩
    · have hresolve : resolveDirCall env (cdPath args path) dFs s₁ = .ok ((place.2, slotIndex place.1), s₁) := by
        rw [resolveDirCall, run_bind_ok (onKernel_run_read hfound₁)]
        dsimp only
        rw [if_pos herror]
        rfl
      obtain ⟨answer, s₂, hisDir, hsame₂⟩ := isDir_run (hsame.machine ▸ hread) (hsame.machine ▸ hvalid)
      rw [run_bind_ok hresolve]
      dsimp only
      rw [if_neg herror, run_bind_ok hisDir]
      cases answer with
      | false =>
        exact ⟨_, s₂, rfl, hsame₂.machine.trans hsame.machine, fun _ => hsame₂.dir.trans hsame.dir,
          fun hnone => by cases hnone⟩
      | true =>
        obtain ⟨dir', hdir', hworking, hlookup⟩ := hdir s₂.dir
        rw [if_neg (not_not.mpr rfl), run_bind_ok (run_get s₂), hdir']
        exact ⟨_, _, rfl, hsame₂.machine.trans hsame.machine, fun hne => absurd rfl hne,
          fun _ => ⟨hworking, place, hlookup, hfound⟩⟩

/-! ### The directory `/mnt/b` -/

theorem host_record : host.fs.record 2 = oneBlockDir 3 5 ∧ host.fs.record 3 = oneBlockDir 3 6 ∧
    host.fs.record 4 = oneBlockDir 2 7 :=
  ⟨Sample.fs_record (by decide), Sample.fs_record (by decide), Sample.fs_record (by decide)⟩

theorem host_marked {n : UInt32} : host.fs.marked .inode n = true ↔ n = 1 ∨ n = 2 ∨ n = 3 ∨ n = 4 := by
  have hiff : ∀ {n}, smallFs.geo.Real .inode n → (host.fs.marked .inode n = true ↔ n.toNat - 1 < 4) :=
    fun hreal => Sample.fs_marked_iff hreal
  constructor
  · intro hmark
    have hreal : smallFs.geo.Real .inode n := by
      have hreal := FsInfo.real_of_marked hmark
      rwa [Sample.fs_geo] at hreal
    have hlt := (hiff hreal).mp hmark
    have hpos : 0 < n.toNat := UInt32.lt_iff_toNat_lt.mp hreal.1
    simp only [← UInt32.toNat_inj]
    exact (show n.toNat = 1 ∨ n.toNat = 2 ∨ n.toNat = 3 ∨ n.toNat = 4 by omega)
  · rintro (rfl | rfl | rfl | rfl) <;> exact (hiff (by decide)).mpr (by decide)

theorem host_isDir {n : UInt32} : host.fs.IsDir n ↔ n = 2 ∨ n = 3 ∨ n = 4 := by
  obtain ⟨htwo, hthree, hfour⟩ := host_record
  constructor
  · rintro ⟨hmark, htype⟩
    obtain rfl | h := host_marked.mp hmark
    · rw [show host.fs.record 1 = .zero from Sample.fs_record (by decide)] at htype
      exact absurd htype (by decide)
    · exact h
  · rintro (rfl | rfl | rfl)
    · exact ⟨host_marked.mpr (by decide), by rw [htwo]; decide⟩
    · exact ⟨host_marked.mpr (by decide), by rw [hthree]; decide⟩
    · exact ⟨host_marked.mpr (by decide), by rw [hfour]; decide⟩

theorem host_not_link {n : UInt32} (hmark : host.fs.marked .inode n = true) :
    (host.fs.record n).type ≠ inodeSymlinkType := by
  obtain rfl | hdir := host_marked.mp hmark
  · rw [show host.fs.record 1 = .zero from Sample.fs_record (by decide)]
    decide
  · rw [(host_isDir.mpr hdir).2]
    decide

/-- The entries of `/`, of `/mnt` and of `/mnt/b`. -/
theorem host_dirEntries :
    host.fs.dirEntries (host.fs.record 2) = [⟨dot, 2, 2⟩, ⟨dotDot, 2, 2⟩, ⟨[109, 110, 116], 3, 2⟩] ∧
      host.fs.dirEntries (host.fs.record 3) = [⟨dot, 3, 2⟩, ⟨dotDot, 2, 2⟩, ⟨[98], 4, 2⟩] ∧
      host.fs.dirEntries (host.fs.record 4) = [⟨dot, 4, 2⟩, ⟨dotDot, 3, 2⟩] := by
  decide +kernel

theorem host_goodFs : GoodFs host.static host.fs := by
  obtain ⟨htwo, hthree, hfour⟩ := host_dirEntries
  have hok : host.Ok := by decide +kernel
  have hdirs : ∀ {P : UInt32 → Prop}, P 2 → P 3 → P 4 → ∀ n, host.fs.IsDir n → P n := by
    intro P h₂ h₃ h₄ n hn
    obtain rfl | rfl | rfl := host_isDir.mp hn
    · exact h₂
    · exact h₃
    · exact h₄
  refine ⟨Sample.consistent hok, host_isDir.mpr (by decide), hdirs ?_ ?_ ?_, hdirs ?_ ?_ ?_, hdirs ?_ ?_ ?_,
    fun n hmark htype => absurd htype (host_not_link hmark)⟩
  · decide +kernel
  · decide +kernel
  · decide +kernel
  · rw [htwo]
    decide
  · rw [hthree]
    decide
  · rw [hfour]
    decide
  · simp only [htwo, host_marked, List.forall_mem_cons]
    decide
  · simp only [hthree, host_marked, List.forall_mem_cons]
    decide
  · simp only [hfour, host_marked, List.forall_mem_cons]
    decide

theorem host_dotsOk : host.fs.DotsOk := by
  obtain ⟨htwo, hthree, hfour⟩ := host_dirEntries
  refine ⟨fun d hd => ?_, ?_, fun d name c hd hdot hup hfound hc => ?_⟩
  · obtain rfl | rfl | rfl := host_isDir.mp hd
    · rw [FsInfo.child, htwo]
      decide
    · rw [FsInfo.child, hthree]
      decide
    · rw [FsInfo.child, hfour]
      decide
  · rw [FsInfo.child, rootInodeN, htwo]
    decide
  · obtain ⟨e, he, rfl⟩ := Option.map_eq_some_iff.mp hfound
    obtain ⟨hmem, rfl⟩ := findEntry_some he
    obtain rfl | rfl | rfl := host_isDir.mp hd
    · rw [htwo] at hmem
      simp only [List.mem_cons, List.not_mem_nil, or_false] at hmem
      obtain rfl | rfl | rfl := hmem
      · exact absurd rfl hdot
      · exact absurd rfl hup
      · rw [FsInfo.child, hthree]
        decide
    · rw [hthree] at hmem
      simp only [List.mem_cons, List.not_mem_nil, or_false] at hmem
      obtain rfl | rfl | rfl := hmem
      · exact absurd rfl hdot
      · exact absurd rfl hup
      · rw [FsInfo.child, hfour]
        decide
    · rw [hfour] at hmem
      simp only [List.mem_cons, List.not_mem_nil, or_false] at hmem
      obtain rfl | rfl := hmem
      · exact absurd rfl hdot
      · exact absurd rfl hup

def hostShell : Depsh where
  machine := { smallMachine with fsEntries := fun _ => host.fs }
  dir := cstr [47]
  fullPath := zero
  statBuf := zero

/-- `mnt/../mnt/./b` -/
def winding : Text := [109, 110, 116, 47, 46, 46, 47, 109, 110, 116, 47, 46, 47, 98]

/-- From `/`, `cd mnt/../mnt/./b` leaves `/mnt/b` in `dir`, which leads to where the path of the command leads. -/
theorem cmdCd_faithful_winding : ∃ s' path s₁ place, cmdCd ⟨0, zero, zero⟩ (cstr winding) 0 hostShell = .ok (none, s') ∧
    textOf s'.dir = [47, 109, 110, 116, 47, 98] ∧ WorkingDir s'.dir ∧
    returnPath (cstr winding) hostShell = .ok (some path, s₁) ∧ textOf path = [47, 47] ++ winding ∧
    lookupPath zero s'.dir true hostShell.machine = .ok (some place, hostShell.machine) ∧
    lookupPath zero path true hostShell.machine = .ok (some place, hostShell.machine) := by
  have hgood : GoodFs host.static (hostShell.machine.fsEntries hostShell.machine.rootFs) := host_goodFs
  have hmount : ∀ i, (hostShell.machine.fsEntries i).mountpoint = 0 := by decide +kernel
  have hfull : (returnPath (cstr winding) hostShell).toOption.map (fun done => done.1.map textOf) =
      some (some ([47, 47] ++ winding)) := by decide +kernel
  obtain ⟨⟨found, s₁⟩, hpath, hfound⟩ := eq_ok_of_toOption hfull
  obtain ⟨path, rfl, htext⟩ := Option.map_eq_some_iff.mp hfound
  have hcd : (cmdCd ⟨0, zero, zero⟩ (cstr winding) 0 hostShell).toOption.map (fun done => (done.1, textOf done.2.dir)) =
      some (none, [47, 109, 110, 116, 47, 98]) := by decide +kernel
  obtain ⟨⟨message, s'⟩, hrun, hdone⟩ := eq_ok_of_toOption hcd
  obtain ⟨rfl, hdir⟩ := Prod.mk.inj hdone
  obtain ⟨message, s'', hrun', -, -, hfaithful⟩ := cmdCd_faithful (hgood.machine hmount) hmount
    (fun _ hmark => host_not_link hmark) host_dotsOk ⟨0, zero, zero⟩ (cstr winding) 0 hpath (by rw [htext]; decide)
  rw [hrun] at hrun'
  cases hrun'
  obtain ⟨hworking, place, hnew, hold⟩ := hfaithful rfl
  exact ⟨s', path, s₁, place, hrun, hdir, hworking, hpath, htext, hnew, hold⟩

end DeprecatOS
