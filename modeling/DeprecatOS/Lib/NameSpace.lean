import Mathlib.Data.List.Basic
import Mathlib.Tactic.SplitIfs

/-!
# Name spaces with symbolic links

A name space has a root, directories that assign places to names, and links, which stand for a text. A text is cut
into components at a separator, and is walked component by component; empty components are skipped. At a link the walk
goes on with the components of its target before those that are left, from where it is or from the root.

Starting over at the root, with the components before the link that were walked already, leads to the same place.
-/

namespace NameSpace

variable {α β χ : Type} [DecidableEq χ]

structure Space (α χ : Type) where
  root : α
  child : α → List χ → Option α
  link : α → Option (List χ)

/-- How far a walk comes without following a link. -/
inductive Hop (α χ : Type) where
  | failed
  | found (place : α)
  | link (dir : α) (before after : List (List χ))

/-- The walk from a place over the components `comps`, when those in `before` were walked already. The last component
is a link that is followed only if `follow` is set. -/
def Space.walk (s : Space α χ) (sep : χ) (follow : Bool) : α → List (List χ) → List (List χ) → Hop α χ
  | place, _, [] => .found place
  | place, before, c :: rest =>
    if c = [] then s.walk sep follow place (before ++ [c]) rest
    else
      match s.child place c with
      | none => .failed
      | some next =>
        if rest = [] ∧ follow = false then .found next
        else
          match s.link next with
          | none => s.walk sep follow next (before ++ [c]) rest
          | some target =>
            if target.head? = some sep then .link s.root [] (target.splitOn sep ++ rest)
            else .link place before (target.splitOn sep ++ rest)

/-- The place that the components lead to when at most `budget` links are followed. -/
def Space.resolve (s : Space α χ) (sep : χ) (follow : Bool) :
    Nat → α → List (List χ) → List (List χ) → Option α
  | 0, place, before, comps =>
    match s.walk sep follow place before comps with
    | .found place => some place
    | _ => none
  | budget + 1, place, before, comps =>
    match s.walk sep follow place before comps with
    | .failed => none
    | .found place => some place
    | .link dir before rest => s.resolve sep follow budget dir before rest

/-- The texts that take the place of the first one as links are followed. -/
def Space.texts (s : Space α χ) (sep : χ) (follow : Bool) :
    Nat → α → List (List χ) → List (List χ) → List (List χ)
  | 0, _, _, _ => []
  | budget + 1, place, before, comps =>
    match s.walk sep follow place before comps with
    | .link dir before rest =>
      [sep].intercalate (before ++ rest) :: s.texts sep follow budget dir before rest
    | _ => []

/-- The place that the components lead to when also no text may have `limit` characters. -/
def Space.resolveWithin (s : Space α χ) (sep : χ) (follow : Bool) (limit : Nat) :
    Nat → α → List (List χ) → List (List χ) → Option α
  | 0, place, before, comps =>
    match s.walk sep follow place before comps with
    | .found place => some place
    | _ => none
  | budget + 1, place, before, comps =>
    match s.walk sep follow place before comps with
    | .failed => none
    | .found place => some place
    | .link dir before rest =>
      if ([sep].intercalate (before ++ rest)).length < limit then s.resolveWithin sep follow limit budget dir before rest
      else none

/-! ### Starting over -/

section Restart

variable {s : Space α χ} {sep : χ} {follow : Bool} {place next dir : α} {c : List χ}
  {before before' comps rest : List (List χ)}

/-- From the root, the components `before` lead to `place` without a link. -/
def Space.Reaches (s : Space α χ) (sep : χ) (follow : Bool) (before : List (List χ)) (place : α) : Prop :=
  ∀ comps ≠ [], s.walk sep follow s.root [] (before ++ comps) = s.walk sep follow place before comps

theorem Space.walk_empty : s.walk sep follow place before ([] :: rest) =
    s.walk sep follow place (before ++ [[]]) rest := if_pos rfl

theorem Space.walk_child (hc : c ≠ []) (hchild : s.child place c = some next)
    (hmore : ¬ (rest = [] ∧ follow = false)) (hlink : s.link next = none) :
    s.walk sep follow place before (c :: rest) = s.walk sep follow next (before ++ [c]) rest := by
  rw [Space.walk, if_neg hc]
  simp only [hchild, hlink]
  rw [if_neg hmore]

theorem Space.reaches_root : s.Reaches sep follow [] s.root := fun _ _ => rfl

theorem Space.Reaches.snoc_empty (hreaches : s.Reaches sep follow before place) :
    s.Reaches sep follow (before ++ [[]]) place := by
  intro comps _
  rw [List.append_assoc, List.singleton_append, hreaches _ (List.cons_ne_nil _ _), Space.walk_empty]

theorem Space.Reaches.snoc (hreaches : s.Reaches sep follow before place) (hc : c ≠ [])
    (hchild : s.child place c = some next) (hlink : s.link next = none) :
    s.Reaches sep follow (before ++ [c]) next := by
  intro comps hcomps
  rw [List.append_assoc, List.singleton_append, hreaches _ (List.cons_ne_nil _ _),
    Space.walk_child hc hchild (fun h => hcomps h.1) hlink]

theorem Space.Reaches.of_link (hreaches : s.Reaches sep follow before place)
    (hstop : s.walk sep follow place before comps = .link dir before' rest) :
    s.Reaches sep follow before' dir ∧ rest ≠ [] := by
  induction comps generalizing place before with
  | nil => cases hstop
  | cons c comps ih =>
    by_cases hc : c = []
    · subst hc
      rw [Space.walk_empty] at hstop
      exact ih hreaches.snoc_empty hstop
    rw [Space.walk, if_neg hc] at hstop
    cases hchild : s.child place c with
    | none => simp [hchild] at hstop
    | some next =>
      simp only [hchild] at hstop
      split_ifs at hstop with hleaf
      cases hlink : s.link next with
      | none =>
        simp only [hlink] at hstop
        exact ih (hreaches.snoc hc hchild hlink) hstop
      | some target =>
        simp only [hlink] at hstop
        have hne : target.splitOn sep ++ comps ≠ [] :=
          List.append_ne_nil_of_left_ne_nil (List.splitOn_ne_nil sep target) comps
        split_ifs at hstop with habsolute
        · cases hstop
          exact ⟨Space.reaches_root, hne⟩
        · cases hstop
          exact ⟨hreaches, hne⟩

end Restart

/-! ### Limits on the texts -/

section Within

variable {s : Space α χ} {sep : χ} {follow : Bool} {limit budget : Nat} {place place' next : α}
  {before before' comps comps' : List (List χ)}

theorem Space.resolveWithin_found (hwalk : s.walk sep follow place before comps = .found next) :
    s.resolveWithin sep follow limit budget place before comps = some next := by
  cases budget with
  | zero => rw [Space.resolveWithin, hwalk]
  | succ budget => rw [Space.resolveWithin, hwalk]

theorem Space.resolveWithin_eq (hshort : ∀ text ∈ s.texts sep follow budget place before comps, text.length < limit) :
    s.resolveWithin sep follow limit budget place before comps = s.resolve sep follow budget place before comps := by
  induction budget generalizing place before comps with
  | zero => rfl
  | succ budget ih =>
    rw [Space.resolveWithin, Space.resolve]
    rw [Space.texts] at hshort
    cases hwalk : s.walk sep follow place before comps with
    | failed => rfl
    | found next => rfl
    | link dir before' rest =>
      rw [hwalk] at hshort
      dsimp only
      rw [if_pos (hshort _ List.mem_cons_self)]
      exact ih fun text htext => hshort text (List.mem_cons_of_mem _ htext)

theorem Space.resolve_of_resolveWithin (hfound : s.resolveWithin sep follow limit budget place before comps = some next) :
    s.resolve sep follow budget place before comps = some next := by
  induction budget generalizing place before comps with
  | zero => exact hfound
  | succ budget ih =>
    rw [Space.resolveWithin] at hfound
    rw [Space.resolve]
    cases hwalk : s.walk sep follow place before comps with
    | failed => rwa [hwalk] at hfound
    | found next => rwa [hwalk] at hfound
    | link dir before' rest =>
      rw [hwalk] at hfound
      dsimp only at hfound ⊢
      split_ifs at hfound with hlong
      exact ih hfound

end Within

/-! ### Texts -/

section Texts

variable (sep : χ)

omit [DecidableEq χ] in
theorem intercalate_cons (c : List χ) (rest : List (List χ)) :
    [sep].intercalate (c :: rest) = c ++ rest.flatMap (sep :: ·) := by
  induction rest generalizing c with
  | nil => simp
  | cons d rest ih =>
    rw [List.intercalate_cons_cons, ih, List.flatMap_cons]
    simp

omit [DecidableEq χ] in
theorem intercalate_append (before : List (List χ)) {comps : List (List χ)} (hcomps : comps ≠ []) :
    [sep].intercalate (before ++ comps) = before.flatMap (· ++ [sep]) ++ [sep].intercalate comps := by
  induction before with
  | nil => rfl
  | cons b before ih =>
    rw [List.flatMap_cons, List.append_assoc, ← ih, List.cons_append,
      List.intercalate_cons_of_ne_nil (List.append_ne_nil_of_right_ne_nil before hcomps)]

theorem intercalate_splitOn_append (text : List χ) (rest : List (List χ)) :
    [sep].intercalate (text.splitOn sep ++ rest) = text ++ rest.flatMap (sep :: ·) := by
  obtain ⟨c, comps, hsplit⟩ := List.exists_cons_of_ne_nil (List.splitOn_ne_nil sep text)
  have htext : [sep].intercalate (text.splitOn sep) = text := List.intercalate_splitOn sep
  rw [hsplit, intercalate_cons] at htext
  rw [hsplit, List.cons_append, intercalate_cons, List.flatMap_append, ← List.append_assoc, htext]

theorem notMem_of_mem_splitOn {text c : List χ} (hc : c ∈ text.splitOn sep) : sep ∉ c := by
  induction text generalizing c with
  | nil =>
    rw [List.splitOn_nil, List.mem_singleton] at hc
    rw [hc]
    exact List.not_mem_nil
  | cons x text ih =>
    rw [List.splitOn_cons_eq_if_modifyHead] at hc
    split_ifs at hc with hx
    · rcases List.mem_cons.mp hc with rfl | hc
      · exact List.not_mem_nil
      · exact ih hc
    · cases hsplit : text.splitOn sep with
      | nil => exact absurd hsplit (List.splitOn_ne_nil _ _)
      | cons c' rest =>
        rw [hsplit, List.modifyHead_cons] at hc
        rw [hsplit] at ih
        rcases List.mem_cons.mp hc with rfl | hc
        · rw [List.mem_cons, not_or]
          exact ⟨fun heq => hx (by simp [heq]), ih List.mem_cons_self⟩
        · exact ih (List.mem_cons_of_mem c' hc)

end Texts

/-! ### Valid places, and images of a name space -/

def Hop.map (f : α → β) : Hop α χ → Hop β χ
  | .failed => .failed
  | .found place => .found (f place)
  | .link dir before after => .link (f dir) before after

section Image

variable {s : Space α χ} {s' : Space β χ} {f : α → β} {Valid : α → Prop} {sep : χ} (hroot : s'.root = f s.root)
  (hchild : ∀ place c, Valid place → sep ∉ c → s'.child (f place) c = (s.child place c).map f)
  (hlink : ∀ place, Valid place → s'.link (f place) = s.link place)
  (hvalidRoot : Valid s.root)
  (hvalidChild : ∀ place c next, Valid place → sep ∉ c → s.child place c = some next → Valid next)

include hvalidRoot hvalidChild in
theorem Space.walk_valid {follow : Bool} {place dir : α} {before comps before' rest : List (List χ)}
    (hplace : Valid place) (hsep : ∀ c ∈ comps, sep ∉ c)
    (hstop : s.walk sep follow place before comps = .link dir before' rest) : Valid dir ∧ ∀ c ∈ rest, sep ∉ c := by
  induction comps generalizing place before with
  | nil => cases hstop
  | cons c comps ih =>
    have hseps := List.forall_mem_cons.mp hsep
    by_cases hc : c = []
    · rw [Space.walk, if_pos hc] at hstop
      exact ih hplace hseps.2 hstop
    rw [Space.walk, if_neg hc] at hstop
    cases hnext : s.child place c with
    | none => simp [hnext] at hstop
    | some next =>
      simp only [hnext] at hstop
      split_ifs at hstop with hleaf
      cases htarget : s.link next with
      | none =>
        simp only [htarget] at hstop
        exact ih (hvalidChild _ _ _ hplace hseps.1 hnext) hseps.2 hstop
      | some target =>
        simp only [htarget] at hstop
        have hrest : ∀ c ∈ target.splitOn sep ++ comps, sep ∉ c := by
          intro c hc
          rcases List.mem_append.mp hc with hc | hc
          · exact notMem_of_mem_splitOn sep hc
          · exact hseps.2 c hc
        split_ifs at hstop with habsolute
        · cases hstop
          exact ⟨hvalidRoot, hrest⟩
        · cases hstop
          exact ⟨hplace, hrest⟩

include hvalidChild in
theorem Space.walk_found_valid {follow : Bool} {place last : α} {before comps : List (List χ)} (hplace : Valid place)
    (hsep : ∀ c ∈ comps, sep ∉ c) (hwalk : s.walk sep follow place before comps = .found last) : Valid last := by
  induction comps generalizing place before with
  | nil =>
    cases hwalk
    exact hplace
  | cons c comps ih =>
    have hseps := List.forall_mem_cons.mp hsep
    by_cases hc : c = []
    · rw [Space.walk, if_pos hc] at hwalk
      exact ih hplace hseps.2 hwalk
    rw [Space.walk, if_neg hc] at hwalk
    cases hnext : s.child place c with
    | none => simp [hnext] at hwalk
    | some next =>
      have hvalid := hvalidChild _ _ _ hplace hseps.1 hnext
      simp only [hnext] at hwalk
      split_ifs at hwalk with hleaf
      · cases hwalk
        exact hvalid
      cases htarget : s.link next with
      | none =>
        simp only [htarget] at hwalk
        exact ih hvalid hseps.2 hwalk
      | some target =>
        simp only [htarget] at hwalk
        split_ifs at hwalk

include hvalidRoot hvalidChild in
theorem Space.resolve_valid {follow : Bool} {budget : Nat} {place last : α} {before comps : List (List χ)}
    (hplace : Valid place) (hsep : ∀ c ∈ comps, sep ∉ c)
    (hresolve : s.resolve sep follow budget place before comps = some last) : Valid last := by
  induction budget generalizing place before comps with
  | zero =>
    rw [Space.resolve] at hresolve
    cases hwalk : s.walk sep follow place before comps with
    | failed => simp [hwalk] at hresolve
    | link dir before' rest => simp [hwalk] at hresolve
    | found next =>
      simp only [hwalk, Option.some.injEq] at hresolve
      exact hresolve ▸ Space.walk_found_valid hvalidChild hplace hsep hwalk
  | succ budget ih =>
    rw [Space.resolve] at hresolve
    cases hwalk : s.walk sep follow place before comps with
    | failed => simp [hwalk] at hresolve
    | found next =>
      simp only [hwalk, Option.some.injEq] at hresolve
      exact hresolve ▸ Space.walk_found_valid hvalidChild hplace hsep hwalk
    | link dir before' rest =>
      simp only [hwalk] at hresolve
      obtain ⟨hdir, hrest⟩ := Space.walk_valid hvalidRoot hvalidChild hplace hsep hwalk
      exact ih hdir hrest hresolve

include hroot hchild hlink hvalidRoot hvalidChild

omit hvalidRoot in
theorem Space.walk_map (follow : Bool) {place : α} (hplace : Valid place) (before : List (List χ))
    {comps : List (List χ)} (hsep : ∀ c ∈ comps, sep ∉ c) :
    s'.walk sep follow (f place) before comps = (s.walk sep follow place before comps).map f := by
  induction comps generalizing place before with
  | nil => rfl
  | cons c comps ih =>
    have hseps := List.forall_mem_cons.mp hsep
    rw [Space.walk, Space.walk]
    by_cases hc : c = []
    · rw [if_pos hc, if_pos hc]
      exact ih hplace _ hseps.2
    rw [if_neg hc, if_neg hc, hchild place c hplace hseps.1]
    cases hnext : s.child place c with
    | none => rfl
    | some next =>
      have hvalidNext := hvalidChild _ _ _ hplace hseps.1 hnext
      simp only [Option.map_some]
      by_cases hleaf : comps = [] ∧ follow = false
      · rw [if_pos hleaf, if_pos hleaf]
        rfl
      rw [if_neg hleaf, if_neg hleaf, hlink next hvalidNext]
      cases s.link next with
      | none => exact ih hvalidNext _ hseps.2
      | some target =>
        dsimp only
        split_ifs with habsolute
        · rw [hroot]
          rfl
        · rfl

theorem Space.resolve_map (follow : Bool) (budget : Nat) {place : α} (hplace : Valid place)
    (before : List (List χ)) {comps : List (List χ)} (hsep : ∀ c ∈ comps, sep ∉ c) :
    s'.resolve sep follow budget (f place) before comps =
      (s.resolve sep follow budget place before comps).map f := by
  induction budget generalizing place before comps with
  | zero =>
    rw [Space.resolve, Space.resolve, Space.walk_map hroot hchild hlink hvalidChild follow hplace before hsep]
    cases s.walk sep follow place before comps <;> rfl
  | succ budget ih =>
    rw [Space.resolve, Space.resolve, Space.walk_map hroot hchild hlink hvalidChild follow hplace before hsep]
    cases hstop : s.walk sep follow place before comps with
    | failed => rfl
    | found next => rfl
    | link dir before' rest =>
      obtain ⟨hdir, hrest⟩ := Space.walk_valid hvalidRoot hvalidChild hplace hsep hstop
      exact ih hdir before' hrest

theorem Space.texts_map (follow : Bool) (budget : Nat) {place : α} (hplace : Valid place)
    (before : List (List χ)) {comps : List (List χ)} (hsep : ∀ c ∈ comps, sep ∉ c) :
    s'.texts sep follow budget (f place) before comps = s.texts sep follow budget place before comps := by
  induction budget generalizing place before comps with
  | zero => rfl
  | succ budget ih =>
    rw [Space.texts, Space.texts, Space.walk_map hroot hchild hlink hvalidChild follow hplace before hsep]
    cases hstop : s.walk sep follow place before comps with
    | failed => rfl
    | found next => rfl
    | link dir before' rest =>
      obtain ⟨hdir, hrest⟩ := Space.walk_valid hvalidRoot hvalidChild hplace hsep hstop
      simp only [Hop.map]
      rw [ih hdir before' hrest]

end Image

/-! ### One more name -/

theorem Space.walk_append {s : Space α χ} {sep : χ} {follow : Bool} {place last : α} {before comps rest : List (List χ)}
    (hwalk : s.walk sep true place before comps = .found last) (hrest : rest ≠ []) :
    s.walk sep follow place before (comps ++ rest) = s.walk sep follow last (before ++ comps) rest := by
  induction comps generalizing place before with
  | nil =>
    cases hwalk
    rw [List.nil_append, List.append_nil]
  | cons c comps ih =>
    have hmore : ¬ (comps ++ rest = [] ∧ follow = false) := fun h =>
      List.append_ne_nil_of_right_ne_nil comps hrest h.1
    rw [List.cons_append, List.append_cons]
    by_cases hc : c = []
    · subst hc
      rw [Space.walk_empty] at hwalk ⊢
      exact ih hwalk
    rw [Space.walk, if_neg hc] at hwalk
    cases hnext : s.child place c with
    | none => simp [hnext] at hwalk
    | some next =>
      simp only [hnext] at hwalk
      rw [if_neg (fun h => Bool.noConfusion h.2)] at hwalk
      cases htarget : s.link next with
      | none =>
        simp only [htarget] at hwalk
        rw [Space.walk_child hc hnext hmore htarget]
        exact ih hwalk
      | some target =>
        simp only [htarget] at hwalk
        split_ifs at hwalk

/-- `s'` has one name more than `s`, in the directory that is at the places `At`. -/
structure Space.Adds (s s' : Space α χ) (Valid At : α → Prop) (name : List χ) (new : α) : Prop where
  root : s'.root = s.root
  child : ∀ place c, Valid place → ¬ (At place ∧ c = name) → s'.child place c = s.child place c
  entry : ∀ place, At place → s'.child place name = some new
  absent : ∀ place, At place → s.child place name = none
  link : ∀ place, Valid place → s'.link place = s.link place
  validRoot : Valid s.root
  validChild : ∀ place c next, Valid place → s.child place c = some next → Valid next

section Adds

variable {s s' : Space α χ} {Valid At : α → Prop} {name : List χ} {new : α} (hadds : s.Adds s' Valid At name new) {sep : χ}

include hadds

theorem Space.Adds.walk_found {place last : α} {before comps : List (List χ)} (hplace : Valid place)
    (hwalk : s.walk sep true place before comps = .found last) :
    s'.walk sep true place before comps = .found last := by
  induction comps generalizing place before with
  | nil => exact hwalk
  | cons c comps ih =>
    by_cases hc : c = []
    · subst hc
      rw [Space.walk_empty] at hwalk ⊢
      exact ih hplace hwalk
    rw [Space.walk, if_neg hc] at hwalk
    cases hnext : s.child place c with
    | none => simp [hnext] at hwalk
    | some next =>
      have hold : ¬ (At place ∧ c = name) := by
        rintro ⟨hat, rfl⟩
        rw [hadds.absent place hat] at hnext
        cases hnext
      have hvalid := hadds.validChild _ _ _ hplace hnext
      simp only [hnext] at hwalk
      rw [if_neg (fun h => Bool.noConfusion h.2)] at hwalk
      cases htarget : s.link next with
      | none =>
        simp only [htarget] at hwalk
        rw [Space.walk_child hc ((hadds.child place c hplace hold).trans hnext) (fun h => Bool.noConfusion h.2)
          ((hadds.link next hvalid).trans htarget)]
        exact ih hvalid hwalk
      | some target =>
        simp only [htarget] at hwalk
        split_ifs at hwalk

theorem Space.Adds.walk_new {follow : Bool} {last : α} {comps rest : List (List χ)} (hname : name ≠ [])
    (hwalk : s.walk sep true s.root [] comps = .found last) (hat : At last) :
    s'.walk sep follow s'.root [] (comps ++ name :: rest) =
      if rest = [] ∧ follow = false then .found new
      else
        match s'.link new with
        | none => s'.walk sep follow new (comps ++ [name]) rest
        | some target =>
          if target.head? = some sep then .link s'.root [] (target.splitOn sep ++ rest)
          else .link last comps (target.splitOn sep ++ rest) := by
  rw [hadds.root, Space.walk_append (hadds.walk_found hadds.validRoot hwalk) (List.cons_ne_nil _ _), List.nil_append,
    Space.walk, if_neg hname, hadds.entry last hat, hadds.root]

end Adds

/-! ### Without links -/

/-- The walk in a name space without links. -/
def Space.descend (s : Space α χ) (place : α) (comps : List (List χ)) : Option α :=
  comps.foldlM (fun place c => if c = [] then some place else s.child place c) place

section Descend

variable {s : Space α χ} {sep : χ} {place next last : α} {c : List χ} {before comps rest : List (List χ)}

omit [DecidableEq χ] in
theorem Space.descend_cons (hc : c ≠ []) : s.descend place (c :: rest) = (s.child place c).bind (s.descend · rest) := by
  rw [Space.descend, List.foldlM_cons, if_neg hc]
  rfl

omit [DecidableEq χ] in
theorem Space.descend_append : s.descend place (comps ++ rest) = (s.descend place comps).bind (s.descend · rest) :=
  List.foldlM_append

omit [DecidableEq χ] in
theorem Space.descend_filter : s.descend place (comps.filter (· ≠ [])) = s.descend place comps := by
  induction comps generalizing place with
  | nil => rfl
  | cons c comps ih =>
    by_cases hc : c = []
    · rw [List.filter_cons_of_neg (by simp [hc]), ih, Space.descend, Space.descend, List.foldlM_cons, if_pos hc]
      rfl
    · rw [List.filter_cons_of_pos (by simp [hc]), Space.descend_cons hc, Space.descend_cons hc]
      simp only [ih]

variable {Valid : α → Prop} (hvalidChild : ∀ place c next, Valid place → s.child place c = some next → Valid next)
  (hlink : ∀ place, Valid place → s.link place = none)

include hvalidChild

omit [DecidableEq χ] in
theorem Space.descend_valid (hplace : Valid place) (hdescend : s.descend place comps = some last) : Valid last := by
  induction comps generalizing place with
  | nil =>
    obtain rfl := Option.some.inj hdescend
    exact hplace
  | cons c comps ih =>
    by_cases hc : c = []
    · rw [Space.descend, List.foldlM_cons, if_pos hc] at hdescend
      exact ih hplace hdescend
    · rw [Space.descend_cons hc] at hdescend
      obtain ⟨next, hnext, hrest⟩ := Option.bind_eq_some_iff.mp hdescend
      exact ih (hvalidChild place c next hplace hnext) hrest

include hlink

theorem Space.walk_eq_descend (follow : Bool) (hplace : Valid place) :
    s.walk sep follow place before comps = (s.descend place comps).elim .failed .found := by
  induction comps generalizing place before with
  | nil => rfl
  | cons c comps ih =>
    by_cases hc : c = []
    · rw [hc, Space.walk_empty, ih hplace, Space.descend, Space.descend, List.foldlM_cons, if_pos rfl]
      rfl
    · rw [Space.walk, if_neg hc, Space.descend_cons hc]
      cases hnext : s.child place c with
      | none => rfl
      | some next =>
        have hvalid := hvalidChild place c next hplace hnext
        dsimp only [Option.bind_some]
        rw [hlink next hvalid]
        split_ifs with hleaf
        · rw [hleaf.1]
          rfl
        · exact ih hvalid

theorem Space.resolveWithin_eq_descend (follow : Bool) (limit budget : Nat) (hplace : Valid place) :
    s.resolveWithin sep follow limit budget place before comps = s.descend place comps := by
  have hwalk : s.walk sep follow place before comps = (s.descend place comps).elim .failed .found :=
    Space.walk_eq_descend hvalidChild hlink follow hplace
  cases hdescend : s.descend place comps with
  | some last =>
    rw [hdescend] at hwalk
    exact Space.resolveWithin_found hwalk
  | none =>
    rw [hdescend] at hwalk
    cases budget with
    | zero =>
      rw [Space.resolveWithin, hwalk]
      rfl
    | succ budget =>
      rw [Space.resolveWithin, hwalk]
      rfl

end Descend

/-! ### Names for here and for the directory above -/

section Lexical

variable (here up : List χ)

/-- One component on the stack of the names that lead down from the root. -/
def pushName (stack : List (List χ)) (c : List χ) : List (List χ) :=
  if c = here then stack else if c = up then stack.dropLast else stack ++ [c]

/-- The components with each `here` left out, and each `up` together with the name before it. -/
def lexical (stack comps : List (List χ)) : List (List χ) :=
  (comps.filter (· ≠ [])).foldl (pushName here up) stack

/-- The two names lead where they should: back to the place itself, and to the place above. -/
structure Space.Tree (s : Space α χ) (Valid : α → Prop) : Prop where
  validRoot : Valid s.root
  validChild : ∀ place c next, Valid place → s.child place c = some next → Valid next
  stays : ∀ place next, Valid place → s.child place here = some next → next = place
  top : ∀ next, s.child s.root up = some next → next = s.root
  above : ∀ place name child next, Valid place → name ≠ here → name ≠ up → s.child place name = some child →
    s.child child up = some next → next = place

variable {here up} {s : Space α χ} {Valid : α → Prop} {place last : α} {stack comps : List (List χ)}

/-- A name that leads down. -/
def Downward (here up : List χ) (name : List χ) : Prop := name ≠ [] ∧ name ≠ here ∧ name ≠ up

theorem pushName_downward (hstack : ∀ name ∈ stack, Downward here up name) {c : List χ} (hc : c ≠ []) :
    ∀ name ∈ pushName here up stack c, Downward here up name := by
  intro name hname
  rw [pushName] at hname
  split_ifs at hname with hhere hup
  · exact hstack name hname
  · exact hstack name (List.dropLast_subset stack hname)
  · rcases List.mem_append.mp hname with hold | hnew
    · exact hstack name hold
    · rw [List.mem_singleton.mp hnew]
      exact ⟨hc, hhere, hup⟩

theorem Space.Tree.descend_pushName (htree : s.Tree here up Valid) (hstack : ∀ name ∈ stack, Downward here up name)
    (hplace : s.descend s.root stack = some place) {c : List χ} (hc : c ≠ []) {next : α}
    (hnext : s.child place c = some next) : s.descend s.root (pushName here up stack c) = some next := by
  have hvalid : Valid place := Space.descend_valid htree.validChild htree.validRoot hplace
  rw [pushName]
  split_ifs with hhere hup
  · rw [hhere] at hnext
    rw [hplace, htree.stays place next hvalid hnext]
  · rw [hup] at hnext
    rcases List.eq_nil_or_concat stack with rfl | ⟨names, name, rfl⟩
    · obtain rfl : s.root = place := Option.some.inj hplace
      rw [htree.top next hnext]
      exact hplace
    · -- The last name on the stack leads from the place above to this one.
      obtain ⟨hname, hhere', hup'⟩ := hstack name (by simp)
      rw [List.concat_eq_append] at hplace ⊢
      rw [Space.descend_append, Option.bind_eq_some_iff] at hplace
      obtain ⟨above, habove, hlast⟩ := hplace
      rw [Space.descend_cons hname] at hlast
      obtain ⟨place', hplace', hsame⟩ := Option.bind_eq_some_iff.mp hlast
      obtain rfl : place' = place := Option.some.inj hsame
      have hvalidAbove : Valid above := Space.descend_valid htree.validChild htree.validRoot habove
      rw [List.dropLast_concat, habove, htree.above above name place' next hvalidAbove hhere' hup' hplace' hnext]
  · rw [Space.descend_append, hplace, Option.bind_some, Space.descend_cons hc, hnext]
    rfl

theorem Space.Tree.descend_lexical (htree : s.Tree here up Valid) (hstack : ∀ name ∈ stack, Downward here up name)
    (hplace : s.descend s.root stack = some place) (hlast : s.descend place comps = some last) :
    (∀ name ∈ lexical here up stack comps, Downward here up name) ∧
      s.descend s.root (lexical here up stack comps) = some last := by
  rw [← Space.descend_filter] at hlast
  have hne : ∀ c ∈ comps.filter (· ≠ []), c ≠ [] := fun c hc => by simpa using (List.mem_filter.mp hc).2
  rw [lexical]
  generalize comps.filter (· ≠ []) = comps at hlast hne
  induction comps generalizing place stack with
  | nil =>
    obtain rfl : place = last := Option.some.inj hlast
    exact ⟨hstack, hplace⟩
  | cons c comps ih =>
    obtain ⟨hc, hrest⟩ := List.forall_mem_cons.mp hne
    rw [Space.descend_cons hc] at hlast
    obtain ⟨next, hnext, hlast⟩ := Option.bind_eq_some_iff.mp hlast
    exact ih (pushName_downward hstack hc) (htree.descend_pushName hstack hplace hc hnext) hlast hrest

end Lexical

end NameSpace
