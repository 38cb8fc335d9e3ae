import Mathlib.Data.List.Nodup
import Mathlib.Data.List.Perm.Subperm

/-!
# Trees of names

A directory is a node with a list of entries; an entry names a node, which is again a directory or is not. What is below
a list of entries is a finite tree when its directories can be listed, each after what is below it. The other nodes
are listed once for every name they have in the tree. A directory that occurs twice in the list has two names; a
directory below itself has no such list.
-/

namespace NameTree

variable {N E : Type}

/-- Below the entries `es` are the directories `dirs` and, name by name, the other nodes `leaves`. -/
inductive Below (kids : N → List E) (isDir : E → Prop) (target : E → N) : List E → List N → List N → Prop where
  | nil : Below kids isDir target [] [] []
  | leaf {e : E} {es : List E} {dirs leaves : List N} (hleaf : ¬ isDir e)
      (hrest : Below kids isDir target es dirs leaves) :
      Below kids isDir target (e :: es) dirs (target e :: leaves)
  | node {e : E} {es : List E} {dirs leaves dirs' leaves' : List N} (hdir : isDir e)
      (hbelow : Below kids isDir target (kids (target e)) dirs' leaves')
      (hrest : Below kids isDir target es dirs leaves) :
      Below kids isDir target (e :: es) (dirs' ++ target e :: dirs) (leaves' ++ leaves)

namespace Below

variable {kids : N → List E} {isDir : E → Prop} {target : E → N} {es : List E} {dirs leaves : List N}

theorem target_mem (hbelow : Below kids isDir target es dirs leaves) {e : E} (he : e ∈ es) (hdir : isDir e) :
    target e ∈ dirs := by
  induction hbelow with
  | nil => cases he
  | leaf hleaf _ ih =>
    obtain rfl | he := List.mem_cons.mp he
    · exact absurd hdir hleaf
    · exact ih he
  | node _ _ _ _ ih =>
    obtain rfl | he := List.mem_cons.mp he
    · exact List.mem_append_right _ List.mem_cons_self
    · exact List.mem_append_right _ (List.mem_cons_of_mem _ (ih he))

theorem closed (hbelow : Below kids isDir target es dirs leaves) {d : N} (hd : d ∈ dirs) {e : E} (he : e ∈ kids d)
    (hdir : isDir e) : target e ∈ dirs := by
  induction hbelow with
  | nil => cases hd
  | leaf _ _ ih => exact ih hd
  | node _ hbelow _ ih ih' =>
    rcases List.mem_append.mp hd with hd | hd
    · exact List.mem_append_left _ (ih hd)
    · obtain rfl | hd := List.mem_cons.mp hd
      · exact List.mem_append_left _ (hbelow.target_mem he hdir)
      · exact List.mem_append_right _ (List.mem_cons_of_mem _ (ih' hd))

/-- What holds of the directories and the leaves among the entries, and of those among the entries of every such
directory, holds of all that is below. -/
theorem forall_mem (hbelow : Below kids isDir target es dirs leaves) {P Q : N → Prop}
    (hstep : ∀ d, P d → ∀ e ∈ kids d, (isDir e → P (target e)) ∧ (¬ isDir e → Q (target e)))
    (hstart : ∀ e ∈ es, (isDir e → P (target e)) ∧ (¬ isDir e → Q (target e))) :
    (∀ d ∈ dirs, P d) ∧ ∀ n ∈ leaves, Q n := by
  induction hbelow with
  | nil => exact ⟨fun _ h => absurd h List.not_mem_nil, fun _ h => absurd h List.not_mem_nil⟩
  | leaf hleaf _ ih =>
    obtain ⟨hdirs, hleaves⟩ := ih fun e he => hstart e (List.mem_cons_of_mem _ he)
    exact ⟨hdirs, List.forall_mem_cons.mpr ⟨(hstart _ List.mem_cons_self).2 hleaf, hleaves⟩⟩
  | node hdir _ _ ih ih' =>
    have hself := (hstart _ List.mem_cons_self).1 hdir
    obtain ⟨hdirs, hleaves⟩ := ih (hstep _ hself)
    obtain ⟨hdirs', hleaves'⟩ := ih' fun e he => hstart e (List.mem_cons_of_mem _ he)
    exact ⟨List.forall_mem_append.mpr ⟨hdirs, List.forall_mem_cons.mpr ⟨hself, hdirs'⟩⟩,
      List.forall_mem_append.mpr ⟨hleaves, hleaves'⟩⟩

theorem leaves_perm [DecidablePred isDir] (hbelow : Below kids isDir target es dirs leaves) :
    leaves.Perm (((es ++ dirs.flatMap kids).filter (¬ isDir ·)).map target) := by
  induction hbelow with
  | nil => exact .refl _
  | leaf hleaf _ ih =>
    rw [List.cons_append, List.filter_cons_of_pos (by simpa using hleaf), List.map_cons]
    exact ih.cons _
  | @node e es dirs leaves dirs' leaves' hdir _ _ ih ih' =>
    rw [List.cons_append, List.filter_cons_of_neg (by simpa using hdir)]
    refine (ih.append ih').trans ?_
    rw [← List.map_append, ← List.filter_append]
    refine (List.Perm.filter _ ?_).map _
    -- what is below the first directory is listed before the other entries instead of behind them
    classical
    rw [List.flatMap_append, List.flatMap_cons, List.perm_iff_count]
    intro x
    simp only [List.count_append]
    omega

end Below

end NameTree
