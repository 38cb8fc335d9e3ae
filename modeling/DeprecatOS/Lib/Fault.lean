import Mathlib.Logic.Relation

/-!
# Programs that can fault

A program reads and changes a state and may stop in a fault (a panic, undefined behaviour) instead of
returning. `Runs prog s post` is total correctness from one state: the program returns from `s`, and
its result and final state satisfy `post`. `Keeps` and `Avoids` are about every state: a part of the
state that no run changes, and a fault that no run ends in. A run of a system is a sequence of calls that return, each
allowed in the state it is made from; an invariant that every allowed call keeps holds in every state
of every run.
-/

namespace Fault

variable {ε σ τ α β : Type}

abbrev Prog (ε σ α : Type) := StateT σ (Except ε) α

def Runs (prog : Prog ε σ α) (s : σ) (post : α → σ → Prop) : Prop :=
  ∃ a s', prog s = .ok (a, s') ∧ post a s'

def fault (e : ε) : Prog ε σ α := fun _ => .error e

def zoom (view : σ → τ) (put : τ → σ → σ) (prog : Prog ε τ α) : Prog ε σ α := fun s =>
  match prog (view s) with
  | .ok (a, t) => .ok (a, put t s)
  | .error e => .error e

theorem run_pure (a : α) (s : σ) : (pure a : Prog ε σ α) s = .ok (a, s) := rfl

theorem run_get (s : σ) : (get : Prog ε σ σ) s = .ok (s, s) := rfl

theorem run_set (s s' : σ) : (set s' : Prog ε σ PUnit) s = .ok (⟨⟩, s') := rfl

theorem run_modify (f : σ → σ) (s : σ) : (modify f : Prog ε σ PUnit) s = .ok (⟨⟩, f s) := rfl

theorem run_bind_ok {prog : Prog ε σ α} {rest : α → Prog ε σ β} {s s' : σ} {a : α}
    (hrun : prog s = .ok (a, s')) : (prog >>= rest) s = rest a s' := by
  change (prog s >>= fun p => rest p.1 p.2) = _
  rw [hrun]
  rfl

theorem run_map_ok {prog : Prog ε σ α} {f : α → β} {s s' : σ} {a : α}
    (hrun : prog s = .ok (a, s')) : (f <$> prog) s = .ok (f a, s') := by
  change (prog s >>= fun p => pure (f p.1, p.2)) = _
  rw [hrun]
  rfl

theorem run_bind_error {prog : Prog ε σ α} {rest : α → Prog ε σ β} {s : σ} {e : ε}
    (hrun : prog s = .error e) : (prog >>= rest) s = .error e := by
  change (prog s >>= fun p => rest p.1 p.2) = _
  rw [hrun]
  rfl

theorem run_map_error {prog : Prog ε σ α} {f : α → β} {s : σ} {e : ε} (hrun : prog s = .error e) :
    (f <$> prog) s = .error e := by
  change (prog s >>= fun p => pure (f p.1, p.2)) = _
  rw [hrun]
  rfl

theorem run_mapM_read {f : α → Prog ε σ β} {g : α → β} {s : σ} {l : List α}
    (hread : ∀ a ∈ l, f a s = .ok (g a, s)) : l.mapM f s = .ok (l.map g, s) := by
  induction l with
  | nil => rfl
  | cons a l ih =>
    rw [List.mapM_cons, run_bind_ok (hread a List.mem_cons_self),
      run_bind_ok (ih fun b hb => hread b (List.mem_cons_of_mem _ hb))]
    rfl

theorem run_bind_eq_ok {prog : Prog ε σ α} {rest : α → Prog ε σ β} {s s' : σ} {b : β}
    (hrun : (prog >>= rest) s = .ok (b, s')) :
    ∃ a mid, prog s = .ok (a, mid) ∧ rest a mid = .ok (b, s') := by
  cases hprog : prog s with
  | error e =>
    change (prog s >>= fun p => rest p.1 p.2) = _ at hrun
    rw [hprog] at hrun
    cases hrun
  | ok result =>
    obtain ⟨a, mid⟩ := result
    rw [run_bind_ok hprog] at hrun
    exact ⟨a, mid, rfl, hrun⟩

theorem run_bind_ne_error {prog : Prog ε σ α} {rest : α → Prog ε σ β} {s : σ} {e : ε} (hprog : prog s ≠ .error e)
    (hrest : ∀ a mid, prog s = .ok (a, mid) → rest a mid ≠ .error e) : (prog >>= rest) s ≠ .error e := by
  cases hfirst : prog s with
  | error stop =>
    rw [run_bind_error hfirst]
    intro heq
    cases heq
    exact hprog hfirst
  | ok result =>
    rw [run_bind_ok hfirst]
    exact hrest result.1 result.2 hfirst

theorem run_pure_ne_error (a : α) (s : σ) {e : ε} : (pure a : Prog ε σ α) s ≠ .error e := by
  intro heq
  cases heq

theorem run_zoom_ne_error {prog : Prog ε τ α} {view : σ → τ} {put : τ → σ → σ} {s : σ} {e : ε}
    (hprog : prog (view s) ≠ .error e) : zoom view put prog s ≠ .error e := by
  intro heq
  rw [zoom] at heq
  split at heq
  · cases heq
  · next hstop =>
    cases heq
    exact hprog hstop

theorem eq_ok_of_toOption {x : Except ε α} {f : α → β} {b : β} (hmap : x.toOption.map f = some b) :
    ∃ a, x = .ok a ∧ f a = b := by
  cases x with
  | error e => cases hmap
  | ok a => exact ⟨a, rfl, Option.some.inj hmap⟩

/-- Two programs that start alike are equal from a state if they are from wherever the start leads. -/
theorem run_bind_congr {prog : Prog ε σ α} {rest rest' : α → Prog ε σ β} {s : σ}
    (hrest : ∀ a mid, prog s = .ok (a, mid) → rest a mid = rest' a mid) :
    (prog >>= rest) s = (prog >>= rest') s := by
  change (prog s >>= fun p => rest p.1 p.2) = (prog s >>= fun p => rest' p.1 p.2)
  cases hprog : prog s with
  | error e => rfl
  | ok result => exact hrest result.1 result.2 hprog

theorem run_bind_congr_left {prog prog' : Prog ε σ α} {rest : α → Prog ε σ β} {s : σ}
    (hprog : prog s = prog' s) : (prog >>= rest) s = (prog' >>= rest) s := by
  change (prog s >>= fun p => rest p.1 p.2) = (prog' s >>= fun p => rest p.1 p.2)
  rw [hprog]

theorem run_zoom_congr {prog prog' : Prog ε τ α} {view : σ → τ} {put : τ → σ → σ} {s : σ}
    (hprog : prog (view s) = prog' (view s)) : zoom view put prog s = zoom view put prog' s := by
  rw [zoom, zoom, hprog]

/-- From related states both programs fault alike, or both return the same and lead to related states. -/
def Simulates (rel : σ → τ → Prop) (prog : Prog ε σ α) (prog' : Prog ε τ α) : Prop :=
  ∀ s t, rel s t → (∃ e, prog s = .error e ∧ prog' t = .error e) ∨
    ∃ a s' t', prog s = .ok (a, s') ∧ prog' t = .ok (a, t') ∧ rel s' t'

namespace Simulates

variable {rel : σ → τ → Prop}

theorem pure (a : α) : Simulates rel (Pure.pure a : Prog ε σ α) (Pure.pure a) :=
  fun s t hrel => .inr ⟨a, s, t, rfl, rfl, hrel⟩

theorem bind {prog : Prog ε σ α} {prog' : Prog ε τ α} {rest : α → Prog ε σ β} {rest' : α → Prog ε τ β}
    (hprog : Simulates rel prog prog') (hrest : ∀ a, Simulates rel (rest a) (rest' a)) :
    Simulates rel (prog >>= rest) (prog' >>= rest') := by
  intro s t hrel
  obtain ⟨e, herr, herr'⟩ | ⟨a, s', t', hrun, hrun', hrel'⟩ := hprog s t hrel
  · exact .inl ⟨e, run_bind_error herr, run_bind_error herr'⟩
  · rw [run_bind_ok hrun, run_bind_ok hrun']
    exact hrest a s' t' hrel'

theorem mapM {f : α → Prog ε σ β} {f' : α → Prog ε τ β} (hsim : ∀ a, Simulates rel (f a) (f' a)) (l : List α) :
    Simulates rel (l.mapM f) (l.mapM f') := by
  induction l with
  | nil => exact pure []
  | cons a l ih =>
    rw [List.mapM_cons, List.mapM_cons]
    exact (hsim a).bind fun b => ih.bind fun bs => pure (b :: bs)

theorem answers {prog : Prog ε σ α} {prog' : Prog ε τ α} (hsim : Simulates rel prog prog') {s : σ} {t : τ}
    (hrel : rel s t) : (prog s).map Prod.fst = (prog' t).map Prod.fst := by
  obtain ⟨e, herr, herr'⟩ | ⟨a, s', t', hrun, hrun', -⟩ := hsim s t hrel
  · rw [herr, herr']
    rfl
  · rw [hrun, hrun']
    rfl

end Simulates

namespace Runs

variable {s s' : σ} {post mid : α → σ → Prop} {goal : β → σ → Prop}

theorem of_eq {prog : Prog ε σ α} {a : α} (hrun : prog s = .ok (a, s')) (hpost : post a s') :
    Runs prog s post :=
  ⟨a, s', hrun, hpost⟩

theorem pure {a : α} (hpost : post a s) : Runs (Pure.pure a : Prog ε σ α) s post :=
  ⟨a, s, rfl, hpost⟩

theorem mono {prog : Prog ε σ α} (hrun : Runs prog s mid) (himp : ∀ a s', mid a s' → post a s') :
    Runs prog s post := by
  obtain ⟨a, s', heq, hmid⟩ := hrun
  exact ⟨a, s', heq, himp a s' hmid⟩

theorem with_run {prog : Prog ε σ α} (hruns : Runs prog s post) :
    Runs prog s fun a s' => prog s = .ok (a, s') ∧ post a s' := by
  obtain ⟨a, s', hrun, hpost⟩ := hruns
  exact ⟨a, s', hrun, hrun, hpost⟩

theorem of_prog_eq {prog prog' : Prog ε σ α} (heq : prog s = prog' s) (hrun : Runs prog' s post) :
    Runs prog s post := by
  obtain ⟨a, s', hrun, hpost⟩ := hrun
  exact ⟨a, s', heq.trans hrun, hpost⟩

theorem bind {prog : Prog ε σ α} {rest : α → Prog ε σ β} (hfirst : Runs prog s mid)
    (hrest : ∀ a s', mid a s' → Runs (rest a) s' goal) : Runs (prog >>= rest) s goal := by
  obtain ⟨a, s', heq, hmid⟩ := hfirst
  obtain ⟨b, s'', heq', hgoal⟩ := hrest a s' hmid
  exact ⟨b, s'', by rw [run_bind_ok heq, heq'], hgoal⟩

theorem bind_eq {prog : Prog ε σ α} {rest : α → Prog ε σ β} {a : α}
    (hfirst : prog s = .ok (a, s')) (hrest : Runs (rest a) s' goal) :
    Runs (prog >>= rest) s goal := by
  obtain ⟨b, s'', heq, hgoal⟩ := hrest
  exact ⟨b, s'', by rw [run_bind_ok hfirst, heq], hgoal⟩

theorem zoom {prog : Prog ε τ α} {view : σ → τ} {put : τ → σ → σ} {part : α → τ → Prop}
    (hrun : Runs prog (view s) part) :
    Runs (Fault.zoom view put prog) s fun a s' => ∃ t, s' = put t s ∧ part a t := by
  obtain ⟨a, t, heq, hpart⟩ := hrun
  refine ⟨a, put t s, ?_, t, rfl, hpart⟩
  rw [Fault.zoom, heq]

theorem of_run {prog : Prog ε σ α} {a : α} (hruns : Runs prog s post) (hrun : prog s = .ok (a, s')) :
    post a s' := by
  obtain ⟨b, s'', heq, hpost⟩ := hruns
  rw [hrun, Except.ok.injEq, Prod.mk.injEq] at heq
  rw [heq.1, heq.2]
  exact hpost

end Runs

/-- No run of the program changes this part of the state. -/
def Keeps (part : σ → τ) (prog : Prog ε σ α) : Prop :=
  ∀ s a s', prog s = .ok (a, s') → part s' = part s

namespace Keeps

variable {part : σ → τ}

theorem pure (a : α) : Keeps part (Pure.pure a : Prog ε σ α) := by
  intro s b s' hrun
  cases hrun
  rfl

theorem get : Keeps part (MonadState.get : Prog ε σ σ) := by
  intro s b s' hrun
  cases hrun
  rfl

theorem fault (e : ε) : Keeps part (Fault.fault e : Prog ε σ α) := by
  intro s b s' hrun
  cases hrun

theorem bind {prog : Prog ε σ α} {rest : α → Prog ε σ β} (hprog : Keeps part prog)
    (hrest : ∀ a, Keeps part (rest a)) : Keeps part (prog >>= rest) := by
  intro s b s' hrun
  obtain ⟨a, mid, hfirst, hnext⟩ := run_bind_eq_ok hrun
  rw [hrest a _ _ _ hnext, hprog _ _ _ hfirst]

theorem ite {c : Prop} [Decidable c] {prog prog' : Prog ε σ α} (hprog : Keeps part prog)
    (hprog' : Keeps part prog') : Keeps part (if c then prog else prog') := by
  split
  · exact hprog
  · exact hprog'

theorem get_bind {rest : σ → Prog ε σ β}
    (hrest : ∀ s a s', rest s s = .ok (a, s') → part s' = part s) :
    Keeps part (MonadState.get >>= rest : Prog ε σ β) := by
  intro s b s' hrun
  obtain ⟨a, mid, hget, hnext⟩ := run_bind_eq_ok hrun
  cases hget
  exact hrest s b s' hnext

theorem get_set_bind {change : σ → σ} {rest : σ → Prog ε σ β} (hchange : ∀ s, part (change s) = part s)
    (hrest : ∀ s, Keeps part (rest s)) :
    Keeps part (MonadState.get >>= fun s => set (change s) >>= fun _ => rest s : Prog ε σ β) := by
  refine get_bind fun s a s' hrun => ?_
  obtain ⟨u, mid, hset, hnext⟩ := run_bind_eq_ok hrun
  cases hset
  rw [hrest s _ _ _ hnext, hchange]

end Keeps

/-- The program keeps a part of the state and, when that part is `good` and meets the condition `p`, does not stop
with `e`. -/
structure Avoids (e : ε) (part : σ → τ) (good p : τ → Prop) (prog : Prog ε σ α) : Prop where
  keeps : Keeps part prog
  avoids : ∀ s, good (part s) → p (part s) → prog s ≠ .error e

namespace Avoids

variable {e : ε} {part : σ → τ} {good p : τ → Prop}

theorem mono {q : τ → Prop} {prog : Prog ε σ α} (hprog : Avoids e part good p prog) (himp : ∀ t, q t → p t) :
    Avoids e part good q prog :=
  ⟨hprog.keeps, fun s hgood hq => hprog.avoids s hgood (himp _ hq)⟩

theorem pure (a : α) : Avoids e part good p (Pure.pure a) :=
  ⟨.pure a, fun _ _ _ hrun => by cases hrun⟩

theorem get : Avoids e part good p MonadState.get :=
  ⟨.get, fun _ _ _ hrun => by cases hrun⟩

theorem fault {stop : ε} (hne : ∀ t, p t → stop ≠ e) : Avoids e part good p (Fault.fault stop : Prog ε σ α) :=
  ⟨.fault stop, fun _ _ hp hrun => hne _ hp (Except.error.inj hrun)⟩

theorem bind_run {prog : Prog ε σ α} {rest : α → Prog ε σ β} (hprog : Avoids e part good p prog)
    (hrest : ∀ a s s', prog s = .ok (a, s') → Avoids e part good p (rest a)) :
    Avoids e part good p (prog >>= rest) where
  keeps s b s' hrun := by
    obtain ⟨a, mid, hfirst, hnext⟩ := run_bind_eq_ok hrun
    rw [(hrest a s mid hfirst).keeps _ _ _ hnext, hprog.keeps _ _ _ hfirst]
  avoids s hgood hp := by
    refine run_bind_ne_error (hprog.avoids s hgood hp) fun a mid hfirst => ?_
    have hpart := hprog.keeps _ _ _ hfirst
    exact (hrest a s mid hfirst).avoids mid (by rwa [hpart]) (by rwa [hpart])

theorem bind {prog : Prog ε σ α} {rest : α → Prog ε σ β} (hprog : Avoids e part good p prog)
    (hrest : ∀ a, Avoids e part good p (rest a)) : Avoids e part good p (prog >>= rest) :=
  hprog.bind_run fun a _ _ _ => hrest a

theorem ite_of {c : Prop} [Decidable c] {prog prog' : Prog ε σ α} (hprog : Avoids e part good (fun t => p t ∧ c) prog)
    (hprog' : Avoids e part good (fun t => p t ∧ ¬ c) prog') : Avoids e part good p (if c then prog else prog') := by
  split
  · next hc => exact hprog.mono fun t hp => ⟨hp, hc⟩
  · next hc => exact hprog'.mono fun t hp => ⟨hp, hc⟩

theorem ite {c : Prop} [Decidable c] {prog prog' : Prog ε σ α} (hprog : Avoids e part good p prog)
    (hprog' : Avoids e part good p prog') : Avoids e part good p (if c then prog else prog') :=
  ite_of (hprog.mono fun _ => And.left) (hprog'.mono fun _ => And.left)

/-- The test in front of a step that would stop with `e`. -/
theorem guard {c : Prop} [Decidable c] {prog : Prog ε σ α} (hc : ∀ t, p t → ¬ c) (hprog : Avoids e part good p prog) :
    Avoids e part good p (if c then Fault.fault e else prog) :=
  ite_of (.fault fun t hp => absurd hp.2 (hc t hp.1)) (hprog.mono fun _ => And.left)

theorem get_bind {rest : σ → Prog ε σ β}
    (hrest : ∀ s, Avoids e part good (fun t => p t ∧ t = part s ∧ good (part s)) (rest s)) :
    Avoids e part good p (MonadState.get >>= rest) where
  keeps := .get_bind fun s a s' hrun => (hrest s).keeps s a s' hrun
  avoids s hgood hp hrun := (hrest s).avoids s hgood ⟨hp, rfl, hgood⟩ hrun

theorem get_set_bind {change : σ → σ} {rest : σ → Prog ε σ β} (hchange : ∀ s, part (change s) = part s)
    (hrest : ∀ s, Avoids e part good p (rest s)) :
    Avoids e part good p (MonadState.get >>= fun s => set (change s) >>= fun _ => rest s) where
  keeps := .get_set_bind hchange fun s => (hrest s).keeps
  avoids s hgood hp hrun := (hrest s).avoids (change s) (by rwa [hchange]) (by rwa [hchange]) hrun

theorem forM {ι : Type} {xs : List ι} {body : ι → Prog ε σ PUnit} (hbody : ∀ i, Avoids e part good p (body i)) :
    Avoids e part good p (xs.forM body) := by
  induction xs with
  | nil => exact .pure _
  | cons i xs ih => exact .bind (hbody i) fun _ => ih

end Avoids

/-- From `s` the program leaves the state alone: it returns a result with `post`, or stops, but not with `e`. -/
def Peeks (e : ε) (prog : Prog ε σ α) (s : σ) (post : α → Prop) : Prop :=
  prog s ≠ .error e ∧ ∀ a s', prog s = .ok (a, s') → s' = s ∧ post a

namespace Peeks

variable {e : ε} {s : σ} {mid post : α → Prop}

theorem pure {a : α} (hpost : post a) : Peeks e (Pure.pure a : Prog ε σ α) s post := by
  refine ⟨fun hrun => (by cases hrun), fun b s' hrun => ?_⟩
  cases hrun
  exact ⟨rfl, hpost⟩

theorem bind {prog : Prog ε σ α} {rest : α → Prog ε σ β} {last : β → Prop} (hprog : Peeks e prog s mid)
    (hrest : ∀ a, mid a → Peeks e (rest a) s last) : Peeks e (prog >>= rest) s last := by
  refine ⟨run_bind_ne_error hprog.1 fun a s' hfirst => ?_, fun b s' hrun => ?_⟩
  · obtain ⟨rfl, hmid⟩ := hprog.2 a s' hfirst
    exact (hrest a hmid).1
  · obtain ⟨a, s₁, hfirst, hnext⟩ := run_bind_eq_ok hrun
    obtain ⟨rfl, hmid⟩ := hprog.2 a s₁ hfirst
    exact (hrest a hmid).2 b s' hnext

theorem get_bind {rest : σ → Prog ε σ α} (hrest : Peeks e (rest s) s post) : Peeks e (MonadState.get >>= rest) s post :=
  hrest

theorem zoom {prog : Prog ε τ α} {view : σ → τ} {put : τ → σ → σ} (hput : put (view s) s = s)
    (hprog : Peeks e prog (view s) post) : Peeks e (Fault.zoom view put prog) s post := by
  refine ⟨run_zoom_ne_error hprog.1, fun a s' hrun => ?_⟩
  rw [Fault.zoom] at hrun
  split at hrun
  · next b t hok =>
    cases hrun
    obtain ⟨rfl, hpost⟩ := hprog.2 _ _ hok
    exact ⟨hput, hpost⟩
  · cases hrun

end Peeks

section Systems

variable {Op : Type} (allowed : σ → Op → Prop) (exec : Op → Prog ε σ α)

def Step (s s' : σ) : Prop := ∃ op a, allowed s op ∧ exec op s = .ok (a, s')

/-- `s'` is reached from `s` by allowed calls that return. -/
def Reach : σ → σ → Prop := Relation.ReflTransGen (Step allowed exec)

variable {allowed exec} {s s' : σ}

theorem Reach.invariant_of_run {motive : σ → Prop} (hreach : Reach allowed exec s s') (hinit : motive s)
    (hstep : ∀ s op a s', motive s → allowed s op → exec op s = .ok (a, s') → motive s') :
    motive s' := by
  induction hreach with
  | refl => exact hinit
  | tail _ hlast ih =>
    obtain ⟨op, a, hallowed, hrun⟩ := hlast
    exact hstep _ op a _ ih hallowed hrun

theorem Reach.invariant {motive : σ → Prop} (hreach : Reach allowed exec s s') (hinit : motive s)
    (hstep : ∀ s op, motive s → allowed s op → Runs (exec op) s fun _ s' => motive s') :
    motive s' :=
  hreach.invariant_of_run hinit fun s op _ _ hinv hallowed hrun => (hstep s op hinv hallowed).of_run hrun

/-- The calls of a list, one after the other. -/
def execAll (exec : Op → Prog ε σ α) : List Op → Prog ε σ Unit
  | [] => pure ()
  | op :: ops => do
    let _ ← exec op
    execAll exec ops

theorem Reach.of_execAll {ops : List Op} {done : Unit} (hallowed : ∀ op ∈ ops, ∀ s, allowed s op)
    (hrun : execAll exec ops s = .ok (done, s')) : Reach allowed exec s s' := by
  induction ops generalizing s with
  | nil =>
    cases hrun
    exact .refl
  | cons op ops ih =>
    obtain ⟨a, mid, hfirst, hrest⟩ := run_bind_eq_ok hrun
    exact .head ⟨op, a, hallowed op List.mem_cons_self s, hfirst⟩
      (ih (fun op' hop' => hallowed op' (List.mem_cons_of_mem op hop')) hrest)

end Systems

end Fault
