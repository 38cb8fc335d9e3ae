import Mathlib.Data.List.Basic

/-!
# Tilings

A region is cut into records of positive length that follow one another without a gap: blocks of a
heap, entries of a directory block. The length of a record is read at its start. A tiling is known by
the list of the starts, and an edit replaces a stretch of the list by another one of the same extent.
-/

namespace Tiling

variable {len len' : Nat → Nat} {start stop mid a b p q : Nat} {xs ys zs ps : List Nat}

/-- The records at `ps`, in order, cover `[start, stop)`. -/
def Tiles (len : Nat → Nat) : Nat → List Nat → Nat → Prop
  | start, [], stop => start = stop
  | start, p :: ps, stop => p = start ∧ 0 < len p ∧ Tiles len (p + len p) ps stop

instance decidableTiles (len : Nat → Nat) : ∀ start ps stop, Decidable (Tiles len start ps stop)
  | start, [], stop => inferInstanceAs (Decidable (start = stop))
  | start, p :: ps, stop =>
    have := decidableTiles len (p + len p) ps stop
    inferInstanceAs (Decidable (p = start ∧ 0 < len p ∧ Tiles len (p + len p) ps stop))

@[simp]
theorem tiles_nil : Tiles len start [] stop ↔ start = stop := Iff.rfl

theorem tiles_cons :
    Tiles len start (p :: ps) stop ↔ p = start ∧ 0 < len p ∧ Tiles len (p + len p) ps stop := Iff.rfl

theorem tiles_singleton : Tiles len start [p] stop ↔ p = start ∧ 0 < len p ∧ p + len p = stop := Iff.rfl

theorem tiles_append :
    Tiles len start (xs ++ ys) stop ↔ ∃ mid, Tiles len start xs mid ∧ Tiles len mid ys stop := by
  induction xs generalizing start with
  | nil =>
    constructor
    · exact fun h => ⟨start, rfl, h⟩
    · rintro ⟨mid, rfl, h⟩
      exact h
  | cons p ps ih =>
    rw [List.cons_append, tiles_cons, ih]
    constructor
    · rintro ⟨hp, hpos, mid, hps, hys⟩
      exact ⟨mid, ⟨hp, hpos, hps⟩, hys⟩
    · rintro ⟨mid, ⟨hp, hpos, hps⟩, hys⟩
      exact ⟨hp, hpos, mid, hps, hys⟩

namespace Tiles

theorem congr (htiles : Tiles len start ps stop) (hlen : ∀ p ∈ ps, len' p = len p) :
    Tiles len' start ps stop := by
  induction ps generalizing start with
  | nil => exact htiles
  | cons p ps ih =>
    obtain ⟨hp, hpos, hrest⟩ := htiles
    have hself := hlen p List.mem_cons_self
    refine ⟨hp, by rwa [hself], ?_⟩
    rw [hself]
    exact ih hrest fun q hq => hlen q (List.mem_cons_of_mem p hq)

theorem length_le (htiles : Tiles len start ps stop) : start + ps.length ≤ stop := by
  induction ps generalizing start with
  | nil => exact Nat.le_of_eq htiles
  | cons p ps ih =>
    obtain ⟨rfl, hpos, hrest⟩ := htiles
    have hle := ih hrest
    rw [List.length_cons]
    omega

theorem le (htiles : Tiles len start ps stop) : start ≤ stop :=
  Nat.le_trans (Nat.le_add_right _ _) htiles.length_le

theorem mem_bounds (htiles : Tiles len start ps stop) (hp : p ∈ ps) : start ≤ p ∧ p + len p ≤ stop := by
  obtain ⟨xs, ys, rfl⟩ := List.append_of_mem hp
  obtain ⟨mid, hxs, rfl, -, hys⟩ := tiles_append.mp htiles
  exact ⟨hxs.le, hys.le⟩

theorem apart (htiles : Tiles len start ps stop) (hp : p ∈ ps) (hq : q ∈ ps) (hne : p ≠ q) :
    p + len p ≤ q ∨ q + len q ≤ p := by
  induction ps generalizing start with
  | nil => cases hp
  | cons r rs ih =>
    obtain ⟨-, -, hrest⟩ := htiles
    rcases List.mem_cons.mp hp with rfl | hp'
    · rcases List.mem_cons.mp hq with rfl | hq'
      · exact absurd rfl hne
      · exact .inl (hrest.mem_bounds hq').1
    · rcases List.mem_cons.mp hq with rfl | hq'
      · exact .inr (hrest.mem_bounds hp').1
      · exact ih hrest hp' hq'

theorem dvd_of_mem {k : Nat} (htiles : Tiles len start ps stop) (hstart : k ∣ start)
    (hlen : ∀ p ∈ ps, k ∣ len p) (hp : p ∈ ps) : k ∣ p := by
  induction ps generalizing start with
  | nil => cases hp
  | cons q qs ih =>
    obtain ⟨rfl, -, hrest⟩ := htiles
    rcases List.mem_cons.mp hp with rfl | hq
    · exact hstart
    · exact ih hrest (Nat.dvd_add hstart (hlen q List.mem_cons_self))
        (fun r hr => hlen r (List.mem_cons_of_mem q hr)) hq

theorem replace (htiles : Tiles len start (xs ++ ys ++ zs) stop)
    (hnew : ∀ a b, start ≤ a → b ≤ stop → Tiles len a ys b → Tiles len' a ps b)
    (hkeep : ∀ p ∈ xs ++ zs, len' p = len p) : Tiles len' start (xs ++ ps ++ zs) stop := by
  rw [List.append_assoc, tiles_append] at htiles ⊢
  obtain ⟨a, hxs, htail⟩ := htiles
  obtain ⟨b, hys, hzs⟩ := tiles_append.mp htail
  exact ⟨a, hxs.congr fun p hp => hkeep p (List.mem_append_left zs hp), tiles_append.mpr
    ⟨b, hnew a b hxs.le hzs.le hys, hzs.congr fun p hp => hkeep p (List.mem_append_right xs hp)⟩⟩

theorem stretch (htiles : Tiles len start (xs ++ ys ++ zs) stop) :
    ∃ a b, Tiles len a ys b ∧ b ≤ stop ∧ ∀ q ∈ xs ++ zs, q + len q ≤ a ∨ b ≤ q := by
  obtain ⟨b, hfront, hzs⟩ := tiles_append.mp htiles
  obtain ⟨a, hxs, hys⟩ := tiles_append.mp hfront
  refine ⟨a, b, hys, hzs.le, fun q hq => ?_⟩
  rcases List.mem_append.mp hq with hq | hq
  · exact .inl (hxs.mem_bounds hq).2
  · exact .inr (hzs.mem_bounds hq).1

theorem apart_of_split (htiles : Tiles len start (xs ++ p :: zs) stop) (hq : q ∈ xs ++ zs) :
    q + len q ≤ p ∨ p + len p ≤ q := by
  obtain ⟨mid, hxs, rfl, -, hzs⟩ := tiles_append.mp htiles
  rcases List.mem_append.mp hq with hq | hq
  · exact .inl (hxs.mem_bounds hq).2
  · exact .inr (hzs.mem_bounds hq).1

end Tiles

end Tiling
