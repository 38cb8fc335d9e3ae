import Mathlib.Data.List.Range
import Mathlib.Data.Nat.ModEq
import Mathlib.Logic.Function.Basic

/-!
# Ring buffers

A ring of `N` slots holds the elements of a queue from some slot on, around the end of the array. Elements are taken at
the front and added behind the last one.
-/

namespace Ring

variable {α : Type} {N start len : Nat} {slots : Nat → α} {a : α}

def contents (N : Nat) (slots : Nat → α) (start len : Nat) : List α :=
  (List.range len).map fun k => slots ((start + k) % N)

@[simp]
theorem length_contents : (contents N slots start len).length = len := by
  simp [contents]

@[simp]
theorem contents_zero : contents N slots start 0 = [] := rfl

theorem contents_congr {slots' : Nat → α} (hN : 0 < N) (hsame : ∀ i < N, slots' i = slots i) :
    contents N slots' start len = contents N slots start len := by
  apply List.map_congr_left
  intro k _
  exact hsame _ (Nat.mod_lt _ hN)

@[simp]
theorem contents_mod : contents N slots (start % N) len = contents N slots start len := by
  simp [contents]

theorem contents_succ : contents N slots start (len + 1) = slots (start % N) :: contents N slots (start + 1) len := by
  rw [contents, List.range_succ_eq_map, List.map_cons, List.map_map, contents, Nat.add_zero]
  congr 2
  funext k
  simp only [Function.comp_apply]
  congr 2
  omega

theorem contents_push (hlen : len < N) :
    contents N (Function.update slots ((start + len) % N) a) start (len + 1) = contents N slots start len ++ [a] := by
  rw [contents, List.range_succ, List.map_append, List.map_singleton, Function.update_self]
  congr 1
  apply List.map_congr_left
  intro k hk
  rw [List.mem_range] at hk
  apply Function.update_of_ne
  intro heq
  have hkl := Nat.ModEq.add_left_cancel' start (show Nat.ModEq N (start + k) (start + len) from heq)
  rw [Nat.ModEq, Nat.mod_eq_of_lt (hk.trans hlen), Nat.mod_eq_of_lt hlen] at hkl
  omega

theorem contents_overwrite (hN : 0 < N) :
    contents N (Function.update slots (start % N) a) (start + 1) N = (contents N slots start N).tail ++ [a] := by
  obtain ⟨len, rfl⟩ := Nat.exists_eq_succ_of_ne_zero hN.ne'
  have hlast : (start + 1 + len) % (len + 1) = start % (len + 1) := by
    rw [Nat.add_assoc, Nat.add_comm 1 len, Nat.add_mod_right]
  rw [← hlast, contents_push (Nat.lt_succ_self len), contents_succ, List.tail_cons]

/-! ### Byte indices

A ring of 256 slots whose indices are bytes wraps by itself. It is empty when the indices are equal, so one slot stays
free. -/

section Bytes

variable {slots : UInt8 → α} {head tail : UInt8}

def held (slots : UInt8 → α) (head tail : UInt8) : List α :=
  contents 256 (fun i => slots (UInt8.ofNat i)) tail.toNat (head - tail).toNat

theorem length_held : (held slots head tail).length = (head - tail).toNat := length_contents

theorem toNat_sub_eq_zero_iff : (head - tail).toNat = 0 ↔ head = tail := by
  have hhead := head.toNat_lt
  have htail := tail.toNat_lt
  rw [← UInt8.toNat_inj, UInt8.toNat_sub]
  omega

theorem toNat_sub_eq_max_iff : (head - tail).toNat = 255 ↔ head + 1 = tail := by
  have hhead := head.toNat_lt
  have htail := tail.toNat_lt
  have hone : (1 : UInt8).toNat = 1 := rfl
  rw [← UInt8.toNat_inj, UInt8.toNat_add, hone, UInt8.toNat_sub]
  omega

theorem toNat_succ_sub (hroom : head + 1 ≠ tail) : (head + 1 - tail).toNat = (head - tail).toNat + 1 := by
  have hhead := head.toNat_lt
  have htail := tail.toNat_lt
  have hone : (1 : UInt8).toNat = 1 := rfl
  have hne := mt toNat_sub_eq_max_iff.mp hroom
  rw [UInt8.toNat_sub] at hne
  rw [UInt8.toNat_sub, UInt8.toNat_sub, UInt8.toNat_add, hone]
  omega

theorem toNat_sub_succ (hsome : head ≠ tail) : (head - tail).toNat = (head - (tail + 1)).toNat + 1 := by
  have hhead := head.toNat_lt
  have htail := tail.toNat_lt
  have hone : (1 : UInt8).toNat = 1 := rfl
  have hne := mt toNat_sub_eq_zero_iff.mp hsome
  rw [UInt8.toNat_sub] at hne
  rw [UInt8.toNat_sub, UInt8.toNat_sub, UInt8.toNat_add, hone]
  omega

theorem held_self : held slots head head = [] := by
  rw [held, toNat_sub_eq_zero_iff.mpr rfl, contents_zero]

theorem held_push (hroom : head + 1 ≠ tail) :
    held (Function.update slots head a) (head + 1) tail = held slots head tail ++ [a] := by
  have hhead := head.toNat_lt
  have htail := tail.toNat_lt
  have hlast : head.toNat = (tail.toNat + (head - tail).toNat) % 256 := by
    rw [UInt8.toNat_sub]
    omega
  have hslots : ∀ i < 256, Function.update slots head a (UInt8.ofNat i) =
      Function.update (fun i => slots (UInt8.ofNat i)) head.toNat a i := by
    intro i hi
    by_cases heq : i = head.toNat
    · rw [heq, UInt8.ofNat_toNat, Function.update_self, Function.update_self]
    · rw [Function.update_of_ne heq, Function.update_of_ne]
      intro hcast
      apply heq
      rw [← hcast, UInt8.toNat_ofNat_of_lt' hi]
  have hlen : (head - tail).toNat < 256 := UInt8.toNat_lt _
  rw [held, toNat_succ_sub hroom, contents_congr (by decide) hslots, hlast]
  exact contents_push hlen

theorem held_pop (hsome : head ≠ tail) : held slots head tail = slots tail :: held slots head (tail + 1) := by
  have htail' : (tail + 1).toNat = (tail.toNat + 1) % 256 := by rw [UInt8.toNat_add]; rfl
  rw [held, toNat_sub_succ hsome, contents_succ, Nat.mod_eq_of_lt tail.toNat_lt, UInt8.ofNat_toNat, held, htail',
    contents_mod]

end Bytes

end Ring
