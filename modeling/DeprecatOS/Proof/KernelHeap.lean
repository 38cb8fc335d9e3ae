import DeprecatOS.KernelHeap
import DeprecatOS.Lib.Fault
import DeprecatOS.Lib.Tiling
import Mathlib.Data.List.Perm.Basic
import Mathlib.Order.MinMax

/-!
# The heap is a tiling by blocks

The headers tile `[heap_start, heap_end)`. A search walks the tiling, an allocation splits a free block
of it, a growth appends to it and a free merges a stretch of it; the payloads of the blocks in use are
outside everything that is written.
-/

namespace DeprecatOS

open Fault Tiling

theorem kernelCeiling_toNat : kernelCeiling.toNat = 0x40000000 := rfl

theorem add32_of_lt {x y : Nat} (h : x + y < 4294967296) : add32 x y = x + y := Nat.mod_eq_of_lt h

theorem sub32_of_le {x y : Nat} (hle : y ≤ x) (hlt : x < 4294967296) : sub32 x y = x - y := by
  rw [sub32]
  omega

theorem sub32_pageSize {x : Nat} (hle : 4096 ≤ x) (hlt : x < 4294967296) : sub32 x pageSize = x - 4096 :=
  sub32_of_le hle hlt

theorem kernelCeiling_sub_pageSize : kernelCeiling.toNat - pageSize = 0x40000000 - 4096 := rfl

namespace Heap

def extent (s : Heap) (p : Nat) : Nat := 8 + s.size p

structure Inv (s : Heap) (blocks : List Nat) : Prop where
  start : s.heapStart = 0x10000000
  page : s.heapEnd % 4096 = 0
  ceiling : s.heapEnd ≤ 0x40000000
  nonempty : blocks ≠ []
  tiles : Tiles s.extent s.heapStart blocks s.heapEnd
  round : ∀ p ∈ blocks, s.size p % 4 = 0

theorem Inv.bounds {s : Heap} {blocks : List Nat} {p : Nat} (hinv : s.Inv blocks) (hp : p ∈ blocks) :
    0x10000000 ≤ p ∧ p + 8 + s.size p ≤ s.heapEnd := by
  obtain ⟨hlow, hhigh⟩ := hinv.tiles.mem_bounds hp
  rw [hinv.start] at hlow
  rw [extent] at hhigh
  exact ⟨hlow, by omega⟩

theorem Inv.aligned {s : Heap} {blocks : List Nat} {p : Nat} (hinv : s.Inv blocks) (hp : p ∈ blocks) :
    p % 4 = 0 := by
  refine Nat.mod_eq_zero_of_dvd (hinv.tiles.dvd_of_mem (by rw [hinv.start]; decide) (fun q hq => ?_) hp)
  have hround := hinv.round q hq
  rw [extent]
  omega

def Spare (s : Heap) (blocks : List Nat) (a : Nat) : Prop :=
  (∃ p ∈ blocks, s.isFree p = true ∧ p ≤ a ∧ a < p + s.extent p) ∨ s.heapEnd ≤ a

def HeaderWord (p a : Nat) : Prop := a = p ∨ a = p + 4

structure Carved (s : Heap) (blocks : List Nat) (s' : Heap) (blocks' : List Nat) : Prop where
  kept : ∀ p ∈ blocks, p ∈ blocks'
  used : ∀ p ∈ blocks, s.isFree p = false → s'.isFree p = false ∧ s'.size p = s.size p
  spare : ∀ a, s'.Spare blocks' a → s.Spare blocks a
  writes : ∀ a, s'.mem a ≠ s.mem a → (∃ p ∈ blocks', HeaderWord p a) ∧ s.Spare blocks a

theorem Carved.refl (s : Heap) (blocks : List Nat) : s.Carved blocks s blocks :=
  ⟨fun _ => id, fun _ _ h => ⟨h, rfl⟩, fun _ => id, fun _ h => absurd rfl h⟩

theorem Carved.trans {s s' s'' : Heap} {blocks blocks' blocks'' : List Nat}
    (hfirst : s.Carved blocks s' blocks') (hnext : s'.Carved blocks' s'' blocks'') :
    s.Carved blocks s'' blocks'' where
  kept p hp := hnext.kept p (hfirst.kept p hp)
  used p hp hused := by
    obtain ⟨hused', hsize'⟩ := hfirst.used p hp hused
    obtain ⟨hused'', hsize''⟩ := hnext.used p (hfirst.kept p hp) hused'
    exact ⟨hused'', hsize''.trans hsize'⟩
  spare a ha := hfirst.spare a (hnext.spare a ha)
  writes a hchange := by
    by_cases hlate : s''.mem a = s'.mem a
    · obtain ⟨⟨p, hp, hword⟩, hspare⟩ := hfirst.writes a fun h => hchange (hlate.trans h)
      exact ⟨⟨p, hnext.kept p hp, hword⟩, hspare⟩
    · obtain ⟨hheader, hspare⟩ := hnext.writes a hlate
      exact ⟨hheader, hfirst.spare a hspare⟩

end Heap

open Heap

/-! ### The search -/

theorem scanBlocks_spec {s : Heap} {wanted : Nat} (hend : s.heapEnd ≤ 0x40000000) {ps : List Nat}
    {fuel cursor : Nat} {last : Option Nat} (htiles : Tiles s.extent cursor ps s.heapEnd)
    (hfuel : ps.length < fuel) :
    (∃ h ∈ ps, s.isFree h = true ∧ wanted ≤ s.size h ∧
        scanBlocks s wanted fuel cursor last = some (.found h)) ∨
      (∀ h ∈ ps, s.isFree h = true → s.size h < wanted) ∧
        scanBlocks s wanted fuel cursor last = some (.missed (ps.getLast?.or last)) := by
  induction ps generalizing fuel cursor last with
  | nil =>
    obtain ⟨fuel, rfl⟩ : ∃ k, fuel = k + 1 := ⟨fuel - 1, by rw [List.length_nil] at hfuel; omega⟩
    have hstop : ¬ cursor < s.heapEnd := by
      rw [tiles_nil.mp htiles]
      exact Nat.lt_irrefl _
    refine .inr ⟨fun h hh => absurd hh List.not_mem_nil, ?_⟩
    rw [scanBlocks, if_neg hstop, List.getLast?_nil, Option.none_or]
  | cons p ps ih =>
    rw [List.length_cons] at hfuel
    obtain ⟨fuel, rfl⟩ : ∃ k, fuel = k + 1 := ⟨fuel - 1, by omega⟩
    obtain ⟨rfl, -, hrest⟩ := htiles
    have hle : p + s.extent p ≤ s.heapEnd := hrest.le
    have hextent : s.extent p = 8 + s.size p := rfl
    have hlt : p < s.heapEnd := by omega
    rw [scanBlocks, if_pos hlt]
    by_cases hfit : s.isFree p = true ∧ wanted ≤ s.size p
    · rw [if_pos hfit]
      exact .inl ⟨p, List.mem_cons_self, hfit.1, hfit.2, rfl⟩
    · have hnext : add32 p (add32 8 (s.size p)) = p + s.extent p := by
        rw [add32_of_lt (show 8 + s.size p < 4294967296 by omega), add32_of_lt (by omega), hextent]
      rw [if_neg hfit, hnext]
      have hfuel' : ps.length < fuel := by omega
      rcases @ih fuel _ (some p) hrest hfuel' with ⟨h, hh, hfree, hwanted, hscan⟩ | ⟨hnone, hscan⟩
      · exact .inl ⟨h, List.mem_cons_of_mem p hh, hfree, hwanted, hscan⟩
      · refine .inr ⟨fun h hh hfree => ?_, ?_⟩
        · rcases List.mem_cons.mp hh with rfl | hh'
          · exact Nat.lt_of_not_le fun hwanted => hfit ⟨hfree, hwanted⟩
          · exact hnone h hh' hfree
        · rw [hscan]
          cases ps with
          | nil => rfl
          | cons q qs => rw [List.getLast?_cons_cons, List.getLast?_cons, Option.some_or, Option.some_or]

/-! ### Taking a block -/

namespace Heap

variable {s : Heap}

theorem size_setSize (h v p : Nat) : (s.setSize h v).size p = if p = h then v else s.size p := by
  rw [size, setSize]
  exact Function.update_apply s.mem h v p

theorem size_setFree (h v p : Nat) : (s.setFree h v).size p = if p = h + 4 then v else s.size p := by
  rw [size, setFree]
  exact Function.update_apply s.mem (h + 4) v p

theorem isFree_setSize (h v p : Nat) :
    (s.setSize h v).isFree p = if p + 4 = h then decide (v ≠ 0) else s.isFree p := by
  rw [isFree, setSize]
  change decide (Function.update s.mem h v (p + 4) ≠ 0) = _
  rw [Function.update_apply]
  split_ifs <;> rfl

theorem isFree_setFree (h v p : Nat) :
    (s.setFree h v).isFree p = if p = h then decide (v ≠ 0) else s.isFree p := by
  rw [isFree, setFree]
  change decide (Function.update s.mem (h + 4) v (p + 4) ≠ 0) = _
  rw [Function.update_apply]
  by_cases heq : p = h
  · rw [if_pos (by omega), if_pos heq]
  · rw [if_neg (by omega), if_neg heq]
    rfl

def Outside (s s' : Heap) (lo hi : Nat) : Prop := ∀ a, a < lo ∨ hi ≤ a → s'.mem a = s.mem a

theorem Outside.size {s' : Heap} {lo hi p : Nat} (hout : Outside s s' lo hi) (hp : p < lo ∨ hi ≤ p) :
    s'.size p = s.size p := hout p hp

theorem Outside.isFree {s' : Heap} {lo hi p : Nat} (hout : Outside s s' lo hi)
    (hp : p + 4 < lo ∨ hi ≤ p + 4) : s'.isFree p = s.isFree p := by
  rw [Heap.isFree, hout _ hp, Heap.isFree]

/-- The blocks `new` take the place of what stood in `[lo, hi)`, between the blocks `xs` and `ys`, which stay. -/
structure Recut (s : Heap) (xs : List Nat) (lo : Nat) (s' : Heap) (new : List Nat) (hi : Nat) (ys : List Nat) :
    Prop where
  start : s'.heapStart = s.heapStart
  before : Tiles s.extent s.heapStart xs lo
  tiles : Tiles s'.extent lo new hi
  behind : Tiles s.extent hi ys s'.heapEnd
  outside : s.Outside s' lo hi

theorem mem_recut {xs new ys : List Nat} {p : Nat} : p ∈ xs ++ new ++ ys ↔ p ∈ new ∨ p ∈ xs ++ ys := by
  simp only [List.mem_append]
  tauto

namespace Recut

variable {s' : Heap} {blocks xs new ys : List Nat} {lo hi p : Nat}

theorem header (hcut : s.Recut xs lo s' new hi ys) (hp : p ∈ xs ++ ys) :
    s'.size p = s.size p ∧ s'.isFree p = s.isFree p := by
  have hclear : p + 8 ≤ lo ∨ hi ≤ p := by
    rcases List.mem_append.mp hp with hp | hp
    · have hle := (hcut.before.mem_bounds hp).2
      rw [extent] at hle
      omega
    · exact .inr (hcut.behind.mem_bounds hp).1
  exact ⟨hcut.outside.size (by omega), hcut.outside.isFree (by omega)⟩

theorem extent_eq (hcut : s.Recut xs lo s' new hi ys) (hp : p ∈ xs ++ ys) : s'.extent p = s.extent p :=
  congrArg (8 + ·) (hcut.header hp).1

theorem inv (hcut : s.Recut xs lo s' new hi ys) (hinv : s.Inv blocks) (hold : ∀ p ∈ xs ++ ys, p ∈ blocks)
    (hpage : s'.heapEnd % 4096 = 0) (hceil : s'.heapEnd ≤ 0x40000000) (hnew : new ≠ [])
    (hround : ∀ p ∈ new, s'.size p % 4 = 0) : s'.Inv (xs ++ new ++ ys) where
  start := hcut.start.trans hinv.start
  page := hpage
  ceiling := hceil
  nonempty := by simp [hnew]
  tiles := by
    have hxs := hcut.before.congr fun p hp => hcut.extent_eq (List.mem_append_left ys hp)
    have hys := hcut.behind.congr fun p hp => hcut.extent_eq (List.mem_append_right xs hp)
    rw [hcut.start]
    exact tiles_append.mpr ⟨hi, tiles_append.mpr ⟨lo, hxs, hcut.tiles⟩, hys⟩
  round p hp := by
    rcases mem_recut.mp hp with hp | hp
    · exact hround p hp
    · rw [(hcut.header hp).1]
      exact hinv.round p (hold p hp)

theorem carved (hcut : s.Recut xs lo s' new hi ys) (hold : ∀ p ∈ xs ++ ys, p ∈ blocks)
    (hkept : ∀ p ∈ blocks, p ∈ new ∧ s.isFree p = true ∨ p ∈ xs ++ ys) (hend : s.heapEnd ≤ s'.heapEnd)
    (hspare : ∀ a, lo ≤ a → a < hi → s.Spare blocks a)
    (hwrites : ∀ a, s'.mem a ≠ s.mem a → ∃ p ∈ new, HeaderWord p a) : s.Carved blocks s' (xs ++ new ++ ys) where
  kept p hp := mem_recut.mpr ((hkept p hp).imp_left And.left)
  used p hp hused := by
    rcases hkept p hp with ⟨-, hfree⟩ | hp
    · rw [hfree] at hused
      cases hused
    · rw [(hcut.header hp).1, (hcut.header hp).2]
      exact ⟨hused, rfl⟩
  spare a ha := by
    rcases ha with ⟨p, hp, hfree, hle, hlt⟩ | hpast
    · rcases mem_recut.mp hp with hp | hp
      · obtain ⟨hlow, hhigh⟩ := hcut.tiles.mem_bounds hp
        exact hspare a (by omega) (by omega)
      · rw [hcut.extent_eq hp] at hlt
        rw [(hcut.header hp).2] at hfree
        exact .inl ⟨p, hold p hp, hfree, hle, hlt⟩
    · exact .inr (hend.trans hpast)
  writes a hchange := by
    obtain ⟨p, hp, hword⟩ := hwrites a hchange
    refine ⟨⟨p, mem_recut.mpr (.inl hp), hword⟩, hspare a ?_ ?_⟩
    · by_contra hlt
      exact hchange (hcut.outside a (by omega))
    · by_contra hge
      exact hchange (hcut.outside a (by omega))

end Recut

end Heap

/-- What is known of a block once it has been handed out, and of the block cut off behind it. -/
structure Taken (s : Heap) (h wanted : Nat) (s' : Heap) (cut : List Nat) : Prop where
  same : s' = { s with mem := s'.mem }
  outside : s.Outside s' h (h + s.extent h)
  used : s'.isFree h = false
  size : wanted ≤ s'.size h
  round : ∀ p ∈ h :: cut, s'.size p % 4 = 0
  tiles : Tiles s'.extent h (h :: cut) (h + s.extent h)
  writes : ∀ a, s'.mem a ≠ s.mem a → ∃ p ∈ h :: cut, HeaderWord p a

theorem takeBlock_taken {s : Heap} {h wanted : Nat} (hend : h + 8 + s.size h ≤ 0x40000000)
    (hfit : wanted ≤ s.size h) (hround : s.size h % 4 = 0) (hwanted : wanted % 4 = 0) :
    ∃ cut, Taken s h wanted (takeBlock s h wanted) cut := by
  have hsub : sub32 (s.size h) wanted = s.size h - wanted := sub32_of_le hfit (by omega)
  rw [takeBlock, hsub]
  by_cases hsplit : 8 < s.size h - wanted
  · have hnew : add32 (add32 h 8) wanted = h + 8 + wanted := by
      rw [add32_of_lt (show h + 8 < 4294967296 by omega), add32_of_lt (by omega)]
    have hrest : sub32 (s.size h - wanted) 8 = s.size h - wanted - 8 := sub32_of_le (by omega) (by omega)
    rw [if_pos hsplit]
    dsimp only
    rw [hnew, hrest]
    refine ⟨[h + 8 + wanted], ?_⟩
    have hmem : ∀ a, ((((s.setSize (h + 8 + wanted) (s.size h - wanted - 8)).setFree (h + 8 + wanted) 1).setSize
        h wanted).setFree h 0).mem a = if a = h + 4 then 0 else if a = h then wanted else
          if a = h + 8 + wanted + 4 then 1 else if a = h + 8 + wanted then s.size h - wanted - 8
          else s.mem a := by
      intro a
      simp only [setFree, setSize, Function.update_apply]
    have hsame : (((s.setSize (h + 8 + wanted) (s.size h - wanted - 8)).setFree (h + 8 + wanted) 1).setSize
        h wanted).setFree h 0 = { s with mem := ((((s.setSize (h + 8 + wanted) (s.size h - wanted - 8)).setFree
          (h + 8 + wanted) 1).setSize h wanted).setFree h 0).mem } := rfl
    generalize (((s.setSize (h + 8 + wanted) (s.size h - wanted - 8)).setFree (h + 8 + wanted) 1).setSize
        h wanted).setFree h 0 = s' at hmem hsame ⊢
    have hsizeh : s'.size h = wanted := by
      rw [Heap.size, hmem, if_neg (by omega), if_pos rfl]
    have hsizeq : s'.size (h + 8 + wanted) = s.size h - wanted - 8 := by
      rw [Heap.size, hmem, if_neg (by omega), if_neg (by omega), if_neg (by omega), if_pos rfl]
    have hextent : s.extent h = 8 + s.size h := rfl
    refine ⟨hsame, fun a ha => ?_, ?_, by omega, ?_, ?_, fun a hchange => ?_⟩
    · rw [hmem, if_neg (by omega), if_neg (by omega), if_neg (by omega), if_neg (by omega)]
    · rw [Heap.isFree, hmem, if_pos rfl]
      rfl
    · intro p hp
      rcases List.mem_cons.mp hp with rfl | hp
      · omega
      · rw [List.mem_singleton.mp hp]
        omega
    · refine ⟨rfl, ?_, ?_⟩
      · rw [Heap.extent]
        omega
      · rw [tiles_singleton, Heap.extent, Heap.extent, hsizeh, hsizeq]
        omega
    · rw [hmem] at hchange
      split_ifs at hchange with h1 h2 h3 h4
      · exact ⟨h, List.mem_cons_self, .inr h1⟩
      · exact ⟨h, List.mem_cons_self, .inl h2⟩
      · exact ⟨_, List.mem_cons_of_mem h (List.mem_singleton_self _), .inr h3⟩
      · exact ⟨_, List.mem_cons_of_mem h (List.mem_singleton_self _), .inl h4⟩
      · exact absurd rfl hchange
  · rw [if_neg hsplit]
    have hsize : (s.setFree h 0).size h = s.size h := by
      rw [size_setFree, if_neg (by omega)]
    have hextent : s.extent h = 8 + s.size h := rfl
    refine ⟨[], rfl, fun a ha => ?_, ?_, by omega, ?_, ?_, fun a hchange => ?_⟩
    · exact Function.update_of_ne (by omega) _ _
    · rw [isFree_setFree, if_pos rfl]
      rfl
    · intro p hp
      rw [List.mem_singleton.mp hp]
      omega
    · rw [tiles_singleton, Heap.extent, hsize, Heap.extent]
      omega
    · refine ⟨h, List.mem_cons_self, .inr ?_⟩
      by_contra hne
      exact hchange (Function.update_of_ne hne _ _)

theorem takeBlock_spec {s : Heap} {xs ys : List Nat} {h wanted : Nat} (hinv : s.Inv (xs ++ h :: ys))
    (hfree : s.isFree h = true) (hfit : wanted ≤ s.size h) (hwanted : wanted % 4 = 0) :
    ∃ blocks', (takeBlock s h wanted).Inv blocks' ∧
      s.Carved (xs ++ h :: ys) (takeBlock s h wanted) blocks' ∧ h ∈ blocks' ∧
      (takeBlock s h wanted).isFree h = false ∧ wanted ≤ (takeBlock s h wanted).size h := by
  have hmem : h ∈ xs ++ h :: ys := List.mem_append_right xs List.mem_cons_self
  have hhigh := (hinv.bounds hmem).2
  obtain ⟨cut, htaken⟩ := takeBlock_taken (by have := hinv.ceiling; omega) hfit (hinv.round h hmem) hwanted
  generalize takeBlock s h wanted = s' at htaken ⊢
  have hend : s'.heapEnd = s.heapEnd := by rw [htaken.same]
  obtain ⟨mid, hxs, rfl, -, hys⟩ := tiles_append.mp hinv.tiles
  have hcut : s.Recut xs h s' (h :: cut) (h + s.extent h) ys :=
    ⟨by rw [htaken.same], hxs, htaken.tiles, by rw [hend]; exact hys, htaken.outside⟩
  have hold : ∀ p, p ∈ xs ++ h :: ys ↔ p = h ∨ p ∈ xs ++ ys := fun p => by
    simp only [List.mem_append, List.mem_cons]
    tauto
  refine ⟨xs ++ (h :: cut) ++ ys, hcut.inv hinv (fun p hp => (hold p).mpr (.inr hp)) (by rw [hend, hinv.page])
    (by rw [hend]; exact hinv.ceiling) (List.cons_ne_nil h cut) htaken.round, ?_,
    mem_recut.mpr (.inl List.mem_cons_self), htaken.used, htaken.size⟩
  refine hcut.carved (fun p hp => (hold p).mpr (.inr hp)) (fun p hp => ?_) hend.ge
    (fun a hle hlt => .inl ⟨h, hmem, hfree, hle, hlt⟩) htaken.writes
  rcases (hold p).mp hp with rfl | hp
  · exact .inl ⟨List.mem_cons_self, hfree⟩
  · exact .inr hp

/-! ### Growing the heap -/

def Heap.taken (s : Heap) : List Nat := ((List.range s.calls).map s.answers).filter (· ≠ 0)

/-- Every frame taken is mapped, given back or in hand, and every page of the heap below `bound` is
mapped. -/
structure Heap.Frames (s : Heap) (held : List Nat) (bound : Nat) : Prop where
  perm : s.taken.Perm (held ++ ((s.pages.map Prod.snd).filter (· ≠ 0) ++ s.freed))
  mapped : ∀ a, s.heapStart ≤ a → a < bound → a % 4096 = 0 → a ∈ s.pages.map Prod.fst

theorem Heap.taken_allocFrame (s : Heap) : s.allocFrame.2.taken =
    s.taken ++ if s.answers s.calls ≠ 0 then [s.answers s.calls] else [] := by
  rw [Heap.taken, Heap.allocFrame, List.range_succ, List.map_append, List.filter_append]
  congr 1
  by_cases hne : s.answers s.calls ≠ 0
  · simp [hne]
  · simp [not_not.mp hne]

theorem Heap.Frames.alloc {s : Heap} {bound : Nat} (hframes : s.Frames [] bound) :
    s.allocFrame.2.Frames (if s.answers s.calls ≠ 0 then [s.answers s.calls] else []) bound where
  perm := by
    rw [Heap.taken_allocFrame]
    exact (hframes.perm.append_right _).trans List.perm_append_comm
  mapped := hframes.mapped

theorem Heap.Frames.map {s : Heap} {frame i : Nat} (hframes : s.Frames [frame] i) (hframe : frame ≠ 0)
    (hi : i % 4096 = 0) : (s.mapKernelPage i frame).Frames [] (i + 4096) where
  perm := by
    refine hframes.perm.trans ?_
    rw [List.nil_append, Heap.mapKernelPage, List.map_cons, List.filter_cons_of_pos (by simpa using hframe)]
    rfl
  mapped a hlow hhigh hpage := by
    rw [Heap.mapKernelPage, List.map_cons, List.mem_cons]
    by_cases heq : a = i
    · exact .inl heq
    · exact .inr (hframes.mapped a hlow (by omega) hpage)

theorem Heap.Frames.mono {s : Heap} {held : List Nat} {bound bound' : Nat} (hframes : s.Frames held bound)
    (hle : bound' ≤ bound) : s.Frames held bound' :=
  ⟨hframes.perm, fun a hlow hhigh hpage => hframes.mapped a hlow (by omega) hpage⟩

theorem Heap.Frames.withEnd {s : Heap} {held : List Nat} {bound : Nat} (hframes : s.Frames held bound)
    (newEnd : Nat) : Heap.Frames { s with heapEnd := newEnd } held bound :=
  ⟨hframes.perm, hframes.mapped⟩

def inHand (frame : Nat) : List Nat := if frame ≠ 0 then [frame] else []

structure Reached (s : Heap) (goal : Nat) (s' : Heap) : Prop where
  mem : s'.mem = s.mem
  start : s'.heapStart = s.heapStart
  answers : s'.answers = s.answers
  page : s'.heapEnd % 4096 = 0
  reach : goal ≤ min s'.heapEnd 0x40000000
  calls : s.calls ≤ s'.calls
  ended : s'.heapEnd = s.heapEnd ∨ s'.answers (s'.calls - 1) = 0

theorem mapPages_spec {fuel i frame : Nat} {s : Heap} (hframe : frame ≠ 0) (hi : i % 4096 = 0)
    (hceil : i ≤ 0x40000000) (hpage : s.heapEnd % 4096 = 0) (hpos : 4096 ≤ s.heapEnd)
    (hlt : s.heapEnd < 4294967296) (hframes : s.Frames [frame] i)
    (hfuel : 0x40000000 < i + 4096 * fuel) :
    ∃ frame' s', mapPages fuel i frame s = some (frame', s') ∧
      Reached s (min (i + 4096) (min s.heapEnd 0x40000000)) s' ∧
      s'.Frames (inHand frame') (min s'.heapEnd 0x40000000) := by
  induction fuel generalizing i frame s with
  | zero => omega
  | succ fuel ih =>
    rw [mapPages, sub32_pageSize hpos hlt, kernelCeiling_sub_pageSize, show pageSize = 4096 from rfl]
    by_cases hmore : i ≤ s.heapEnd - 4096 ∧ i ≤ 0x40000000 - 4096
    · have hnext : add32 i 4096 = i + 4096 := add32_of_lt (by omega)
      have hmapped := hframes.map hframe hi
      have halloc := hmapped.alloc
      rw [if_pos hmore, hnext]
      dsimp only [Heap.allocFrame]
      by_cases hnone : (s.mapKernelPage i frame).answers (s.mapKernelPage i frame).calls = 0
      · rw [if_neg (not_not.mpr hnone)] at halloc
        rw [if_pos hnone]
        have hreach : min (i + 4096) (min s.heapEnd 0x40000000) ≤ min (i + 4096) 0x40000000 :=
          min_le_min le_rfl (min_le_right _ _)
        have hround : (i + 4096) % 4096 = 0 := by omega
        exact ⟨0, _, rfl, ⟨rfl, rfl, rfl, hround, hreach, Nat.le_succ _, .inr hnone⟩,
          (halloc.mono (Nat.min_le_left _ _)).withEnd (i + 4096)⟩
      · rw [if_pos hnone] at halloc
        rw [if_neg hnone]
        obtain ⟨frame', s', heq, hreached, hframes'⟩ := @ih (i + 4096) _ (s.mapKernelPage i frame).allocFrame.2
          hnone (by omega) (by omega) hpage hpos hlt halloc (by omega)
        have hreach : min (i + 4096 + 4096) (min s.heapEnd 0x40000000) ≤ min s'.heapEnd 0x40000000 :=
          hreached.reach
        exact ⟨frame', s', heq, ⟨hreached.mem, hreached.start, hreached.answers, hreached.page, by omega,
          (Nat.le_succ _).trans hreached.calls, hreached.ended⟩, hframes'⟩
    · rw [if_neg hmore]
      refine ⟨frame, s, rfl, ⟨rfl, rfl, rfl, hpage, by omega, le_rfl, .inl rfl⟩, ?_⟩
      rw [inHand, if_pos hframe]
      exact hframes.mono (by omega)

theorem settle_spec {s : Heap} {frame : Nat}
    (hframes : s.Frames (inHand frame) (min s.heapEnd 0x40000000)) :
    (settle frame s).mem = s.mem ∧ (settle frame s).heapStart = s.heapStart ∧
      ((settle frame s).answers = s.answers ∧ (settle frame s).calls = s.calls) ∧
      (settle frame s).heapEnd = min s.heapEnd 0x40000000 ∧ (settle frame s).Frames [] (settle frame s).heapEnd := by
  obtain ⟨s₁, hs₁, hmem, hstart, hanswers, hend, hframes₁⟩ : ∃ s₁ : Heap,
      (if kernelCeiling.toNat < s.heapEnd then { s with heapEnd := kernelCeiling.toNat } else s) = s₁ ∧
      s₁.mem = s.mem ∧ s₁.heapStart = s.heapStart ∧ (s₁.answers = s.answers ∧ s₁.calls = s.calls) ∧
      s₁.heapEnd = min s.heapEnd 0x40000000 ∧ s₁.Frames (inHand frame) (min s.heapEnd 0x40000000) := by
    rw [kernelCeiling_toNat]
    by_cases hover : 0x40000000 < s.heapEnd
    · rw [if_pos hover]
      have hmin : 0x40000000 = min s.heapEnd 0x40000000 := by omega
      exact ⟨_, rfl, rfl, rfl, ⟨rfl, rfl⟩, hmin, hframes.withEnd _⟩
    · rw [if_neg hover]
      exact ⟨s, rfl, rfl, rfl, ⟨rfl, rfl⟩, (Nat.min_eq_left (by omega)).symm, hframes⟩
  rw [settle, hs₁]
  rw [inHand] at hframes₁
  split_ifs at hframes₁ ⊢ with hframe
  · refine ⟨hmem, hstart, hanswers, hend, ?_, ?_⟩
    · refine hframes₁.perm.trans ?_
      change (frame :: (_ ++ s₁.freed)).Perm (_ ++ frame :: s₁.freed)
      exact List.perm_middle.symm
    · change ∀ a, s₁.heapStart ≤ a → a < s₁.heapEnd → _
      rw [hend]
      exact hframes₁.mapped
  · rw [hend]
    exact ⟨hmem, hstart, hanswers, rfl, hframes₁⟩

section AddSpace

-- the heap before the growth is `s₀`; `s` has the same memory and the new end
variable {s₀ s : Heap} {xs : List Nat} {h : Nat} (hinv : s₀.Inv (xs ++ [h])) (hmem : s.mem = s₀.mem)
  (hstart : s.heapStart = s₀.heapStart) (hpage : s.heapEnd % 4096 = 0) (hceil : s.heapEnd ≤ 0x40000000)
  (hgrown : s₀.heapEnd + 4096 ≤ s.heapEnd)
include hinv hmem hstart hpage hceil hgrown

theorem addSpace_free (hfree : s₀.isFree h = true) : ∃ blocks', (addSpace s h s₀.heapEnd).Inv blocks' ∧
    s₀.Carved (xs ++ [h]) (addSpace s h s₀.heapEnd) blocks' := by
  have hlast : h ∈ xs ++ [h] := List.mem_append_right xs (List.mem_singleton_self h)
  have hhigh := (hinv.bounds hlast).2
  obtain ⟨mid, hxs, rfl, -, hstop⟩ := tiles_append.mp hinv.tiles
  have hstop' : h + (8 + s₀.size h) = s₀.heapEnd := hstop
  have hsize : s.size h = s₀.size h := by rw [Heap.size, hmem, Heap.size]
  have hfree' : s.isFree h = true := by rw [← hfree, Heap.isFree, hmem, Heap.isFree]
  have hsum : add32 (s₀.size h) (sub32 s.heapEnd s₀.heapEnd) = s.heapEnd - 8 - h := by
    rw [sub32_of_le (by omega) (by omega), add32_of_lt (by omega)]
    omega
  rw [addSpace, if_pos hfree', hsize, hsum]
  have hsame : ∀ a, a ≠ h → (s.setSize h (s.heapEnd - 8 - h)).mem a = s₀.mem a := fun a ha => by
    rw [← hmem]
    exact Function.update_of_ne ha _ _
  have hnew : (s.setSize h (s.heapEnd - 8 - h)).size h = s.heapEnd - 8 - h := by rw [size_setSize, if_pos rfl]
  have hcut : s₀.Recut xs h (s.setSize h (s.heapEnd - 8 - h)) [h] s.heapEnd [] := by
    refine ⟨hstart, hxs, tiles_singleton.mpr ⟨rfl, ?_, ?_⟩, rfl, fun a ha => hsame a (by omega)⟩
    · rw [Heap.extent]
      omega
    · rw [Heap.extent, hnew]
      omega
  have hold : ∀ p ∈ xs ++ [], p ∈ xs ++ [h] := fun p hp => List.mem_append_left [h] (by rwa [List.append_nil] at hp)
  refine ⟨_, hcut.inv hinv hold hpage hceil (List.cons_ne_nil h []) fun p hp => ?_,
    hcut.carved hold (fun p hp => ?_) (by change s₀.heapEnd ≤ s.heapEnd; omega) (fun a hle hlt => ?_) fun a hchange => ?_⟩
  · have hround := hinv.round h hlast
    have hoff := hinv.page
    rw [List.mem_singleton.mp hp, hnew]
    omega
  · rw [List.append_nil]
    rcases List.mem_append.mp hp with hp | hp
    · exact .inr hp
    · exact .inl ⟨hp, by rw [List.mem_singleton.mp hp, hfree]⟩
  · by_cases hin : a < s₀.heapEnd
    · exact .inl ⟨h, hlast, hfree, hle, by rw [Heap.extent]; omega⟩
    · exact .inr (by omega)
  · by_contra hno
    exact hchange (hsame a fun heq => hno ⟨h, List.mem_cons_self, .inl heq⟩)

theorem addSpace_used (hused : ¬ s₀.isFree h = true) : ∃ blocks', (addSpace s h s₀.heapEnd).Inv blocks' ∧
    s₀.Carved (xs ++ [h]) (addSpace s h s₀.heapEnd) blocks' := by
  have hused' : ¬ s.isFree h = true := by rwa [Heap.isFree, hmem, ← Heap.isFree]
  have hsum : sub32 (sub32 s.heapEnd s₀.heapEnd) 8 = s.heapEnd - s₀.heapEnd - 8 := by
    rw [sub32_of_le (x := s.heapEnd) (by omega) (by omega), sub32_of_le (by omega) (by omega)]
  rw [addSpace, if_neg hused', hsum]
  have hwrites : ∀ a, ((s.setFree s₀.heapEnd 1).setSize s₀.heapEnd (s.heapEnd - s₀.heapEnd - 8)).mem a =
      if a = s₀.heapEnd then s.heapEnd - s₀.heapEnd - 8 else if a = s₀.heapEnd + 4 then 1 else s₀.mem a := by
    intro a
    simp only [setFree, setSize, Function.update_apply, hmem]
  have hnew : ((s.setFree s₀.heapEnd 1).setSize s₀.heapEnd (s.heapEnd - s₀.heapEnd - 8)).size s₀.heapEnd =
      s.heapEnd - s₀.heapEnd - 8 := by
    rw [Heap.size, hwrites, if_pos rfl]
  have hcut : s₀.Recut (xs ++ [h]) s₀.heapEnd
      ((s.setFree s₀.heapEnd 1).setSize s₀.heapEnd (s.heapEnd - s₀.heapEnd - 8)) [s₀.heapEnd] s.heapEnd [] := by
    refine ⟨hstart, hinv.tiles, tiles_singleton.mpr ⟨rfl, ?_, ?_⟩, rfl, fun a ha => ?_⟩
    · rw [Heap.extent]
      omega
    · rw [Heap.extent, hnew]
      omega
    · rw [hwrites, if_neg (by omega), if_neg (by omega)]
  have hold : ∀ p, p ∈ xs ++ [h] ++ [] ↔ p ∈ xs ++ [h] := fun p => by rw [List.append_nil]
  refine ⟨_, hcut.inv hinv (fun p => (hold p).mp) hpage hceil (List.cons_ne_nil _ []) fun p hp => ?_,
    hcut.carved (fun p => (hold p).mp) (fun p hp => .inr ((hold p).mpr hp))
      (by change s₀.heapEnd ≤ s.heapEnd; omega) (fun a hle _ => .inr hle) fun a hchange => ?_⟩
  · have hoff := hinv.page
    rw [List.mem_singleton.mp hp, hnew]
    omega
  · rw [hwrites] at hchange
    refine ⟨s₀.heapEnd, List.mem_cons_self, ?_⟩
    split_ifs at hchange with h1 h2
    · exact .inl h1
    · exact .inr h2
    · exact absurd rfl hchange

theorem addSpace_spec : ∃ blocks', (addSpace s h s₀.heapEnd).Inv blocks' ∧
    s₀.Carved (xs ++ [h]) (addSpace s h s₀.heapEnd) blocks' := by
  by_cases hfree : s₀.isFree h = true
  · exact addSpace_free hinv hmem hstart hpage hceil hgrown hfree
  · exact addSpace_used hinv hmem hstart hpage hceil hgrown hfree

end AddSpace

theorem addSpace_same (s : Heap) (h oldHeapEnd : Nat) :
    addSpace s h oldHeapEnd = { s with mem := (addSpace s h oldHeapEnd).mem } := by
  rw [addSpace]
  split_ifs <;> rfl

theorem growHeap_eq {s : Heap} {xs : List Nat} {h : Nat} (hinv : s.Inv (xs ++ [h])) (frame : Nat) :
    growHeap s frame ((xs ++ [h]).getLast?.or none) =
      (mapPages (kernelCeiling.toNat / pageSize) s.heapEnd frame
        { s with heapEnd := s.heapEnd + (s.heapEnd - s.heapStart) }).bind fun r =>
          some (addSpace (settle r.1 r.2) h s.heapEnd) := by
  have hlow := hinv.bounds (List.mem_append_right xs (List.mem_singleton_self h))
  have hceil := hinv.ceiling
  have hstart := hinv.start
  have hgoal : add32 s.heapEnd (sub32 s.heapEnd s.heapStart) = s.heapEnd + (s.heapEnd - s.heapStart) := by
    rw [sub32_of_le (by omega) (by omega), add32_of_lt (by omega)]
  rw [List.getLast?_concat, Option.some_or, ← hgoal]
  rfl

theorem growHeap_spec {s : Heap} {blocks : List Nat} {frame : Nat} (hinv : s.Inv blocks)
    (hroom : s.heapEnd < 0x40000000 - 4096) (hframe : frame ≠ 0) (hframes : s.Frames [frame] s.heapEnd) :
    ∃ s' blocks', growHeap s frame (blocks.getLast?.or none) = some s' ∧ s'.Inv blocks' ∧
      s.Carved blocks s' blocks' ∧ s.heapEnd + 4096 ≤ s'.heapEnd ∧ s'.Frames [] s'.heapEnd ∧
      s'.answers = s.answers ∧ s.calls ≤ s'.calls ∧
      (s'.heapEnd = 0x40000000 - 4096 → s'.answers (s'.calls - 1) = 0) := by
  obtain ⟨xs, h, rfl⟩ : ∃ xs h, blocks = xs ++ [h] :=
    ⟨_, _, (List.dropLast_append_getLast hinv.nonempty).symm⟩
  have hlow : s.heapStart < s.heapEnd := by
    have := hinv.bounds (List.mem_append_right xs (List.mem_singleton_self h))
    have := hinv.start
    omega
  have hpage := hinv.page
  have hstart := hinv.start
  have hfuel : kernelCeiling.toNat / pageSize = 262144 := rfl
  obtain ⟨frame', s₁, hmap, hreached, hframes₁⟩ := @mapPages_spec 262144 s.heapEnd frame
    { s with heapEnd := s.heapEnd + (s.heapEnd - s.heapStart) } hframe hinv.page (by omega)
    (by change (s.heapEnd + (s.heapEnd - s.heapStart)) % 4096 = 0; omega)
    (by change 4096 ≤ s.heapEnd + (s.heapEnd - s.heapStart); omega)
    (by change s.heapEnd + (s.heapEnd - s.heapStart) < 4294967296; omega)
    (hframes.withEnd _) (by omega)
  obtain ⟨hmem, hstart', ⟨hanswers, hcalls⟩, hend, hframes₂⟩ := settle_spec hframes₁
  have hreach : min (s.heapEnd + 4096) (min (s.heapEnd + (s.heapEnd - s.heapStart)) 0x40000000) ≤
      min s₁.heapEnd 0x40000000 := hreached.reach
  have hpage₁ := hreached.page
  have hend' : (addSpace (settle frame' s₁) h s.heapEnd).heapEnd = (settle frame' s₁).heapEnd := by
    rw [addSpace_same]
  obtain ⟨blocks', hinv', hcarved⟩ := addSpace_spec hinv (s := settle frame' s₁)
    (hmem.trans hreached.mem) (hstart'.trans hreached.start) (by rw [hend]; omega) (by rw [hend]; omega)
    (by rw [hend]; omega)
  refine ⟨_, blocks', ?_, hinv', hcarved, ?_, ?_, ?_, ?_, fun hlast => ?_⟩
  · rw [growHeap_eq hinv, hfuel, hmap, Option.bind_some]
  · rw [hend', hend]
    omega
  · rw [hend', addSpace_same]
    exact ⟨hframes₂.perm, hframes₂.mapped⟩
  · rw [addSpace_same]
    exact hanswers.trans hreached.answers
  · rw [addSpace_same]
    exact hreached.calls.trans_eq hcalls.symm
  · -- a growth that is not cut short doubles the heap, and the last page is an odd one
    rw [hend', hend] at hlast
    rw [addSpace_same]
    change (settle frame' s₁).answers ((settle frame' s₁).calls - 1) = 0
    rw [hanswers, hcalls]
    refine hreached.ended.resolve_left fun hwhole => ?_
    have hdouble : s₁.heapEnd = s.heapEnd + (s.heapEnd - s.heapStart) := hwhole
    omega

/-! ### kmalloc -/

/-- The heap of `s'` cannot grow: it ends at the ceiling, or there is no frame for it. The frame is the last one that was
asked for since `s`, and the next one when none was. -/
def Heap.Exhausted (s s' : Heap) : Prop :=
  s'.heapEnd = kernelCeiling.toNat ∨ s'.answers (max s.calls (s'.calls - 1)) = 0

/-- No free block has `size` bytes. -/
def Heap.NoneFits (s : Heap) (blocks : List Nat) (size : Nat) : Prop :=
  ∀ h ∈ blocks, s.isFree h = true → s.size h < size

/-- How a call that returns 0 has ended: at the ceiling, without a frame, or at once because only the last page is left. -/
def Heap.Gave (s s' : Heap) (blocks : List Nat) (size : Nat) : Prop :=
  s'.heapEnd = 0x40000000 ∨ s.calls < s'.calls ∧ s'.answers (s'.calls - 1) = 0 ∨
    s' = s ∧ s.heapEnd = 0x40000000 - 4096 ∧ s.NoneFits blocks size

structure Served (s : Heap) (blocks : List Nat) (size r : Nat) (s' : Heap) (blocks' : List Nat) :
    Prop where
  inv : s'.Inv blocks'
  carved : s.Carved blocks s' blocks'
  frames : s'.Frames [] s'.heapEnd
  answers : s'.answers = s.answers
  failed : r = 0 → s'.NoneFits blocks' size
  full : r = 0 → s.Gave s' blocks size
  block : r ≠ 0 → ∃ h ∈ blocks', r = h + 8 ∧ s'.isFree h = false ∧ size ≤ s'.size h ∧ s.Spare blocks h

theorem takeBlock_same (s : Heap) (h wanted : Nat) :
    takeBlock s h wanted = { s with mem := (takeBlock s h wanted).mem } := by
  rw [takeBlock]
  split_ifs <;> rfl

theorem Heap.Frames.withMem {s : Heap} {held : List Nat} {bound : Nat} (hframes : s.Frames held bound)
    (mem : Nat → Nat) : Heap.Frames { s with mem := mem } held bound :=
  ⟨hframes.perm, hframes.mapped⟩

theorem Heap.Inv.alloc {s : Heap} {blocks : List Nat} (hinv : s.Inv blocks) : s.allocFrame.2.Inv blocks :=
  ⟨hinv.start, hinv.page, hinv.ceiling, hinv.nonempty, hinv.tiles, hinv.round⟩

theorem Heap.Carved.alloc (s : Heap) (blocks : List Nat) : s.Carved blocks s.allocFrame.2 blocks :=
  ⟨fun _ => id, fun _ _ h => ⟨h, rfl⟩, fun _ => id, fun _ h => absurd rfl h⟩

theorem kmallocFrom_found {fuel size h : Nat} {s : Heap}
    (hscan : scanBlocks s (add32 size 3 / 4 * 4) (s.heapEnd + 1) s.heapStart none = some (.found h)) :
    kmallocFrom (fuel + 1) size s = some (add32 h 8, takeBlock s h (add32 size 3 / 4 * 4)) := by
  rw [kmallocFrom, hscan]

theorem kmallocFrom_missed {fuel size : Nat} {s : Heap} {last : Option Nat}
    (hscan : scanBlocks s (add32 size 3 / 4 * 4) (s.heapEnd + 1) s.heapStart none = some (.missed last)) :
    kmallocFrom (fuel + 1) size s =
      if s.heapEnd < 0x40000000 - 4096 then
        if s.answers s.calls ≠ 0 then
          (growHeap s.allocFrame.2 (s.answers s.calls) last).bind (kmallocFrom fuel size)
        else some (0, s.allocFrame.2)
      else some (0, s) := by
  rw [kmallocFrom, hscan]
  rfl

theorem Served.of_take {s : Heap} {blocks : List Nat} {size wanted h : Nat} (hinv : s.Inv blocks)
    (hframes : s.Frames [] s.heapEnd) (hh : h ∈ blocks) (hfree : s.isFree h = true)
    (hfit : wanted ≤ s.size h) (hsize : size ≤ wanted) (hwanted : wanted % 4 = 0) :
    ∃ blocks', Served s blocks size (h + 8) (takeBlock s h wanted) blocks' := by
  obtain ⟨xs, ys, rfl⟩ := List.append_of_mem hh
  obtain ⟨blocks', hinv', hcarved, hmem, hused, hfits⟩ := takeBlock_spec hinv hfree hfit hwanted
  have hspare : s.Spare (xs ++ h :: ys) h :=
    .inl ⟨h, hh, hfree, le_rfl, by rw [Heap.extent]; omega⟩
  refine ⟨blocks', hinv', hcarved, ?_, ?_, fun hzero => by omega, fun hzero => by omega,
    fun _ => ⟨h, hmem, rfl, hused, le_trans hsize hfits, hspare⟩⟩
  · rw [takeBlock_same]
    exact hframes.withMem _
  · rw [takeBlock_same]

theorem kmallocFrom_spec {fuel size : Nat} {s : Heap} {blocks : List Nat} (hsize : size ≤ 4294967296 - 4)
    (hinv : s.Inv blocks) (hframes : s.Frames [] s.heapEnd) (hfuel : 0x40000000 < s.heapEnd + 4096 * fuel) :
    ∃ r s' blocks', kmallocFrom fuel size s = some (r, s') ∧ Served s blocks size r s' blocks' := by
  induction fuel generalizing s blocks with
  | zero =>
    have := hinv.ceiling
    omega
  | succ fuel ih =>
    have hwanted : add32 size 3 / 4 * 4 = (size + 3) / 4 * 4 := by rw [add32_of_lt (by omega)]
    have hlength : blocks.length < s.heapEnd + 1 := by
      have := hinv.tiles.length_le
      omega
    rcases @scanBlocks_spec s (add32 size 3 / 4 * 4) hinv.ceiling _ _ _ none hinv.tiles hlength with
      ⟨h, hh, hfree, hfit, hscan⟩ | ⟨hnone, hscan⟩
    · have hptr : add32 h 8 = h + 8 := by
        obtain ⟨hlow, hhigh⟩ := hinv.bounds hh
        exact add32_of_lt (by have := hinv.ceiling; omega)
      have hle : size ≤ add32 size 3 / 4 * 4 := by omega
      obtain ⟨blocks', halloc⟩ := Served.of_take hinv hframes hh hfree hfit hle (Nat.mul_mod_left _ 4)
      rw [kmallocFrom_found hscan, hptr]
      exact ⟨_, _, blocks', rfl, halloc⟩
    · have hsmall : s.NoneFits blocks size := by
        intro p hp hfree
        have := hnone p hp hfree
        have := hinv.round p hp
        omega
      rw [kmallocFrom_missed hscan]
      by_cases hroom : s.heapEnd < 0x40000000 - 4096
      · rw [if_pos hroom]
        have hframes' := hframes.alloc
        by_cases hframe : s.answers s.calls ≠ 0
        · -- the heap grows and the call starts again
          rw [if_pos hframe] at hframes' ⊢
          obtain ⟨s₁, blocks₁, hgrow, hinv₁, hcarved₁, hgrown, hframes₁, hanswers, hcalls, hlast⟩ :=
            growHeap_spec hinv.alloc hroom hframe hframes'
          have hgrown' : s.heapEnd + 4096 ≤ s₁.heapEnd := hgrown
          have hcalls' : s.calls + 1 ≤ s₁.calls := hcalls
          obtain ⟨r, s', blocks', heq, halloc⟩ := ih hinv₁ hframes₁ (by omega)
          have hcarved := (Heap.Carved.alloc s blocks).trans hcarved₁
          rw [hgrow]
          refine ⟨r, s', blocks', heq, halloc.inv, hcarved.trans halloc.carved, halloc.frames,
            halloc.answers.trans hanswers, halloc.failed, fun hr => ?_, fun hr => ?_⟩
          · obtain htop | ⟨hasked, hnone⟩ | ⟨rfl, hend, -⟩ := halloc.full hr
            · exact .inl htop
            · exact .inr (.inl ⟨by omega, hnone⟩)
            · exact .inr (.inl ⟨by omega, hlast hend⟩)
          obtain ⟨h, hh, hptr, hused, hfits, hspare⟩ := halloc.block hr
          exact ⟨h, hh, hptr, hused, hfits, hcarved.spare h hspare⟩
        · rw [if_neg hframe] at hframes' ⊢
          exact ⟨0, _, blocks, rfl, hinv.alloc, Heap.Carved.alloc s blocks, hframes', rfl,
            fun _ => hsmall, fun _ => .inr (.inl ⟨Nat.lt_succ_self _, not_not.mp hframe⟩), fun h => absurd rfl h⟩
      · rw [if_neg hroom]
        refine ⟨0, s, blocks, rfl, hinv, Heap.Carved.refl s blocks, hframes, rfl, fun _ => hsmall, fun _ => ?_,
          fun h => absurd rfl h⟩
        by_cases htop : s.heapEnd = 0x40000000
        · exact .inl htop
        · have hpage := hinv.page
          have hceil := hinv.ceiling
          exact .inr (.inr ⟨rfl, by omega, hsmall⟩)

theorem scan_missed {s : Heap} {blocks : List Nat} {size : Nat} (hinv : s.Inv blocks) (hsize : size ≤ 4294967296 - 4)
    (hnone : s.NoneFits blocks size) :
    scanBlocks s (add32 size 3 / 4 * 4) (s.heapEnd + 1) s.heapStart none =
      some (.missed (blocks.getLast?.or none)) := by
  have hlength : blocks.length < s.heapEnd + 1 := by
    have := hinv.tiles.length_le
    omega
  rcases @scanBlocks_spec s (add32 size 3 / 4 * 4) hinv.ceiling _ _ _ none hinv.tiles hlength with
    ⟨h, hh, hfree, hfit, -⟩ | ⟨-, hscan⟩
  · have hsmall := hnone h hh hfree
    rw [add32_of_lt (by omega)] at hfit
    omega
  · exact hscan

theorem kmallocFrom_lastPage {fuel size : Nat} {s : Heap} {blocks : List Nat} (hinv : s.Inv blocks)
    (hsize : size ≤ 4294967296 - 4) (hnone : s.NoneFits blocks size) (hend : s.heapEnd = 0x40000000 - 4096) :
    kmallocFrom (fuel + 1) size s = some (0, s) := by
  rw [kmallocFrom_missed (scan_missed hinv hsize hnone), if_neg (by omega)]

theorem Served.exhausted_iff {fuel size r : Nat} {s s' : Heap} {blocks blocks' : List Nat} (hinv : s.Inv blocks)
    (hsize : size ≤ 4294967296 - 4) (hrun : kmallocFrom (fuel + 1) size s = some (r, s'))
    (hserved : Served s blocks size r s' blocks') : (r = 0 → s.Exhausted s') ↔
      ¬ (s.NoneFits blocks size ∧ s.heapEnd + pageSize = kernelCeiling.toNat ∧ s.answers s.calls ≠ 0) := by
  have hpage : pageSize = 4096 := rfl
  constructor
  · rintro hfair ⟨hnone, hend, hframe⟩
    rw [kernelCeiling_toNat, hpage] at hend
    rw [kmallocFrom_lastPage hinv hsize hnone (by omega)] at hrun
    cases hrun
    obtain htop | hgone := hfair rfl
    · rw [kernelCeiling_toNat] at htop
      omega
    · rw [Nat.max_eq_left (Nat.sub_le _ _)] at hgone
      exact hframe hgone
  · intro hother hr
    obtain htop | ⟨hasked, hgone⟩ | ⟨rfl, hend, hnone⟩ := hserved.full hr
    · exact .inl htop
    · rw [Heap.Exhausted, Nat.max_eq_right (by omega)]
      exact .inr hgone
    · rw [Heap.Exhausted, Nat.max_eq_left (Nat.sub_le _ _)]
      by_contra hnot
      refine hother ⟨hnone, ?_, (not_or.mp hnot).2⟩
      rw [kernelCeiling_toNat, hpage]
      omega

/-! ### kfree -/

theorem join_inv {s : Heap} {xs ys : List Nat} {h c : Nat} (hinv : s.Inv (xs ++ h :: c :: ys)) :
    (s.setSize h (s.size h + (s.size c + 8))).Inv (xs ++ h :: ys) := by
  obtain ⟨mid, hxs, rfl, -, hc⟩ := tiles_append.mp hinv.tiles
  obtain ⟨hnext, -, hys⟩ := tiles_cons.mp hc
  have hnew : (s.setSize h (s.size h + (s.size c + 8))).size h = s.size h + (s.size c + 8) := by
    rw [size_setSize, if_pos rfl]
  rw [Heap.extent] at hnext
  have hcut : s.Recut xs h (s.setSize h (s.size h + (s.size c + 8))) [h] (c + s.extent c) ys := by
    refine ⟨rfl, hxs, tiles_singleton.mpr ⟨rfl, ?_, ?_⟩, hys, fun a ha => Function.update_of_ne ?_ _ _⟩
    · rw [Heap.extent]
      omega
    · rw [Heap.extent, hnew, Heap.extent]
      omega
    · rw [Heap.extent] at ha
      omega
  have hround : ∀ p ∈ [h], (s.setSize h (s.size h + (s.size c + 8))).size p % 4 = 0 := by
    intro p hp
    have hh := hinv.round h (by simp)
    have hc := hinv.round c (by simp)
    rw [List.mem_singleton.mp hp, hnew]
    omega
  have hjoined := hcut.inv hinv (fun p hp => by simp only [List.mem_append, List.mem_cons] at hp ⊢; tauto) hinv.page
    hinv.ceiling (List.cons_ne_nil h []) hround
  rwa [List.append_assoc] at hjoined

theorem joinBlocks_succ {s : Heap} {xs ys : List Nat} {h : Nat} (hinv : s.Inv (xs ++ h :: ys)) (fuel : Nat) :
    joinBlocks (h + 8) (fuel + 1) s =
      if h + s.extent h < s.heapEnd ∧ s.isFree (h + s.extent h) = true then
        joinBlocks (h + 8) fuel (s.setSize h (add32 (s.size h) (add32 (s.size (h + s.extent h)) 8)))
      else some s := by
  have hceil := hinv.ceiling
  have hbound := hinv.bounds (List.mem_append_right xs List.mem_cons_self)
  have hsub : sub32 (h + 8) 8 = h := sub32_of_le (by omega) (by omega)
  have hnext : add32 (h + 8) (s.size h) = h + s.extent h := by
    rw [add32_of_lt (by omega), Heap.extent, Nat.add_assoc]
  rw [joinBlocks, hsub, hnext]

theorem joinBlocks_spec {xs ys : List Nat} {h fuel : Nat} {s : Heap} (hinv : s.Inv (xs ++ h :: ys))
    (hfuel : ys.length < fuel) :
    ∃ s' ys', joinBlocks (h + 8) fuel s = some s' ∧ s'.Inv (xs ++ h :: ys') ∧
      s' = { s with mem := s'.mem } ∧ (∀ a, a ≠ h → s'.mem a = s.mem a) ∧
      (∀ p ∈ ys', p ∈ ys) ∧ ∀ p ∈ ys, s.isFree p = false → p ∈ ys' := by
  obtain ⟨mid, -, -, -, hrest⟩ := tiles_append.mp hinv.tiles
  induction ys generalizing s fuel with
  | nil =>
    obtain ⟨fuel, rfl⟩ : ∃ k, fuel = k + 1 := ⟨fuel - 1, by omega⟩
    have hstop : ¬ h + s.extent h < s.heapEnd := by
      rw [tiles_nil.mp hrest]
      exact Nat.lt_irrefl _
    rw [joinBlocks_succ hinv, if_neg fun hmore => hstop hmore.1]
    exact ⟨s, [], rfl, hinv, rfl, fun _ _ => rfl, fun _ => id, fun _ hp _ => hp⟩
  | cons c ys ih =>
    rw [List.length_cons] at hfuel
    obtain ⟨fuel, rfl⟩ : ∃ k, fuel = k + 1 := ⟨fuel - 1, by omega⟩
    obtain ⟨hc, -, -⟩ := hrest
    have hbound := hinv.bounds (p := c) (by simp)
    have hbound' := hinv.bounds (p := h) (by simp)
    have hceil := hinv.ceiling
    rw [joinBlocks_succ hinv, ← hc]
    by_cases hfree : s.isFree c = true
    · have hsum : add32 (s.size h) (add32 (s.size c) 8) = s.size h + (s.size c + 8) := by
        rw [add32_of_lt (show s.size c + 8 < 4294967296 by omega), add32_of_lt (by omega)]
      have hjoined := join_inv hinv
      obtain ⟨mid', -, -, -, hrest'⟩ := tiles_append.mp hjoined.tiles
      have hfuel' : ys.length < fuel := by omega
      rw [if_pos ⟨by omega, hfree⟩, hsum]
      obtain ⟨s', ys', heq, hinv', hsame, hmem, hsub, hkept⟩ := ih hjoined hfuel' hrest'
      refine ⟨s', ys', heq, hinv', hsame, fun a ha => ?_, fun p hp => List.mem_cons_of_mem c (hsub p hp),
        fun p hp hused => ?_⟩
      · rw [hmem a ha]
        exact Function.update_of_ne ha _ _
      · rcases List.mem_cons.mp hp with rfl | hp'
        · rw [hfree] at hused
          cases hused
        · have hclear := hinv.tiles.apart_of_split (q := p)
            (List.mem_append_right xs (List.mem_cons_of_mem c hp'))
          rw [Heap.extent, Heap.extent] at hclear
          refine hkept p hp' ?_
          rw [isFree_setSize, if_neg (by omega)]
          exact hused
    · rw [if_neg (fun hmore => hfree hmore.2)]
      exact ⟨s, c :: ys, rfl, hinv, rfl, fun _ _ => rfl, fun _ => id, fun _ hp _ => hp⟩

theorem kfree_spec {s : Heap} {blocks : List Nat} {h : Nat} (hinv : s.Inv blocks) (hh : h ∈ blocks) :
    ∃ s' blocks', kfree (h + 8) s = some s' ∧ s'.Inv blocks' ∧ s' = { s with mem := s'.mem } ∧
      (∀ a, s'.mem a ≠ s.mem a → HeaderWord h a) ∧
      ∀ p ∈ blocks, p ≠ h → s.isFree p = false →
        p ∈ blocks' ∧ s'.isFree p = false ∧ s'.size p = s.size p := by
  obtain ⟨xs, ys, rfl⟩ := List.append_of_mem hh
  obtain ⟨hlow, hhigh⟩ := hinv.bounds hh
  have hceil := hinv.ceiling
  have hsub : sub32 (h + 8) 8 = h := sub32_of_le (by omega) (by omega)
  have hclear : ∀ p ∈ xs ++ h :: ys, p ≠ h + 4 ∧ (p ≠ h → p + 4 ≠ h) := by
    intro p hp
    by_cases heq : p = h
    · omega
    · have hpair := hinv.tiles.apart hp hh heq
      rw [Heap.extent, Heap.extent] at hpair
      omega
  have hsize : ∀ p ∈ xs ++ h :: ys, (s.setFree h 1).size p = s.size p := fun p hp => by
    rw [size_setFree, if_neg (hclear p hp).1]
  have hinv₁ : (s.setFree h 1).Inv (xs ++ h :: ys) := by
    refine ⟨hinv.start, hinv.page, hinv.ceiling, hinv.nonempty, ?_, fun p hp => ?_⟩
    · exact hinv.tiles.congr fun p hp => by rw [Heap.extent, hsize p hp, Heap.extent]
    · rw [hsize p hp]
      exact hinv.round p hp
  have hlength : ys.length < s.heapEnd + 1 := by
    have hle := hinv.tiles.length_le
    rw [List.length_append, List.length_cons] at hle
    omega
  obtain ⟨s', ys', heq, hinv', hsame, hmem, hsub', hkept⟩ := joinBlocks_spec hinv₁ hlength
  have hpre : ∀ a, a ≠ h → a ≠ h + 4 → s'.mem a = s.mem a := fun a ha ha' => by
    rw [hmem a ha]
    exact Function.update_of_ne ha' _ _
  refine ⟨s', xs ++ h :: ys', ?_, hinv', ?_, ?_, ?_⟩
  · rw [kfree, if_neg (by omega), hsub]
    exact heq
  · rw [hsame]
    rfl
  · intro a hchange
    by_contra hno
    exact hchange (hpre a (fun h => hno (.inl h)) fun h => hno (.inr h))
  · intro p hp hne hused
    have hfree₁ : (s.setFree h 1).isFree p = false := by
      rw [isFree_setFree, if_neg hne]
      exact hused
    refine ⟨?_, ?_, hpre p hne (hclear p hp).1⟩
    · rcases List.mem_append.mp hp with hxs | hys
      · exact List.mem_append_left _ hxs
      · have hys' : p ∈ ys := (List.mem_cons.mp hys).resolve_left hne
        exact List.mem_append_right xs (List.mem_cons_of_mem h (hkept p hys' hfree₁))
    · rw [Heap.isFree, hpre (p + 4) ((hclear p hp).2 hne) (by omega)]
      exact hused

/-! ### Runs -/

/-- The heap beside the allocations its users hold: the pointers they were given, with the sizes they
asked for. -/
structure HeapClient where
  heap : Heap
  live : List (Nat × Nat)

inductive HeapOp where
  | kmalloc (size : Nat)
  | kfree (ptr : Nat)
  -- a user writes a word of its own allocation
  | write (addr value : Nat)

def HeapOp.Allowed (c : HeapClient) : HeapOp → Prop
  | .kmalloc size => size ≤ 4294967296 - 4
  | .kfree ptr => ptr = 0 ∨ ptr ∈ c.live.map Prod.fst
  | .write addr _ => addr % 4 = 0 ∧ ∃ q ∈ c.live, q.1 ≤ addr ∧ addr < q.1 + q.2

def HeapOp.exec : HeapOp → Prog Unit HeapClient Nat
  | .kmalloc size => fun c =>
    match DeprecatOS.kmalloc size c.heap with
    | some (ptr, heap) => .ok (ptr, ⟨heap, if ptr = 0 then c.live else (ptr, size) :: c.live⟩)
    | none => .error ()
  | .kfree ptr => fun c =>
    match DeprecatOS.kfree ptr c.heap with
    | some heap => .ok (0, ⟨heap, c.live.filter fun q => q.1 ≠ ptr⟩)
    | none => .error ()
  | .write addr value => fun c =>
    .ok (0, { c with heap.mem := Function.update c.heap.mem addr value })

theorem HeapOp.exec_kmalloc {c : HeapClient} {size r : Nat} {heap : Heap}
    (hrun : DeprecatOS.kmalloc size c.heap = some (r, heap)) :
    (HeapOp.kmalloc size).exec c = .ok (r, ⟨heap, if r = 0 then c.live else (r, size) :: c.live⟩) := by
  simp only [HeapOp.exec, hrun]

/-- The invariant: each live pointer is the payload of a block in use that is large enough. -/
structure HeapClient.Ok (c : HeapClient) (blocks : List Nat) : Prop where
  inv : c.heap.Inv blocks
  frames : c.heap.Frames [] c.heap.heapEnd
  live : ∀ q ∈ c.live, ∃ h ∈ blocks, q.1 = h + 8 ∧ c.heap.isFree h = false ∧ q.2 ≤ c.heap.size h
  distinct : (c.live.map Prod.fst).Nodup

structure HeapClient.Sound (c : HeapClient) (blocks : List Nat) : Prop where
  tiles : Tiles (fun p => 8 + c.heap.size p) c.heap.heapStart blocks c.heap.heapEnd
  ceiling : c.heap.heapEnd ≤ kernelCeiling.toNat
  block : ∀ q ∈ c.live, ∃ h ∈ blocks, q.1 = h + 8 ∧ q.2 ≤ c.heap.size h
  aligned : ∀ q ∈ c.live, q.1 % 4 = 0
  inside : ∀ q ∈ c.live, c.heap.heapStart ≤ q.1 ∧ q.1 + q.2 ≤ c.heap.heapEnd
  apart : c.live.Pairwise fun q r => q.1 + q.2 ≤ r.1 ∨ r.1 + r.2 ≤ q.1
  headers : ∀ q ∈ c.live, ∀ h ∈ blocks, h + 8 ≤ q.1 ∨ q.1 + q.2 ≤ h
  frames : c.heap.taken.Perm ((c.heap.pages.map Prod.snd).filter (· ≠ 0) ++ c.heap.freed)
  mapped : ∀ a, c.heap.heapStart ≤ a → a < c.heap.heapEnd → a % 4096 = 0 →
    a ∈ c.heap.pages.map Prod.fst

theorem HeapClient.Ok.sound {c : HeapClient} {blocks : List Nat} (hok : c.Ok blocks) : c.Sound blocks where
  tiles := hok.inv.tiles
  ceiling := hok.inv.ceiling
  block q hq := by
    obtain ⟨h, hh, hptr, -, hsize⟩ := hok.live q hq
    exact ⟨h, hh, hptr, hsize⟩
  aligned q hq := by
    obtain ⟨h, hh, hptr, -, -⟩ := hok.live q hq
    have := hok.inv.aligned hh
    omega
  inside q hq := by
    obtain ⟨h, hh, hptr, -, hsize⟩ := hok.live q hq
    have := hok.inv.bounds hh
    have := hok.inv.start
    omega
  apart := by
    refine (List.pairwise_map.mp hok.distinct).imp_of_mem fun {q r} hq hr hne => ?_
    obtain ⟨h, hh, hptr, -, hsize⟩ := hok.live q hq
    obtain ⟨h', hh', hptr', -, hsize'⟩ := hok.live r hr
    have hpair := hok.inv.tiles.apart hh hh' (by omega)
    rw [Heap.extent, Heap.extent] at hpair
    omega
  headers q hq h hh := by
    obtain ⟨h', hh', hptr, -, hsize⟩ := hok.live q hq
    by_cases heq : h = h'
    · omega
    · have hpair := hok.inv.tiles.apart hh hh' heq
      rw [Heap.extent, Heap.extent] at hpair
      omega
  frames := hok.frames.perm
  mapped := hok.frames.mapped

def HeapOp.Effect (c : HeapClient) (blocks : List Nat) (r : Nat) (c' : HeapClient) (blocks' : List Nat) :
    HeapOp → Prop
  | .kmalloc size =>
    (∀ a, c'.heap.mem a ≠ c.heap.mem a →
      (∃ h ∈ blocks', HeaderWord h a) ∧ c.heap.Spare blocks a) ∧
    (r ≠ 0 → (r, size) ∈ c'.live) ∧ (r = 0 → c'.heap.NoneFits blocks' size)
  | .kfree ptr => ∀ a, c'.heap.mem a ≠ c.heap.mem a → ∃ h, ptr = h + 8 ∧ HeaderWord h a
  | .write addr _ => ∀ a, c'.heap.mem a ≠ c.heap.mem a → a = addr

/-- `kmalloc` returns 0 only if the heap cannot grow. -/
def HeapOp.Fair (c : HeapClient) (r : Nat) (c' : HeapClient) : HeapOp → Prop
  | .kmalloc _ => r = 0 → c.heap.Exhausted c'.heap
  | _ => True

/-- No free block fits, the heap ends one page below the ceiling, and there is a frame for that page. -/
def HeapOp.NeedsLastPage (c : HeapClient) (blocks : List Nat) : HeapOp → Prop
  | .kmalloc size => c.heap.NoneFits blocks size ∧ c.heap.heapEnd + pageSize = kernelCeiling.toNat ∧
      c.heap.answers c.heap.calls ≠ 0
  | _ => False

theorem HeapOp.kmalloc_step {c : HeapClient} {blocks : List Nat} (hok : c.Ok blocks) {size : Nat}
    (hsize : size ≤ 4294967296 - 4) : Runs (HeapOp.kmalloc size).exec c fun r c' =>
      ∃ blocks', c'.Ok blocks' ∧ (HeapOp.kmalloc size).Effect c blocks r c' blocks' ∧
        ((HeapOp.kmalloc size).Fair c r c' ↔ ¬ (HeapOp.kmalloc size).NeedsLastPage c blocks) := by
  have hfuel : kernelCeiling.toNat / pageSize = 262144 := rfl
  have hlow := hok.inv.tiles.le
  have hstart := hok.inv.start
  obtain ⟨r, s', blocks', heq, halloc⟩ := kmallocFrom_spec hsize hok.inv hok.frames
    (by omega : 0x40000000 < c.heap.heapEnd + 4096 * 262144)
  have hrun : DeprecatOS.kmalloc size c.heap = some (r, s') := by
    rw [DeprecatOS.kmalloc, hfuel]
    exact heq
  have hkept : ∀ q ∈ c.live, ∃ h ∈ blocks', q.1 = h + 8 ∧ s'.isFree h = false ∧ q.2 ≤ s'.size h := by
    intro q hq
    obtain ⟨h, hh, hptr, hused, hfits⟩ := hok.live q hq
    obtain ⟨hused', hsame⟩ := halloc.carved.used h hh hused
    exact ⟨h, halloc.carved.kept h hh, hptr, hused', by omega⟩
  refine ⟨r, ⟨s', if r = 0 then c.live else (r, size) :: c.live⟩, ?_, blocks', ⟨halloc.inv, halloc.frames, ?_, ?_⟩,
    ⟨halloc.carved.writes, fun hr => ?_, halloc.failed⟩, halloc.exhausted_iff hok.inv hsize heq⟩
  · exact HeapOp.exec_kmalloc hrun
  · intro q hq
    dsimp only at hq
    split_ifs at hq with hr
    · exact hkept q hq
    · rcases List.mem_cons.mp hq with rfl | hq'
      · obtain ⟨h, hh, hptr, hused, hfits, -⟩ := halloc.block hr
        exact ⟨h, hh, hptr, hused, hfits⟩
      · exact hkept q hq'
  · dsimp only
    split_ifs with hr
    · exact hok.distinct
    · refine List.nodup_cons.mpr ⟨fun hmem => ?_, hok.distinct⟩
      -- the new block lies in memory that no live block has
      obtain ⟨q, hq, hqr⟩ := List.mem_map.mp hmem
      obtain ⟨h, hh, hptr, hused, -⟩ := hok.live q hq
      obtain ⟨h', hh', hptr', -, -, hspare⟩ := halloc.block hr
      obtain rfl : h = h' := by omega
      have hbound := hok.inv.bounds hh
      rcases hspare with ⟨p, hp, hfree, hle, hlt⟩ | hpast
      · by_cases heq : p = h
        · rw [heq, hused] at hfree
          cases hfree
        · have hpair := hok.inv.tiles.apart hp hh heq
          rw [Heap.extent] at hlt
          rw [Heap.extent, Heap.extent] at hpair
          omega
      · omega
  · dsimp only
    rw [if_neg hr]
    exact List.mem_cons_self

theorem HeapOp.kfree_step {c : HeapClient} {blocks : List Nat} (hok : c.Ok blocks) {ptr : Nat}
    (hallowed : ptr = 0 ∨ ptr ∈ c.live.map Prod.fst) : Runs (HeapOp.kfree ptr).exec c fun r c' =>
      ∃ blocks', c'.Ok blocks' ∧ (HeapOp.kfree ptr).Effect c blocks r c' blocks' := by
  have hsub : (c.live.filter fun q => q.1 ≠ ptr).Sublist c.live := List.filter_sublist
  rcases hallowed with rfl | hmem
  · refine ⟨0, _, rfl, blocks, ⟨hok.inv, hok.frames, fun q hq => hok.live q (hsub.subset hq),
      hok.distinct.sublist (hsub.map _)⟩, fun a hchange => absurd rfl hchange⟩
  · obtain ⟨q, hq, rfl⟩ := List.mem_map.mp hmem
    obtain ⟨h, hh, hptr, hused, -⟩ := hok.live q hq
    obtain ⟨s', blocks', heq, hinv', hsame, hwrites, hkept⟩ := kfree_spec hok.inv hh
    rw [← hptr] at heq
    refine ⟨0, ⟨s', c.live.filter fun r => r.1 ≠ q.1⟩, ?_, blocks', ⟨hinv', ?_, fun r hr => ?_,
      hok.distinct.sublist (hsub.map _)⟩, fun a hchange => ⟨h, hptr, hwrites a hchange⟩⟩
    · simp only [HeapOp.exec, heq]
    · change s'.Frames [] s'.heapEnd
      rw [hsame]
      exact hok.frames.withMem _
    · obtain ⟨hr, hne⟩ := List.mem_filter.mp hr
      obtain ⟨h', hh', hptr', hused', hfits⟩ := hok.live r hr
      have hne' : r.1 ≠ q.1 := of_decide_eq_true hne
      obtain ⟨hmem', hused'', hsize⟩ := hkept h' hh' (by omega) hused'
      exact ⟨h', hmem', hptr', hused'', by rw [show (⟨s', _⟩ : HeapClient).heap = s' from rfl, hsize]; exact hfits⟩

theorem HeapOp.write_step {c : HeapClient} {blocks : List Nat} (hok : c.Ok blocks) {addr value : Nat}
    (hallowed : (HeapOp.write addr value).Allowed c) : Runs (HeapOp.write addr value).exec c fun r c' =>
      ∃ blocks', c'.Ok blocks' ∧ (HeapOp.write addr value).Effect c blocks r c' blocks' := by
  obtain ⟨haddr, q, hq, hlow, hhigh⟩ := hallowed
  obtain ⟨h, hh, hptr, -, hfits⟩ := hok.live q hq
  -- the word is in the payload of `h`, away from every header
  have hclear : ∀ p ∈ blocks, p ≠ addr ∧ p + 4 ≠ addr := by
    intro p hp
    by_cases heq : p = h
    · omega
    · have hpair := hok.inv.tiles.apart hp hh heq
      have hp4 := hok.inv.aligned hp
      have hh4 := hok.inv.aligned hh
      have hround := hok.inv.round h hh
      rw [Heap.extent, Heap.extent] at hpair
      omega
  have hsize : ∀ p ∈ blocks, Function.update c.heap.mem addr value p = c.heap.size p := fun p hp =>
    Function.update_of_ne (hclear p hp).1 _ _
  have hfree : ∀ p ∈ blocks, decide (Function.update c.heap.mem addr value (p + 4) ≠ 0) = c.heap.isFree p :=
    fun p hp => by rw [Function.update_of_ne (hclear p hp).2, Heap.isFree]
  refine ⟨0, _, rfl, blocks, ⟨⟨hok.inv.start, hok.inv.page, hok.inv.ceiling, hok.inv.nonempty, ?_, fun p hp => ?_⟩,
    hok.frames.withMem _, fun r hr => ?_, hok.distinct⟩, fun a hchange => ?_⟩
  · exact hok.inv.tiles.congr fun p hp => congrArg (8 + ·) (hsize p hp)
  · exact (congrArg (· % 4) (hsize p hp)).trans (hok.inv.round p hp)
  · obtain ⟨p, hp, hptr', hused, hfits'⟩ := hok.live r hr
    exact ⟨p, hp, hptr', (hfree p hp).trans hused, hfits'.trans_eq (hsize p hp).symm⟩
  · by_contra hne
    exact hchange (Function.update_of_ne hne _ _)

theorem HeapOp.step {c : HeapClient} {blocks : List Nat} (hok : c.Ok blocks) {op : HeapOp}
    (hallowed : op.Allowed c) : Runs op.exec c fun r c' =>
      ∃ blocks', c'.Ok blocks' ∧ op.Effect c blocks r c' blocks' ∧ (op.Fair c r c' ↔ ¬ op.NeedsLastPage c blocks) := by
  cases op with
  | kmalloc size => exact HeapOp.kmalloc_step hok hallowed
  | kfree ptr =>
    refine (HeapOp.kfree_step hok hallowed).mono fun _ _ ⟨blocks', hok', heffect⟩ => ?_
    exact ⟨blocks', hok', heffect, fun _ => id, fun _ => trivial⟩
  | write addr value =>
    refine (HeapOp.write_step hok hallowed).mono fun _ _ ⟨blocks', hok', heffect⟩ => ?_
    exact ⟨blocks', hok', heffect, fun _ => id, fun _ => trivial⟩

def bootHeap (mem answers : Nat → Nat) : HeapClient := ⟨heapInit mem answers, []⟩

theorem bootHeap_ok (mem answers : Nat → Nat) : (bootHeap mem answers).Ok [0x10000000] := by
  have hsize : (heapInit mem answers).size 0x10000000 = 4088 := by
    rw [heapInit]
    change ((Heap.setSize _ 0x10000000 4088).setFree 0x10000000 1).size _ = _
    rw [size_setFree, if_neg (by decide), size_setSize, if_pos rfl]
  have hend : (bootHeap mem answers).heap.heapEnd = 0x10001000 := rfl
  refine ⟨⟨rfl, by rw [hend], by rw [hend]; decide, by simp, ?_, fun p hp => ?_⟩, ⟨?_, fun a hlow hhigh hpage => ?_⟩,
    fun q hq => absurd hq List.not_mem_nil, List.nodup_nil⟩
  · refine tiles_singleton.mpr ⟨rfl, ?_, ?_⟩
    · rw [Heap.extent]
      omega
    · change 0x10000000 + (8 + (heapInit mem answers).size 0x10000000) = 0x10001000
      rw [hsize]
  · rw [List.mem_singleton.mp hp]
    exact congrArg (· % 4) hsize
  · change List.Perm (List.filter _ [answers 0]) (List.filter _ [answers 0] ++ [])
    rw [List.append_nil]
  · have hlow' : 0x10000000 ≤ a := hlow
    have hhigh' : a < 0x10001000 := hhigh
    obtain rfl : a = 0x10000000 := by omega
    exact List.mem_cons_self

/-- The heap after any run of its users, for any answers of the frame allocator, and the next call. A call that returns 0
has run out of space, unless all that is left to it is the last page below the ceiling. -/
theorem heap_runs_sound {mem answers : Nat → Nat} {c : HeapClient}
    (hreach : Reach (fun c op => HeapOp.Allowed c op) HeapOp.exec (bootHeap mem answers) c) :
    ∃ blocks, c.Sound blocks ∧ ∀ op : HeapOp, op.Allowed c → Runs op.exec c fun r c' =>
      ∃ blocks', c'.Sound blocks' ∧ op.Effect c blocks r c' blocks' ∧
        (op.Fair c r c' ↔ ¬ op.NeedsLastPage c blocks) := by
  have hok : ∃ blocks, c.Ok blocks := by
    refine hreach.invariant (motive := fun c => ∃ blocks, c.Ok blocks) ⟨_, bootHeap_ok mem answers⟩ ?_
    rintro c op ⟨blocks, hok⟩ hallowed
    exact (HeapOp.step hok hallowed).mono fun _ _ ⟨blocks', hok', _⟩ => ⟨blocks', hok'⟩
  obtain ⟨blocks, hok⟩ := hok
  refine ⟨blocks, hok.sound, fun op hallowed => ?_⟩
  exact (HeapOp.step hok hallowed).mono fun _ _ ⟨blocks', hok', hrest⟩ => ⟨blocks', hok'.sound, hrest⟩

theorem HeapOp.kmalloc_live {c c' : HeapClient} {size r : Nat} (hrun : (HeapOp.kmalloc size).exec c = .ok (r, c')) :
    c'.live = if r = 0 then c.live else (r, size) :: c.live := by
  simp only [HeapOp.exec] at hrun
  split at hrun
  · cases hrun
    rfl
  · cases hrun

/-- Two allocations, the first of which makes the heap grow, and a free of the first. -/
def growAndFree : Prog Unit HeapClient (Nat × Nat) := do
  let p ← (HeapOp.kmalloc 5000).exec
  let q ← (HeapOp.kmalloc 10).exec
  let _ ← (HeapOp.kfree p).exec
  pure (p, q)

theorem heap_runs_sound_grown : ∃ c, growAndFree (bootHeap (fun _ => 0) fun k => 4096 * (k + 1)) =
      .ok ((0x10000008, 0x10001398), c) ∧ c.live = [(0x10001398, 10)] ∧ c.heap.heapEnd = 0x10002000 ∧
    ∃ blocks, c.Sound blocks ∧ Runs (HeapOp.kmalloc 9000).exec c fun r c' =>
      ∃ blocks', c'.Sound blocks' ∧ (HeapOp.kmalloc 9000).Effect c blocks r c' blocks' ∧
        ((HeapOp.kmalloc 9000).Fair c r c' ↔ ¬ (HeapOp.kmalloc 9000).NeedsLastPage c blocks) := by
  have heval : (growAndFree (bootHeap (fun _ => 0) fun k => 4096 * (k + 1))).toOption.map (fun done =>
      (done.1, done.2.live, done.2.heap.heapEnd)) = some ((0x10000008, 0x10001398), [(0x10001398, 10)], 0x10002000) := by
    decide +kernel
  obtain ⟨⟨ptrs, c⟩, hrun, hresult⟩ := eq_ok_of_toOption heval
  obtain ⟨rfl, hlive, hend⟩ : ptrs = (0x10000008, 0x10001398) ∧ c.live = [(0x10001398, 10)] ∧
    c.heap.heapEnd = 0x10002000 := by simpa only [Prod.mk.injEq] using hresult
  refine ⟨c, hrun, hlive, hend, ?_⟩
  obtain ⟨p, c₁, hfirst, hnext⟩ := run_bind_eq_ok hrun
  obtain ⟨q, c₂, hsecond, hnext⟩ := run_bind_eq_ok hnext
  obtain ⟨_, c₃, hthird, hlast⟩ := run_bind_eq_ok hnext
  cases hlast
  have hone : Reach (fun c op => HeapOp.Allowed c op) HeapOp.exec (bootHeap (fun _ => 0) fun k => 4096 * (k + 1)) c₁ :=
    .tail .refl ⟨_, _, by change 5000 ≤ 4294967296 - 4; omega, hfirst⟩
  have htwo : Reach (fun c op => HeapOp.Allowed c op) HeapOp.exec (bootHeap (fun _ => 0) fun k => 4096 * (k + 1)) c₂ :=
    .tail hone ⟨_, _, by change 10 ≤ 4294967296 - 4; omega, hsecond⟩
  have hheld : (0x10000008, 5000) ∈ c₂.live := by
    rw [HeapOp.kmalloc_live hsecond, HeapOp.kmalloc_live hfirst, if_neg (by decide), if_neg (by decide)]
    exact List.mem_cons_of_mem _ List.mem_cons_self
  have hallowed : (HeapOp.kfree 0x10000008).Allowed c₂ := .inr (List.mem_map_of_mem hheld)
  have hthree := htwo.tail ⟨_, _, hallowed, hthird⟩
  obtain ⟨blocks, hsound, hstep⟩ := heap_runs_sound hthree
  exact ⟨blocks, hsound, hstep (.kmalloc 9000) (by change 9000 ≤ 4294967296 - 4; omega)⟩

/-! ### The last page -/

/-- The loop takes `n` pages while there are frames. -/
theorem mapPages_frames {n fuel i frame : Nat} {s : Heap} (hin : i + 4096 * n ≤ min s.heapEnd 0x40000000)
    (hlt : s.heapEnd < 4294967296) (hframes : ∀ k < n, s.answers (s.calls + k) ≠ 0) :
    ∃ frame' s', mapPages (fuel + n) i frame s = mapPages fuel (i + 4096 * n) frame' s' ∧ s'.heapEnd = s.heapEnd ∧
      s'.answers = s.answers ∧ s'.calls = s.calls + n := by
  induction n generalizing i frame s with
  | zero => exact ⟨frame, s, by rw [Nat.mul_zero, Nat.add_zero, Nat.add_zero], rfl, rfl, rfl⟩
  | succ n ih =>
    rw [Nat.mul_succ, ← Nat.add_assoc] at hin ⊢
    have hfirst : s.answers s.calls ≠ 0 := hframes 0 (Nat.succ_pos n)
    have hmore : i ≤ sub32 s.heapEnd pageSize ∧ i ≤ kernelCeiling.toNat - pageSize := by
      rw [kernelCeiling_sub_pageSize, sub32_pageSize (by omega) hlt]
      omega
    have hnext : add32 i pageSize = i + 4096 := add32_of_lt (by rw [show pageSize = 4096 from rfl]; omega)
    obtain ⟨frame', s', hmap, hend, hanswers, hcalls⟩ := @ih (i + 4096) (s.answers s.calls)
      (s.mapKernelPage i frame).allocFrame.2 (by change i + 4096 + 4096 * n ≤ min s.heapEnd 0x40000000; omega) hlt fun k hk => by
        change s.answers (s.calls + 1 + k) ≠ 0
        rw [Nat.add_assoc, Nat.add_comm 1 k]
        exact hframes (k + 1) (by omega)
    refine ⟨frame', s', ?_, hend, hanswers, ?_⟩
    · rw [← Nat.add_assoc, mapPages, if_pos hmore, hnext]
      dsimp only [Heap.allocFrame, Heap.mapKernelPage] at hmap ⊢
      rw [if_neg hfirst, hmap, Nat.add_right_comm]
    · rw [hcalls]
      change s.calls + 1 + n = _
      omega

theorem settle_end {frame : Nat} {s : Heap} (hend : s.heapEnd ≤ 0x40000000) :
    (settle frame s).heapEnd = s.heapEnd ∧ (settle frame s).calls = s.calls := by
  have hlow : ¬ kernelCeiling.toNat < s.heapEnd := Nat.not_lt.mpr hend
  rw [settle, if_neg hlow]
  split
  · exact ⟨rfl, rfl⟩
  · exact ⟨rfl, rfl⟩

theorem growHeap_end {frame frame' : Nat} {s s₁ s' : Heap} {blocks : List Nat} (hinv : s.Inv blocks)
    (hmap : mapPages (kernelCeiling.toNat / pageSize) s.heapEnd frame
      { s with heapEnd := s.heapEnd + (s.heapEnd - s.heapStart) } = some (frame', s₁))
    (hend : s₁.heapEnd ≤ 0x40000000) (hgrow : growHeap s frame (blocks.getLast?.or none) = some s') :
    s'.heapEnd = s₁.heapEnd ∧ s'.calls = s₁.calls := by
  obtain ⟨xs, h, rfl⟩ : ∃ xs h, blocks = xs ++ [h] :=
    ⟨_, _, (List.dropLast_append_getLast hinv.nonempty).symm⟩
  rw [growHeap_eq hinv, hmap, Option.bind_some] at hgrow
  rw [addSpace_same] at hgrow
  cases hgrow
  exact settle_end hend

/-- With a frame for every page the heap doubles. -/
theorem growHeap_doubles {frame n : Nat} {s s' : Heap} {blocks : List Nat} (hinv : s.Inv blocks)
    (hsize : s.heapEnd = s.heapStart + 4096 * n) (hroom : s.heapEnd + 4096 * n ≤ 0x40000000)
    (hframes : ∀ k < n, s.answers (s.calls + k) ≠ 0)
    (hgrow : growHeap s frame (blocks.getLast?.or none) = some s') :
    s'.heapEnd = s.heapEnd + 4096 * n ∧ s'.calls = s.calls + n := by
  have hgoal : s.heapEnd + (s.heapEnd - s.heapStart) = s.heapEnd + 4096 * n := by omega
  obtain ⟨fuel, hfuel⟩ : ∃ fuel, kernelCeiling.toNat / pageSize = fuel + 1 + n :=
    ⟨262143 - n, by change 262144 = _; omega⟩
  obtain ⟨frame', s₁, hmap, hend, -, hcalls⟩ := @mapPages_frames n (fuel + 1) s.heapEnd frame
    { s with heapEnd := s.heapEnd + 4096 * n } (le_min le_rfl hroom) (by change s.heapEnd + 4096 * n < 4294967296; omega) hframes
  have hend' : s₁.heapEnd = s.heapEnd + 4096 * n := hend
  have hstop : ¬ (s.heapEnd + 4096 * n ≤ sub32 s₁.heapEnd pageSize ∧
      s.heapEnd + 4096 * n ≤ kernelCeiling.toNat - pageSize) := by
    have hstart := hinv.start
    rw [hend', sub32_pageSize (by omega) (by omega)]
    omega
  rw [mapPages, if_neg hstop, ← hfuel, ← hgoal] at hmap
  rw [← hend', ← show s₁.calls = s.calls + n from hcalls]
  exact growHeap_end hinv hmap (by rw [hend']; exact hroom) hgrow

/-- Without a frame after `n` more pages the heap ends there. -/
theorem growHeap_stops {frame n : Nat} {s s' : Heap} {blocks : List Nat} (hinv : s.Inv blocks)
    (hgoal : 4096 * n + 4096 ≤ s.heapEnd - s.heapStart) (hroom : s.heapEnd + 4096 * n + 4096 ≤ 0x40000000)
    (hframes : ∀ k < n, s.answers (s.calls + k) ≠ 0) (hgone : s.answers (s.calls + n) = 0)
    (hgrow : growHeap s frame (blocks.getLast?.or none) = some s') :
    s'.heapEnd = s.heapEnd + 4096 * n + 4096 ∧ s'.calls = s.calls + n + 1 := by
  have hlow := hinv.start
  obtain ⟨fuel, hfuel⟩ : ∃ fuel, kernelCeiling.toNat / pageSize = fuel + 1 + n :=
    ⟨262143 - n, by change 262144 = _; omega⟩
  obtain ⟨frame', s₁, hmap, hend, hanswers, hcalls⟩ := @mapPages_frames n (fuel + 1) s.heapEnd frame
    { s with heapEnd := s.heapEnd + (s.heapEnd - s.heapStart) }
    (by change s.heapEnd + 4096 * n ≤ min (s.heapEnd + (s.heapEnd - s.heapStart)) 0x40000000; omega)
    (by change s.heapEnd + (s.heapEnd - s.heapStart) < 4294967296; omega) hframes
  have hend' : s₁.heapEnd = s.heapEnd + (s.heapEnd - s.heapStart) := hend
  have hmore : s.heapEnd + 4096 * n ≤ sub32 s₁.heapEnd pageSize ∧
      s.heapEnd + 4096 * n ≤ kernelCeiling.toNat - pageSize := by
    rw [hend', kernelCeiling_sub_pageSize, sub32_pageSize (by omega) (by omega)]
    omega
  have hnext : add32 (s.heapEnd + 4096 * n) pageSize = s.heapEnd + 4096 * n + 4096 := add32_of_lt (by
    rw [show pageSize = 4096 from rfl]
    omega)
  have hnone : s₁.answers s₁.calls = 0 := by
    rw [hanswers, hcalls]
    exact hgone
  rw [mapPages, if_pos hmore, hnext, ← hfuel] at hmap
  dsimp only [Heap.allocFrame, Heap.mapKernelPage] at hmap
  rw [if_pos hnone] at hmap
  obtain ⟨hend₂, hcalls₂⟩ := growHeap_end hinv hmap hroom hgrow
  refine ⟨hend₂, hcalls₂.trans ?_⟩
  change s₁.calls + 1 = _
  rw [hcalls]

/-- The frame allocator has 196623 frames at first, and one more after it has answered that it has none. -/
def ranOut (k : Nat) : Nat := if k = 196624 then 0 else 0x1000 * (k + 1)

theorem ranOut_ne_zero {k : Nat} (hk : k ≠ 196624) : ranOut k ≠ 0 := by
  rw [ranOut, if_neg hk]
  omega

theorem noneFits_of_lt {s : Heap} {blocks : List Nat} {size : Nat} (hinv : s.Inv blocks)
    (hsize : s.heapEnd < 0x10000000 + 8 + size) : s.NoneFits blocks size := by
  intro h hh _
  have := hinv.bounds hh
  omega

/-- One growth of a call that no block of the heap can serve. -/
theorem kmallocFrom_grows {fuel size : Nat} {s : Heap} {blocks : List Nat} (hinv : s.Inv blocks)
    (hframes : s.Frames [] s.heapEnd) (hsize : size ≤ 4294967296 - 4) (hnone : s.NoneFits blocks size)
    (hroom : s.heapEnd < 0x40000000 - 4096) (hframe : s.answers s.calls ≠ 0) :
    ∃ s₁ blocks₁, kmallocFrom (fuel + 1) size s = kmallocFrom fuel size s₁ ∧
      growHeap s.allocFrame.2 (s.answers s.calls) (blocks.getLast?.or none) = some s₁ ∧ s₁.Inv blocks₁ ∧
      s₁.Frames [] s₁.heapEnd ∧ s₁.answers = s.answers := by
  have hheld := hframes.alloc
  rw [if_pos hframe] at hheld
  obtain ⟨s₁, blocks₁, hgrow, hinv₁, -, -, hframes₁, hanswers₁, -⟩ := growHeap_spec hinv.alloc hroom hframe hheld
  refine ⟨s₁, blocks₁, ?_, hgrow, hinv₁, hframes₁, hanswers₁⟩
  rw [kmallocFrom_missed (scan_missed hinv hsize hnone), if_pos hroom, if_pos hframe, hgrow, Option.bind_some]

/-- The heap has doubled `j` times, with a frame left over each time. -/
structure Doubled (j : Nat) (s : Heap) (blocks : List Nat) : Prop where
  inv : s.Inv blocks
  frames : s.Frames [] s.heapEnd
  answers : s.answers = ranOut
  heapEnd : s.heapEnd = 0x10000000 + 4096 * 2 ^ j
  calls : s.calls = 2 ^ j + j

theorem Doubled.next {j fuel : Nat} {s : Heap} {blocks : List Nat} (hs : Doubled j s blocks) (hj : j < 17) :
    ∃ s₁ blocks₁, kmallocFrom (fuel + 1) 0x2FFFF000 s = kmallocFrom fuel 0x2FFFF000 s₁ ∧ Doubled (j + 1) s₁ blocks₁ := by
  have hpow : 2 ^ j ≤ 2 ^ 16 := Nat.pow_le_pow_right (by decide) (by omega)
  have hend := hs.heapEnd
  have hcalls := hs.calls
  have hanswer : ∀ k ≤ 2 ^ j, s.answers (s.calls + k) ≠ 0 := fun k hk => by
    rw [hs.answers]
    exact ranOut_ne_zero (by omega)
  obtain ⟨s₁, blocks₁, hrun, hgrow, hinv₁, hframes₁, hanswers₁⟩ := @kmallocFrom_grows fuel 0x2FFFF000 _ _
    hs.inv hs.frames (by decide) (noneFits_of_lt hs.inv (by omega)) (by omega) (hanswer 0 (Nat.zero_le _))
  have hstart : s.heapStart = 0x10000000 := hs.inv.start
  obtain ⟨hend₁, hcalls₁⟩ := growHeap_doubles (n := 2 ^ j) hs.inv.alloc (by change s.heapEnd = s.heapStart + _; omega)
    (by change s.heapEnd + _ ≤ _; omega) (fun k hk => by
      change s.answers (s.calls + 1 + k) ≠ 0
      rw [Nat.add_assoc, Nat.add_comm 1 k]
      exact hanswer (k + 1) hk) hgrow
  change s₁.heapEnd = s.heapEnd + _ at hend₁
  change s₁.calls = s.calls + 1 + _ at hcalls₁
  refine ⟨s₁, blocks₁, hrun, hinv₁, hframes₁, hanswers₁.trans hs.answers, ?_, ?_⟩
  · rw [pow_succ]
    omega
  · rw [pow_succ]
    omega

/-- The growth that would reach the ceiling ends one page below it. -/
theorem Doubled.last {fuel : Nat} {s : Heap} {blocks : List Nat} (hs : Doubled 17 s blocks) :
    ∃ s' blocks', kmallocFrom (fuel + 2) 0x2FFFF000 s = some (0, s') ∧ s'.Inv blocks' ∧
      s'.heapEnd = 0x40000000 - 4096 ∧ s'.calls = 196625 ∧ s'.answers = ranOut := by
  have hend : s.heapEnd = 0x30000000 := hs.heapEnd
  have hcalls : s.calls = 131089 := hs.calls
  have hstart : s.heapStart = 0x10000000 := hs.inv.start
  have hanswer : ∀ k < 65535, s.answers (s.calls + k) ≠ 0 := fun k hk => by
    rw [hs.answers, hcalls]
    exact ranOut_ne_zero (by omega)
  have hgone : s.answers (s.calls + 1 + 65534) = 0 := by
    rw [hs.answers, hcalls, ranOut, if_pos (by decide)]
  obtain ⟨s₁, blocks₁, hrun, hgrow, hinv₁, -, hanswers₁⟩ := @kmallocFrom_grows (fuel + 1) 0x2FFFF000 _ _ hs.inv hs.frames
    (by decide) (noneFits_of_lt hs.inv (by omega)) (by omega) (hanswer 0 (by decide))
  obtain ⟨hend₁, hcalls₁⟩ := growHeap_stops (n := 65534) hs.inv.alloc (by change _ ≤ s.heapEnd - s.heapStart; omega)
    (by change s.heapEnd + _ + _ ≤ _; omega) (fun k hk => by
      change s.answers (s.calls + 1 + k) ≠ 0
      rw [Nat.add_assoc, Nat.add_comm 1 k]
      exact hanswer (k + 1) (by omega)) hgone hgrow
  have hlast : s₁.heapEnd = 0x40000000 - 4096 := hend₁.trans (by change s.heapEnd + _ + _ = _; omega)
  have hmade : s₁.calls = 196625 := hcalls₁.trans (by change s.calls + 1 + _ + _ = _; omega)
  refine ⟨s₁, blocks₁, ?_, hinv₁, hlast, hmade, hanswers₁.trans hs.answers⟩
  rw [hrun]
  exact kmallocFrom_lastPage hinv₁ (by decide) (noneFits_of_lt hinv₁ (by omega)) hlast

/-- A request that needs every page, with as many doublings `left` as the frames allow. -/
theorem Doubled.run {j left fuel : Nat} {s : Heap} {blocks : List Nat} (hs : Doubled j s blocks) (hj : j + left = 17) :
    ∃ s' blocks', kmallocFrom (fuel + 2 + left) 0x2FFFF000 s = some (0, s') ∧ s'.Inv blocks' ∧
      s'.heapEnd = 0x40000000 - 4096 ∧ s'.calls = 196625 ∧ s'.answers = ranOut := by
  induction left generalizing j s blocks with
  | zero =>
    obtain rfl : j = 17 := hj
    exact hs.last
  | succ left ih =>
    obtain ⟨s₁, blocks₁, hrun, hs₁⟩ := @Doubled.next j (fuel + 2 + left) s blocks hs (by omega)
    rw [← Nat.add_assoc, hrun]
    exact ih hs₁ (by omega)

/-- The first call takes all pages but one, for want of a frame. When there is a frame again, the same request fails at
once: the heap does not grow into its last page alone, although the request would fit then. -/
theorem kmalloc_leaves_last_page : ∃ c c', (HeapOp.kmalloc 0x2FFFF000).exec (bootHeap (fun _ => 0) ranOut) = .ok (0, c) ∧
    (HeapOp.kmalloc 0x2FFFF000).exec c = .ok (0, c') ∧ c'.live = [] ∧
      c'.heap.heapEnd + pageSize = kernelCeiling.toNat ∧ c'.heap.answers c'.heap.calls ≠ 0 ∧
      c'.heap.heapStart + 8 + 0x2FFFF000 ≤ kernelCeiling.toNat ∧ ¬ (HeapOp.kmalloc 0x2FFFF000).Fair c 0 c' := by
  have hok := bootHeap_ok (fun _ => 0) ranOut
  have hboot : Doubled 0 (bootHeap (fun _ => 0) ranOut).heap [0x10000000] := ⟨hok.inv, hok.frames, rfl, rfl, rfl⟩
  obtain ⟨s, blocks, hfirst, hinv, hend, hcalls, hanswers⟩ := @Doubled.run 0 17 262125 _ _ hboot rfl
  have hsecond : kmalloc 0x2FFFF000 s = some (0, s) := by
    rw [kmalloc, show kernelCeiling.toNat / pageSize = 262143 + 1 from rfl]
    exact kmallocFrom_lastPage hinv (by decide) (noneFits_of_lt hinv (by omega)) hend
  have hframe : s.answers s.calls ≠ 0 := by
    rw [hanswers, hcalls]
    exact ranOut_ne_zero (by decide)
  refine ⟨⟨s, []⟩, ⟨s, []⟩, ?_, ?_, rfl, ?_, hframe, ?_, fun hfair => ?_⟩
  · have hrun : kmalloc 0x2FFFF000 (bootHeap (fun _ => 0) ranOut).heap = some (0, s) := by
      rw [kmalloc, show kernelCeiling.toNat / pageSize = 262125 + 2 + 17 from rfl, hfirst]
    rw [HeapOp.exec_kmalloc hrun, if_pos rfl]
    rfl
  · rw [HeapOp.exec_kmalloc hsecond, if_pos rfl]
  · change s.heapEnd + 4096 = 0x40000000
    omega
  · change s.heapStart + 8 + 0x2FFFF000 ≤ 0x40000000
    rw [hinv.start]
    decide
  · obtain htop | hgone := hfair rfl
    · exact absurd (htop.symm.trans hend) (by decide)
    · rw [Nat.max_eq_left (Nat.sub_le _ _)] at hgone
      exact hframe hgone

end DeprecatOS
