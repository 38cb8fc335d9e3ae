import DeprecatOS.Paging
import DeprecatOS.Lib.Fault

/-!
# The page tables refine a page map

The directory and its tables stand for a map from virtual pages to mappings. A table is a frame that
was free when it was taken, so it is neither the directory nor another table, and a write to one entry
moves the translation of one page.
-/

namespace DeprecatOS

open Fault

/-! ### Words -/

theorem or_and_distrib (x y m : UInt32) : (x ||| y) &&& m = (x &&& m) ||| (y &&& m) := by
  rw [← UInt32.toNat_inj]
  simp [Nat.and_or_distrib_right]

def PageAligned (word : UInt32) : Prop := word &&& 0xFFF = 0

instance (word : UInt32) : Decidable (PageAligned word) := inferInstanceAs (Decidable (_ = _))

theorem PageAligned.and_low {word m : UInt32} (hword : PageAligned word) (hm : 0xFFF &&& m = m) :
    word &&& m = 0 := by
  rw [← hm, ← UInt32.and_assoc, show word &&& 0xFFF = 0 from hword, UInt32.zero_and]

theorem PageAligned.entryFrame_or {word low : UInt32} (hword : PageAligned word)
    (hlow : low < 0x1000) : entryFrame (word ||| low) = word := by
  have hmask : low &&& ~~~0xFFF = 0 := by
    have hle : low.toNat < 2 ^ 12 := UInt32.lt_iff_toNat_lt.mp hlow
    have hself : low &&& 0xFFF = low := by
      rw [← UInt32.toNat_inj, UInt32.toNat_and]
      exact (Nat.and_two_pow_sub_one_eq_mod low.toNat 12).trans (Nat.mod_eq_of_lt hle)
    rw [← hself, UInt32.and_assoc, UInt32.and_not_self, UInt32.and_zero]
  have hhigh : word &&& ~~~0xFFF = word := by
    calc word &&& ~~~0xFFF
        = (0xFFF &&& word) ||| (~~~0xFFF &&& word) := by
          rw [UInt32.and_comm 0xFFF, show word &&& 0xFFF = 0 from hword, UInt32.zero_or, UInt32.and_comm]
      _ = word := by
          rw [← or_and_distrib, show (0xFFF : UInt32) ||| ~~~0xFFF = -1 by decide, UInt32.neg_one_and]
  rw [entryFrame, or_and_distrib, hmask, hhigh, UInt32.or_zero]

theorem or_and_ne_zero {x y m : UInt32} (hy : y &&& m ≠ 0) : (x ||| y) &&& m ≠ 0 := by
  rw [or_and_distrib]
  exact fun hzero => hy (UInt32.or_eq_zero_iff.mp hzero).2

theorem entryFrame_or_user (entry : UInt32) : entryFrame (entry ||| pageUser) = entryFrame entry := by
  rw [entryFrame, or_and_distrib, show pageUser &&& ~~~0xFFF = 0 by decide, UInt32.or_zero, entryFrame]

theorem or_user_present (entry : UInt32) : (entry ||| pageUser) &&& pagePresent = entry &&& pagePresent := by
  rw [or_and_distrib, show pageUser &&& pagePresent = 0 by decide, UInt32.or_zero]

/-! ### Frames -/

namespace FrameBitmap

theorem used_eq (bm : FrameBitmap) (f : Nat) :
    bm.used f = (bm (f / 32)).toBitVec.getLsbD (f % 32) := by
  have hlt : f % 32 < 32 := Nat.mod_lt _ (by omega)
  have hbit : ((bm (f / 32) >>> UInt32.ofNat (f % 32)) &&& 1 ≠ 0) ↔
      (bm (f / 32)).toNat.testBit (f % 32) = true := by
    rw [Ne, ← UInt32.toNat_inj, UInt32.toNat_and, UInt32.toNat_shiftRight, UInt32.toNat_ofNat',
      Nat.mod_eq_of_lt (by omega : f % 32 < 2 ^ 32), Nat.mod_eq_of_lt hlt, Nat.testBit]
    simp [Nat.and_comm]
  rw [used, Bool.decide_congr hbit, Bool.decide_eq_true, ← BitVec.testBit_toNat]
  rfl

theorem getLsbD_one_shiftLeft {b : Nat} (hb : b < 32) (j : Nat) :
    ((1 : UInt32) <<< UInt32.ofNat b).toBitVec.getLsbD j = decide (b = j) := by
  rw [← BitVec.testBit_toNat]
  change ((1 : UInt32) <<< UInt32.ofNat b).toNat.testBit j = _
  rw [UInt32.toNat_shiftLeft, UInt32.toNat_ofNat', Nat.mod_eq_of_lt (by omega : b < 2 ^ 32),
    Nat.mod_eq_of_lt hb, UInt32.toNat_one, Nat.one_shiftLeft,
    Nat.mod_eq_of_lt (Nat.pow_lt_pow_right (by omega) hb), Nat.testBit_two_pow]

@[simp]
theorem used_take (bm : FrameBitmap) (f g : Nat) : (bm.take f).used g = (decide (g = f) || bm.used g) := by
  rw [used_eq, used_eq, take]
  by_cases hword : g / 32 = f / 32
  · rw [hword, Function.update_self, UInt32.toBitVec_or, BitVec.getLsbD_or,
      getLsbD_one_shiftLeft (Nat.mod_lt _ (by omega)), Bool.or_comm]
    congr 1
    exact Bool.decide_congr (by omega)
  · have hne : g ≠ f := fun heq => hword (by rw [heq])
    rw [Function.update_of_ne hword, decide_eq_false hne, Bool.false_or]

@[simp]
theorem used_drop (bm : FrameBitmap) (f g : Nat) : (bm.drop f).used g = (!decide (g = f) && bm.used g) := by
  have hlt : g % 32 < 32 := Nat.mod_lt _ (by omega)
  rw [used_eq, used_eq, drop]
  by_cases hword : g / 32 = f / 32
  · rw [hword, Function.update_self, UInt32.toBitVec_and, BitVec.getLsbD_and, UInt32.toBitVec_not,
      BitVec.getLsbD_not, getLsbD_one_shiftLeft (Nat.mod_lt _ (by omega)), decide_eq_true hlt,
      Bool.true_and, Bool.and_comm]
    congr 2
    exact Bool.decide_congr (by omega)
  · have hne : g ≠ f := fun heq => hword (by rw [heq])
    rw [Function.update_of_ne hword, decide_eq_false hne, Bool.not_false, Bool.true_and]

end FrameBitmap

theorem clearInWord_some {bm : FrameBitmap} {i fuel b f : Nat}
    (hfind : clearInWord bm i fuel b = some f) : bm.used f = false ∧ f < i * 32 + b + fuel := by
  induction fuel generalizing b with
  | zero => cases hfind
  | succ fuel ih =>
    rw [clearInWord] at hfind
    split at hfind
    · obtain ⟨hfree, hlt⟩ := ih hfind
      exact ⟨hfree, by omega⟩
    · next hfree =>
      cases hfind
      exact ⟨Bool.eq_false_of_not_eq_true hfree, by omega⟩

theorem clearFrame_some {bm : FrameBitmap} {fuel i f : Nat} (hfind : clearFrame bm fuel i = some f) :
    bm.used f = false ∧ f < (i + fuel) * 32 := by
  induction fuel generalizing i with
  | zero => cases hfind
  | succ fuel ih =>
    have hlater : clearFrame bm fuel (i + 1) = some f → bm.used f = false ∧ f < (i + (fuel + 1)) * 32 := by
      intro hrest
      obtain ⟨hfree, hlt⟩ := ih hrest
      exact ⟨hfree, by omega⟩
    rw [clearFrame] at hfind
    split at hfind
    · split at hfind
      · next hword =>
        cases hfind
        obtain ⟨hfree, hlt⟩ := clearInWord_some hword
        exact ⟨hfree, by omega⟩
      · exact hlater hfind
    · exact hlater hfind

def frameIndex (addr : UInt32) : Nat := (addr >>> 12).toNat

theorem frameIndex_eq (addr : UInt32) : frameIndex addr = addr.toNat / 4096 := by
  rw [frameIndex, UInt32.toNat_shiftRight, show (12 : UInt32).toNat % 32 = 12 by decide,
    Nat.shiftRight_eq_div_pow]

theorem used_freeFrame {bm : FrameBitmap} {addr : UInt32} {f : Nat} (hne : f ≠ frameIndex addr)
    (hf : bm.used f = true) : (freeFrame bm addr).used f = true := by
  have hne' : f ≠ (addr >>> 12).toNat := hne
  rw [freeFrame, FrameBitmap.used_drop, hf, decide_eq_false hne']
  rfl

theorem allocFrame_spec (bm : FrameBitmap) :
    (∀ g, bm.used g = true → (allocFrame bm).2.used g = true) ∧
      ((allocFrame bm).1 ≠ 0 → PageAligned (allocFrame bm).1 ∧
        bm.used (frameIndex (allocFrame bm).1) = false ∧
        (allocFrame bm).2 = bm.take (frameIndex (allocFrame bm).1)) := by
  cases hfind : clearFrame bm frameBitmapLength 0 with
  | none =>
    rw [allocFrame, hfind]
    exact ⟨fun g hg => hg, fun hne => absurd rfl hne⟩
  | some f =>
    obtain ⟨hfree, hlt⟩ := clearFrame_some hfind
    have hbound : f < 2 ^ 20 := by
      rw [show frameBitmapLength = 32768 from rfl] at hlt
      omega
    have haddr : (UInt32.ofNat f * frameSizeBytes).toNat = f * 4096 := by
      rw [UInt32.toNat_mul, UInt32.toNat_ofNat', show frameSizeBytes.toNat = 4096 by decide]
      omega
    have hindex : frameIndex (UInt32.ofNat f * frameSizeBytes) = f := by
      rw [frameIndex_eq, haddr]
      omega
    rw [allocFrame, hfind]
    refine ⟨fun g hg => ?_, fun _ => ⟨?_, ?_, ?_⟩⟩
    · rw [FrameBitmap.used_take, hg, Bool.or_true]
    · rw [PageAligned, ← UInt32.toNat_inj, UInt32.toNat_and, haddr]
      exact (Nat.and_two_pow_sub_one_eq_mod (f * 4096) 12).trans (Nat.mul_mod_left f 4096)
    · rw [hindex]
      exact hfree
    · rw [hindex]

/-! ### Memory -/

@[simp]
theorem Paging.store_mem (s : Paging) (frame a : UInt32) (idx i : Nat) (word : UInt32) :
    (s.store frame idx word).mem a i = if a = frame ∧ i = idx then word else s.mem a i := by
  rw [Paging.store]
  by_cases hframe : a = frame
  · by_cases hidx : i = idx
    · simp [hframe, hidx]
    · simp [hframe, hidx]
  · simp [hframe]

@[simp]
theorem Paging.store_kernelDir (s : Paging) (frame : UInt32) (idx : Nat) (word : UInt32) :
    (s.store frame idx word).kernelDir = s.kernelDir := rfl

theorem dirIndex_eq (virt : UInt32) : dirIndex virt = virt.toNat / 2 ^ 22 := by
  rw [dirIndex, UInt32.toNat_shiftRight, show (22 : UInt32).toNat % 32 = 22 by decide,
    Nat.shiftRight_eq_div_pow]

theorem tableIndex_eq (virt : UInt32) : tableIndex virt = virt.toNat / 2 ^ 12 % 1024 := by
  rw [tableIndex, UInt32.toNat_and, UInt32.toNat_shiftRight, show (12 : UInt32).toNat % 32 = 12 by decide,
    Nat.shiftRight_eq_div_pow]
  exact Nat.and_two_pow_sub_one_eq_mod _ 10

theorem dirIndex_lt (virt : UInt32) : dirIndex virt < 1024 := by
  have hlt := virt.toNat_lt
  rw [dirIndex_eq]
  omega

theorem tableIndex_lt (virt : UInt32) : tableIndex virt < 1024 := by
  rw [tableIndex_eq]
  omega

def pageOf (virt : UInt32) : UInt32 := virt >>> 12

theorem pageOf_eq_iff (v w : UInt32) :
    pageOf v = pageOf w ↔ dirIndex v = dirIndex w ∧ tableIndex v = tableIndex w := by
  have hpage : ∀ x : UInt32, (pageOf x).toNat = x.toNat / 2 ^ 12 := fun x => by
    rw [pageOf, UInt32.toNat_shiftRight, show (12 : UInt32).toNat % 32 = 12 by decide,
      Nat.shiftRight_eq_div_pow]
  rw [← UInt32.toNat_inj, hpage, hpage, dirIndex_eq, dirIndex_eq, tableIndex_eq, tableIndex_eq]
  omega

/-! ### Well-formed tables -/

structure Paging.Wf (s : Paging) : Prop where
  dirUsed : s.frameBitmap.used (frameIndex s.kernelDir) = true
  tableUsed : ∀ di < 1024, s.HasTable di → s.frameBitmap.used (frameIndex (s.table di)) = true
  tableLow : ∀ di < 1024, s.HasTable di → s.table di ≠ 0 ∧ s.table di < heapStart
  tableNeDir : ∀ di < 1024, s.HasTable di → s.table di ≠ s.kernelDir
  apart : ∀ di < 1024, ∀ dj < 1024, s.HasTable di → s.HasTable dj → s.table di = s.table dj → di = dj
  -- the user bit of a directory entry covers the pages below it
  user : ∀ virt entry, s.entry virt = some entry → entry &&& pageUser ≠ 0 →
    s.dirEntry (dirIndex virt) &&& pageUser ≠ 0

theorem Paging.entry_eq_none {s : Paging} {virt : UInt32} (hnone : ¬ s.HasTable (dirIndex virt)) :
    s.entry virt = none := by
  rw [Paging.entry, if_neg hnone]

theorem Paging.entry_eq {s : Paging} {virt : UInt32} (hhas : s.HasTable (dirIndex virt)) :
    s.entry virt = if s.mem (s.table (dirIndex virt)) (tableIndex virt) &&& pagePresent ≠ 0
      then some (s.mem (s.table (dirIndex virt)) (tableIndex virt)) else none := by
  rw [Paging.entry, if_pos hhas]

theorem Paging.hasTable_of_entry {s : Paging} {virt entry : UInt32} (hentry : s.entry virt = some entry) :
    s.HasTable (dirIndex virt) := by
  by_contra hnone
  rw [Paging.entry_eq_none hnone] at hentry
  cases hentry

theorem Paging.Wf.userReachable_eq {s : Paging} (hwf : s.Wf) (virt : UInt32) :
    s.userReachable virt = (s.entry virt).any fun entry => entry &&& pageUser ≠ 0 := by
  rw [Paging.userReachable]
  cases hentry : s.entry virt with
  | none => rw [Option.any_none, Bool.and_false]
  | some entry =>
    by_cases huser : entry &&& pageUser ≠ 0
    · simp [huser, hwf.user virt entry hentry huser]
    · simp [not_not.mp huser]

theorem Paging.Wf.of_frames {s : Paging} (hwf : s.Wf) {bm : FrameBitmap}
    (hdir : bm.used (frameIndex s.kernelDir) = true)
    (htable : ∀ di < 1024, s.HasTable di → bm.used (frameIndex (s.table di)) = true) :
    Paging.Wf { s with frameBitmap := bm } where
  dirUsed := hdir
  tableUsed := htable
  tableLow := hwf.tableLow
  tableNeDir := hwf.tableNeDir
  apart := hwf.apart
  user := hwf.user

theorem Paging.Wf.of_tables {s s' : Paging} (hwf : s.Wf) (hframes : s'.frameBitmap = s.frameBitmap)
    (hdir : s'.kernelDir = s.kernelDir) (hhas : ∀ di, s'.HasTable di → s.HasTable di)
    (htable : ∀ di, s'.table di = s.table di)
    (huser : ∀ virt entry, s'.entry virt = some entry → entry &&& pageUser ≠ 0 →
      s'.dirEntry (dirIndex virt) &&& pageUser ≠ 0) : s'.Wf where
  dirUsed := by
    rw [hframes, hdir]
    exact hwf.dirUsed
  tableUsed di hdi h := by
    rw [hframes, htable]
    exact hwf.tableUsed di hdi (hhas di h)
  tableLow di hdi h := by
    rw [htable]
    exact hwf.tableLow di hdi (hhas di h)
  tableNeDir di hdi h := by
    rw [htable, hdir]
    exact hwf.tableNeDir di hdi (hhas di h)
  apart di hdi dj hdj hi hj := by
    rw [htable, htable]
    exact hwf.apart di hdi dj hdj (hhas di hi) (hhas dj hj)
  user := huser

def Paging.withTable (s : Paging) (bm : FrameBitmap) (di : Nat) (table : UInt32) : Paging :=
  (Paging.clearTable { s with frameBitmap := bm } table).store s.kernelDir di
    (table ||| pagePresent ||| pageRw)

section NewTable

variable {s : Paging} {bm : FrameBitmap} {di : Nat} {table : UInt32}

theorem dirEntry_withTable (hne : table ≠ s.kernelDir) (dj : Nat) :
    (s.withTable bm di table).dirEntry dj =
      if dj = di then table ||| pagePresent ||| pageRw else s.dirEntry dj := by
  rw [Paging.dirEntry, Paging.withTable, Paging.store_mem, Paging.store_kernelDir]
  by_cases heq : dj = di
  · rw [if_pos ⟨rfl, heq⟩, if_pos heq]
  · rw [if_neg (fun h => heq h.2), if_neg heq, Paging.clearTable]
    change Function.update s.mem table _ s.kernelDir dj = s.dirEntry dj
    rw [Function.update_of_ne hne.symm]
    rfl

theorem hasTable_withTable (hne : table ≠ s.kernelDir) (dj : Nat) :
    (s.withTable bm di table).HasTable dj ↔ dj = di ∨ s.HasTable dj := by
  rw [Paging.HasTable, dirEntry_withTable hne]
  by_cases heq : dj = di
  · rw [if_pos heq, UInt32.or_assoc]
    exact ⟨fun _ => .inl heq, fun _ => or_and_ne_zero (by decide)⟩
  · rw [if_neg heq]
    exact ⟨.inr, fun h => h.resolve_left heq⟩

theorem table_withTable (haligned : PageAligned table) (hne : table ≠ s.kernelDir) (dj : Nat) :
    (s.withTable bm di table).table dj = if dj = di then table else s.table dj := by
  rw [Paging.table, dirEntry_withTable hne]
  by_cases heq : dj = di
  · rw [if_pos heq, if_pos heq, UInt32.or_assoc, haligned.entryFrame_or (by decide)]
  · rw [if_neg heq, if_neg heq, Paging.table]

theorem entry_withTable (hwf : s.Wf) (hnew : ¬ s.HasTable di) (haligned : PageAligned table)
    (hfree : s.frameBitmap.used (frameIndex table) = false) (virt : UInt32) :
    (s.withTable bm di table).entry virt = s.entry virt := by
  have hne : table ≠ s.kernelDir := by
    rintro rfl
    exact absurd hwf.dirUsed (by rw [hfree]; decide)
  by_cases heq : dirIndex virt = di
  · have hnone : ¬ s.HasTable (dirIndex virt) := by
      rw [heq]
      exact hnew
    have hzero : (s.withTable bm di table).mem table (tableIndex virt) = 0 := by
      rw [Paging.withTable, Paging.store_mem, if_neg (fun h => hne h.1), Paging.clearTable]
      change Function.update s.mem table _ table (tableIndex virt) = 0
      rw [Function.update_self, if_pos (tableIndex_lt virt)]
    rw [Paging.entry_eq_none hnone, Paging.entry_eq ((hasTable_withTable hne _).mpr (.inl heq)),
      table_withTable haligned hne, if_pos heq, hzero]
    rfl
  · by_cases hhas : s.HasTable (dirIndex virt)
    · have hother : s.table (dirIndex virt) ≠ table := by
        rintro rfl
        exact absurd (hwf.tableUsed _ (dirIndex_lt virt) hhas) (by rw [hfree]; decide)
      have hnedir := hwf.tableNeDir _ (dirIndex_lt virt) hhas
      have hmem : (s.withTable bm di table).mem (s.table (dirIndex virt)) (tableIndex virt) =
          s.mem (s.table (dirIndex virt)) (tableIndex virt) := by
        rw [Paging.withTable, Paging.store_mem, if_neg (fun h => hnedir h.1), Paging.clearTable]
        change Function.update s.mem table _ (s.table (dirIndex virt)) _ = _
        rw [Function.update_of_ne hother]
      rw [Paging.entry_eq hhas, Paging.entry_eq ((hasTable_withTable hne _).mpr (.inr hhas)),
        table_withTable haligned hne, if_neg heq, hmem]
    · have hstill : ¬ (s.withTable bm di table).HasTable (dirIndex virt) := fun h =>
        hhas (((hasTable_withTable hne _).mp h).resolve_left heq)
      rw [Paging.entry_eq_none hhas, Paging.entry_eq_none hstill]

theorem wf_withTable (hwf : s.Wf) (hnew : ¬ s.HasTable di) (haligned : PageAligned table)
    (hfree : s.frameBitmap.used (frameIndex table) = false) (hlow : table ≠ 0 ∧ table < heapStart)
    (hbm : bm = s.frameBitmap.take (frameIndex table)) : (s.withTable bm di table).Wf := by
  have hne : table ≠ s.kernelDir := by
    rintro rfl
    exact absurd hwf.dirUsed (by rw [hfree]; decide)
  have hframes : (s.withTable bm di table).frameBitmap = s.frameBitmap.take (frameIndex table) := hbm
  have hdir : (s.withTable bm di table).kernelDir = s.kernelDir := rfl
  have hold : ∀ dj < 1024, s.HasTable dj → s.table dj ≠ table := by
    rintro dj hdj hhas rfl
    exact absurd (hwf.tableUsed dj hdj hhas) (by rw [hfree]; decide)
  refine ⟨?_, ?_, ?_, ?_, ?_, ?_⟩
  · rw [hframes, hdir, FrameBitmap.used_take, hwf.dirUsed, Bool.or_true]
  · intro dj hdj hhas
    rw [hframes, table_withTable haligned hne, FrameBitmap.used_take]
    split_ifs with heq
    · rw [decide_eq_true rfl, Bool.true_or]
    · rw [hwf.tableUsed dj hdj (((hasTable_withTable hne dj).mp hhas).resolve_left heq), Bool.or_true]
  · intro dj hdj hhas
    rw [table_withTable haligned hne]
    split_ifs with heq
    · exact hlow
    · exact hwf.tableLow dj hdj (((hasTable_withTable hne dj).mp hhas).resolve_left heq)
  · intro dj hdj hhas
    rw [table_withTable haligned hne, hdir]
    split_ifs with heq
    · exact hne
    · exact hwf.tableNeDir dj hdj (((hasTable_withTable hne dj).mp hhas).resolve_left heq)
  · intro dj hdj dk hdk hhasj hhask
    rw [table_withTable haligned hne, table_withTable haligned hne]
    have hj := (hasTable_withTable hne dj).mp hhasj
    have hk := (hasTable_withTable hne dk).mp hhask
    split_ifs with heqj heqk heqk
    · intro _
      rw [heqj, heqk]
    · exact fun h => absurd h.symm (hold dk hdk (hk.resolve_left heqk))
    · exact fun h => absurd h (hold dj hdj (hj.resolve_left heqj))
    · exact hwf.apart dj hdj dk hdk (hj.resolve_left heqj) (hk.resolve_left heqk)
  · intro virt entry hentry huser
    rw [entry_withTable hwf hnew haligned hfree] at hentry
    have hother : dirIndex virt ≠ di := by
      rintro rfl
      exact hnew (Paging.hasTable_of_entry hentry)
    rw [dirEntry_withTable hne, if_neg hother]
    exact hwf.user virt entry hentry huser

end NewTable

/-! ### Writes to one entry -/

/-- The step of `map_page` that lets user accesses through directory entry `di`. -/
def Paging.coverUser (s : Paging) (di : Nat) (flags : UInt32) : Paging :=
  if flags &&& pageUser ≠ 0 then s.store s.kernelDir di (s.dirEntry di ||| pageUser) else s

section CoverUser

variable (s : Paging) (di : Nat) (flags : UInt32)

theorem kernelDir_coverUser : (s.coverUser di flags).kernelDir = s.kernelDir := by
  rw [Paging.coverUser]
  split_ifs <;> rfl

theorem dirEntry_coverUser (dj : Nat) : (s.coverUser di flags).dirEntry dj =
    if flags &&& pageUser ≠ 0 ∧ dj = di then s.dirEntry di ||| pageUser else s.dirEntry dj := by
  rw [Paging.coverUser]
  by_cases huser : flags &&& pageUser ≠ 0
  · rw [if_pos huser, Paging.dirEntry, Paging.store_mem, Paging.store_kernelDir]
    exact if_congr (by simp [huser]) rfl rfl
  · rw [if_neg huser, if_neg (fun h => huser h.1)]

theorem hasTable_coverUser (dj : Nat) : (s.coverUser di flags).HasTable dj ↔ s.HasTable dj := by
  rw [Paging.HasTable, dirEntry_coverUser]
  split_ifs with h
  · rw [or_user_present, h.2, Paging.HasTable]
  · rfl

theorem table_coverUser (dj : Nat) : (s.coverUser di flags).table dj = s.table dj := by
  rw [Paging.table, dirEntry_coverUser]
  split_ifs with h
  · rw [entryFrame_or_user, h.2, Paging.table]
  · rfl

theorem mem_coverUser {frame : UInt32} (hne : frame ≠ s.kernelDir) (i : Nat) :
    (s.coverUser di flags).mem frame i = s.mem frame i := by
  rw [Paging.coverUser]
  split_ifs
  · rw [Paging.store_mem, if_neg (fun h => hne h.1)]
  · rfl

variable {s}

theorem entry_coverUser (hwf : s.Wf) (virt : UInt32) : (s.coverUser di flags).entry virt = s.entry virt := by
  by_cases hhas : s.HasTable (dirIndex virt)
  · rw [Paging.entry_eq hhas, Paging.entry_eq ((hasTable_coverUser s di flags _).mpr hhas),
      table_coverUser, mem_coverUser s di flags (hwf.tableNeDir _ (dirIndex_lt virt) hhas)]
  · rw [Paging.entry_eq_none hhas,
      Paging.entry_eq_none (fun h => hhas ((hasTable_coverUser s di flags _).mp h))]

theorem wf_coverUser (hwf : s.Wf) : (s.coverUser di flags).Wf := by
  have hframes : (s.coverUser di flags).frameBitmap = s.frameBitmap := by
    rw [Paging.coverUser]
    split_ifs <;> rfl
  refine hwf.of_tables hframes (kernelDir_coverUser s di flags)
    (fun dj => (hasTable_coverUser s di flags dj).mp) (table_coverUser s di flags) ?_
  intro virt entry hentry huser
  rw [entry_coverUser di flags hwf] at hentry
  rw [dirEntry_coverUser]
  split_ifs
  · exact or_and_ne_zero (by decide)
  · exact hwf.user virt entry hentry huser

end CoverUser

section WriteEntry

variable {s : Paging} {virt : UInt32}

theorem dirEntry_writeEntry (hwf : s.Wf) (hhas : s.HasTable (dirIndex virt)) (word : UInt32) (dj : Nat) :
    (s.store (s.table (dirIndex virt)) (tableIndex virt) word).dirEntry dj = s.dirEntry dj := by
  have hne := hwf.tableNeDir _ (dirIndex_lt virt) hhas
  rw [Paging.dirEntry, Paging.store_mem, Paging.store_kernelDir, if_neg (fun h => hne h.1.symm),
    Paging.dirEntry]

theorem entry_writeEntry (hwf : s.Wf) (hhas : s.HasTable (dirIndex virt)) (word v : UInt32) :
    (s.store (s.table (dirIndex virt)) (tableIndex virt) word).entry v =
      if pageOf v = pageOf virt then (if word &&& pagePresent ≠ 0 then some word else none)
      else s.entry v := by
  have hdir := dirEntry_writeEntry hwf hhas word (dirIndex v)
  have hkeep : (s.store (s.table (dirIndex virt)) (tableIndex virt) word).HasTable (dirIndex v) ↔
      s.HasTable (dirIndex v) := by
    rw [Paging.HasTable, hdir, Paging.HasTable]
  have htable : (s.store (s.table (dirIndex virt)) (tableIndex virt) word).table (dirIndex v) =
      s.table (dirIndex v) := by
    rw [Paging.table, hdir, Paging.table]
  by_cases hv : s.HasTable (dirIndex v)
  · have hsame : (s.table (dirIndex v) = s.table (dirIndex virt) ∧ tableIndex v = tableIndex virt) ↔
        pageOf v = pageOf virt := by
      rw [pageOf_eq_iff]
      refine and_congr_left fun _ => ⟨?_, fun heq => by rw [heq]⟩
      exact hwf.apart _ (dirIndex_lt v) _ (dirIndex_lt virt) hv hhas
    rw [Paging.entry_eq (hkeep.mpr hv), htable, Paging.store_mem]
    by_cases hpage : pageOf v = pageOf virt
    · rw [if_pos (hsame.mpr hpage), if_pos hpage]
    · rw [if_neg (fun h => hpage (hsame.mp h)), if_neg hpage, Paging.entry_eq hv]
  · have hpage : pageOf v ≠ pageOf virt := fun heq => hv (by rwa [((pageOf_eq_iff _ _).mp heq).1])
    rw [Paging.entry_eq_none hv, if_neg hpage, Paging.entry_eq_none (fun h => hv (hkeep.mp h))]

theorem wf_writeEntry (hwf : s.Wf) (hhas : s.HasTable (dirIndex virt)) {word : UInt32}
    (hcover : word &&& pageUser ≠ 0 → s.dirEntry (dirIndex virt) &&& pageUser ≠ 0) :
    (s.store (s.table (dirIndex virt)) (tableIndex virt) word).Wf := by
  have hdir := dirEntry_writeEntry hwf hhas word
  have hkeep : ∀ dj, (s.store (s.table (dirIndex virt)) (tableIndex virt) word).HasTable dj →
      s.HasTable dj := by
    intro dj h
    rwa [Paging.HasTable, hdir] at h
  have htable : ∀ dj, (s.store (s.table (dirIndex virt)) (tableIndex virt) word).table dj = s.table dj := by
    intro dj
    rw [Paging.table, hdir, Paging.table]
  refine hwf.of_tables rfl rfl hkeep htable fun v entry hentry huser => ?_
  rw [entry_writeEntry hwf hhas] at hentry
  rw [hdir]
  split_ifs at hentry with hpage hpresent
  · cases hentry
    rw [((pageOf_eq_iff _ _).mp hpage).1]
    exact hcover huser
  · exact hwf.user v entry hentry huser

end WriteEntry

/-! ### The page map -/

structure Mapping where
  phys : UInt32
  flags : UInt32
  aligned : PageAligned phys
  present : flags &&& pagePresent ≠ 0

namespace Mapping

variable (m : Mapping)

def word : UInt32 := m.phys ||| m.flags

def user : Bool := m.flags &&& pageUser ≠ 0

theorem word_present : m.word &&& pagePresent ≠ 0 := or_and_ne_zero m.present

theorem word_user : m.word &&& pageUser = m.flags &&& pageUser := by
  rw [word, or_and_distrib, m.aligned.and_low (by decide), UInt32.zero_or]

theorem entryFrame_word (hflags : m.flags < 0x1000) : entryFrame m.word = m.phys :=
  m.aligned.entryFrame_or hflags

end Mapping

abbrev PageMap := UInt32 → Option Mapping

/-- `map_page` has a table for the page of `virt`, or a frame below `HEAP_START` to make one from. -/
def Paging.CanMap (s : Paging) (virt : UInt32) : Prop :=
  s.HasTable (dirIndex virt) ∨
    (allocFrame s.frameBitmap).1 ≠ 0 ∧ (allocFrame s.frameBitmap).1 < heapStart

instance (s : Paging) (virt : UInt32) : Decidable (s.CanMap virt) := inferInstanceAs (Decidable (_ ∨ _))

theorem setPage_eq {s : Paging} (hwf : s.Wf) {virt : UInt32} (hhas : s.HasTable (dirIndex virt))
    (phys flags : UInt32) : setPage s s.kernelDir virt phys flags =
      (s.coverUser (dirIndex virt) flags).store (s.table (dirIndex virt)) (tableIndex virt)
        (phys ||| flags) := by
  obtain ⟨hpos, hlow⟩ := hwf.tableLow _ (dirIndex_lt virt) hhas
  have hpass : ¬ (heapStart ≤ s.table (dirIndex virt) ∨ s.table (dirIndex virt) = 0) :=
    not_or.mpr ⟨UInt32.not_le.mpr hlow, hpos⟩
  have htable := table_coverUser s (dirIndex virt) flags (dirIndex virt)
  rw [Paging.table, Paging.dirEntry, kernelDir_coverUser] at htable
  rw [setPage]
  exact (if_neg hpass).trans (congrArg (fun frame => (s.coverUser (dirIndex virt) flags).store frame
    (tableIndex virt) (phys ||| flags)) htable)

theorem setPage_spec {s : Paging} (hwf : s.Wf) {virt : UInt32} (hhas : s.HasTable (dirIndex virt))
    (m : Mapping) : (setPage s s.kernelDir virt m.phys m.flags).Wf ∧
      ∀ v, (setPage s s.kernelDir virt m.phys m.flags).entry v =
        if pageOf v = pageOf virt then some m.word else s.entry v := by
  have hcover := wf_coverUser (dirIndex virt) m.flags hwf
  have hhas' := (hasTable_coverUser s (dirIndex virt) m.flags _).mpr hhas
  rw [setPage_eq hwf hhas, ← table_coverUser s (dirIndex virt) m.flags]
  refine ⟨wf_writeEntry hcover hhas' fun huser => ?_, fun v => ?_⟩
  · have hflags : m.flags &&& pageUser ≠ 0 := by
      rw [← m.word_user]
      exact huser
    rw [dirEntry_coverUser, if_pos ⟨hflags, rfl⟩]
    exact or_and_ne_zero (by decide)
  · rw [entry_writeEntry hcover hhas', entry_coverUser _ _ hwf]
    exact if_congr Iff.rfl (if_pos m.word_present) rfl

theorem addTable_spec {s : Paging} (hwf : s.Wf) (virt : UInt32) :
    ((addTable s s.kernelDir (dirIndex virt)).1 = true ↔ s.CanMap virt) ∧
      (addTable s s.kernelDir (dirIndex virt)).2.Wf ∧
      (addTable s s.kernelDir (dirIndex virt)).2.kernelDir = s.kernelDir ∧
      (s.CanMap virt → (addTable s s.kernelDir (dirIndex virt)).2.HasTable (dirIndex virt)) ∧
      ∀ v, (addTable s s.kernelDir (dirIndex virt)).2.entry v = s.entry v := by
  obtain ⟨hmono, htaken⟩ := allocFrame_spec s.frameBitmap
  by_cases hhas : s.HasTable (dirIndex virt)
  · have heq : addTable s s.kernelDir (dirIndex virt) = (true, s) := if_neg hhas
    rw [heq]
    exact ⟨iff_of_true rfl (.inl hhas), hwf, rfl, fun _ => hhas, fun _ => rfl⟩
  have hnone : s.mem s.kernelDir (dirIndex virt) &&& pagePresent = 0 := not_not.mp hhas
  rw [addTable, if_pos hnone]
  by_cases hout : heapStart ≤ (allocFrame s.frameBitmap).1 ∨ (allocFrame s.frameBitmap).1 = 0
  · have hcannot : ¬ s.CanMap virt := by
      rintro (h | ⟨hpos, hlow⟩)
      · exact hhas h
      · exact hout.elim (fun hge => UInt32.not_le.mpr hlow hge) hpos
    dsimp only
    rw [if_pos hout]
    refine ⟨iff_of_false Bool.false_ne_true hcannot, ?_, rfl, fun h => absurd h hcannot, fun _ => rfl⟩
    -- the frame handed back was free before, so no used frame is lost
    have hkept : ∀ f, s.frameBitmap.used f = true →
        (if (allocFrame s.frameBitmap).1 ≠ 0 then
          freeFrame (allocFrame s.frameBitmap).2 (allocFrame s.frameBitmap).1
          else (allocFrame s.frameBitmap).2).used f = true := by
      intro f hf
      split_ifs with hne
      · have hother : f ≠ frameIndex (allocFrame s.frameBitmap).1 := by
          rintro rfl
          rw [(htaken hne).2.1] at hf
          cases hf
        exact used_freeFrame hother (hmono f hf)
      · exact hmono f hf
    exact hwf.of_frames (hkept _ hwf.dirUsed) fun di hdi h => hkept _ (hwf.tableUsed di hdi h)
  · have hpos : (allocFrame s.frameBitmap).1 ≠ 0 := fun h => hout (.inr h)
    have hlow : (allocFrame s.frameBitmap).1 < heapStart := UInt32.not_le.mp fun h => hout (.inl h)
    obtain ⟨haligned, hfree, hbm⟩ := htaken hpos
    have hne : (allocFrame s.frameBitmap).1 ≠ s.kernelDir := by
      intro heq
      rw [heq, hwf.dirUsed] at hfree
      cases hfree
    dsimp only
    rw [if_neg hout]
    exact ⟨iff_of_true rfl (.inr ⟨hpos, hlow⟩),
      wf_withTable hwf hhas haligned hfree ⟨hpos, hlow⟩ hbm, rfl,
      fun _ => (hasTable_withTable hne _).mpr (.inl rfl),
      entry_withTable hwf hhas haligned hfree⟩

theorem mapKernelPage_spec {s : Paging} (hwf : s.Wf) (virt : UInt32) (m : Mapping) :
    (mapKernelPage s virt m.phys m.flags).Wf ∧
      ∀ v, (mapKernelPage s virt m.phys m.flags).entry v =
        if s.CanMap virt ∧ pageOf v = pageOf virt then some m.word else s.entry v := by
  obtain ⟨hok, hwf', hdir, hhas, hsame⟩ := addTable_spec hwf virt
  rw [mapKernelPage, mapPage]
  generalize addTable s s.kernelDir (dirIndex virt) = result at hok hwf' hdir hhas hsame ⊢
  obtain ⟨ok, s'⟩ := result
  cases ok with
  | true =>
    have hcan := hok.mp rfl
    obtain ⟨hset, hentry⟩ := setPage_spec hwf' (hhas hcan) m
    rw [← hdir]
    refine ⟨hset, fun v => ?_⟩
    rw [hentry v, hsame v]
    exact if_congr (by simp [hcan]) rfl rfl
  | false =>
    have hcannot : ¬ s.CanMap virt := fun hcan => Bool.false_ne_true (hok.mpr hcan)
    refine ⟨hwf', fun v => ?_⟩
    rw [if_neg (fun h => hcannot h.1)]
    exact hsame v

theorem unmapKernelPage_eq (s : Paging) (virt : UInt32) : unmapKernelPage s virt =
    match s.entry virt with
    | some entry => (entryFrame entry, s.store (s.table (dirIndex virt)) (tableIndex virt) 0)
    | none => (0, s) := by
  by_cases hhas : s.HasTable (dirIndex virt)
  · rw [Paging.entry_eq hhas]
    by_cases hpresent : s.mem (s.table (dirIndex virt)) (tableIndex virt) &&& pagePresent ≠ 0
    · rw [if_pos hpresent]
      exact (if_neg hhas).trans (if_neg hpresent)
    · rw [if_neg hpresent]
      exact (if_neg hhas).trans (if_pos (not_not.mp hpresent))
  · rw [Paging.entry_eq_none hhas]
    exact if_pos (not_not.mp hhas)

theorem Paging.entry_congr (s : Paging) {v w : UInt32} (hpage : pageOf v = pageOf w) :
    s.entry v = s.entry w := by
  obtain ⟨hdi, hti⟩ := (pageOf_eq_iff v w).mp hpage
  rw [Paging.entry, Paging.entry, hdi, hti]

theorem unmapKernelPage_spec {s : Paging} (hwf : s.Wf) (virt : UInt32) :
    (unmapKernelPage s virt).1 = (s.translate virt).getD 0 ∧ (unmapKernelPage s virt).2.Wf ∧
      ∀ v, (unmapKernelPage s virt).2.entry v =
        if pageOf v = pageOf virt then none else s.entry v := by
  rw [unmapKernelPage_eq, Paging.translate]
  cases hentry : s.entry virt with
  | none =>
    refine ⟨rfl, hwf, fun v => ?_⟩
    split_ifs with hpage
    · exact (s.entry_congr hpage).trans hentry
    · rfl
  | some entry =>
    have hhas := Paging.hasTable_of_entry hentry
    exact ⟨rfl, wf_writeEntry hwf hhas fun h => absurd UInt32.zero_and h,
      entry_writeEntry hwf hhas 0⟩

/-! ### Runs -/

structure PagedKernel where
  paging : Paging
  pages : PageMap

inductive PagingOp where
  | map (virt : UInt32) (m : Mapping)
  | unmap (virt : UInt32)
  -- frames taken and given back by the rest of the kernel
  | alloc
  | free (addr : UInt32)

def PagingOp.page : PagingOp → Option UInt32
  | .map virt _ => some (pageOf virt)
  | .unmap virt => some (pageOf virt)
  | .alloc => none
  | .free _ => none

/-- The rest of the kernel gives back no frame that the directory or a table is in. -/
def PagingOp.Allowed (s : PagedKernel) : PagingOp → Prop
  | .free addr => frameIndex addr ≠ frameIndex s.paging.kernelDir ∧
      ∀ di < 1024, s.paging.HasTable di → frameIndex addr ≠ frameIndex (s.paging.table di)
  | _ => True

def PagingOp.exec : PagingOp → Prog Empty PagedKernel UInt32
  | .map virt m => fun s => .ok (0,
      { paging := mapKernelPage s.paging virt m.phys m.flags
        pages := if s.paging.CanMap virt then Function.update s.pages (pageOf virt) (some m) else s.pages })
  | .unmap virt => fun s => .ok ((unmapKernelPage s.paging virt).1,
      { paging := (unmapKernelPage s.paging virt).2
        pages := Function.update s.pages (pageOf virt) none })
  | .alloc => fun s => .ok ((allocFrame s.paging.frameBitmap).1,
      { s with paging.frameBitmap := (allocFrame s.paging.frameBitmap).2 })
  | .free addr => fun s => .ok (0,
      { s with paging.frameBitmap := freeFrame s.paging.frameBitmap addr })

structure PagedKernel.Refines (s : PagedKernel) : Prop where
  wf : s.paging.Wf
  entry : ∀ virt, s.paging.entry virt = (s.pages (pageOf virt)).map Mapping.word

theorem PagedKernel.Refines.translate {s : PagedKernel} (href : s.Refines) (virt : UInt32) :
    s.paging.translate virt = (s.pages (pageOf virt)).map fun m => entryFrame m.word := by
  rw [Paging.translate, href.entry, Option.map_map]
  rfl

theorem PagedKernel.Refines.userReachable {s : PagedKernel} (href : s.Refines) (virt : UInt32) :
    s.paging.userReachable virt = (s.pages (pageOf virt)).any Mapping.user := by
  rw [href.wf.userReachable_eq, href.entry]
  cases s.pages (pageOf virt) with
  | none => rfl
  | some m =>
    rw [Option.map_some, Option.any_some, Option.any_some, m.word_user, Mapping.user]

theorem PagingOp.refines {s : PagedKernel} (href : s.Refines) {op : PagingOp} (hallowed : op.Allowed s) :
    Runs op.exec s fun _ s' => s'.Refines := by
  cases op with
  | map virt m =>
    obtain ⟨hwf, hentry⟩ := mapKernelPage_spec href.wf virt m
    refine .of_eq rfl ⟨hwf, fun v => (hentry v).trans ?_⟩
    by_cases hcan : s.paging.CanMap virt
    · by_cases hpage : pageOf v = pageOf virt
      · simp [hcan, hpage]
      · simp [hcan, hpage, href.entry v]
    · simp [hcan, href.entry v]
  | unmap virt =>
    obtain ⟨-, hwf, hentry⟩ := unmapKernelPage_spec href.wf virt
    refine .of_eq rfl ⟨hwf, fun v => (hentry v).trans ?_⟩
    by_cases hpage : pageOf v = pageOf virt
    · simp [hpage]
    · simp [hpage, href.entry v]
  | alloc =>
    have hmono := (allocFrame_spec s.paging.frameBitmap).1
    exact .of_eq rfl ⟨href.wf.of_frames (hmono _ href.wf.dirUsed)
      fun di hdi hhas => hmono _ (href.wf.tableUsed di hdi hhas), href.entry⟩
  | free addr =>
    obtain ⟨hdir, htable⟩ := hallowed
    have hkept : ∀ f, s.paging.frameBitmap.used f = true → frameIndex addr ≠ f →
        (freeFrame s.paging.frameBitmap addr).used f = true := by
      intro f hf hne
      exact used_freeFrame hne.symm hf
    exact .of_eq rfl ⟨href.wf.of_frames (hkept _ href.wf.dirUsed hdir)
      fun di hdi hhas => hkept _ (href.wf.tableUsed di hdi hhas) (htable di hdi hhas), href.entry⟩

theorem PagingOp.pages_eq {s s' : PagedKernel} {op : PagingOp} {result : UInt32}
    (hrun : op.exec s = .ok (result, s')) {page : UInt32} (hpage : op.page ≠ some page) :
    s'.pages page = s.pages page := by
  cases op with
  | map virt m =>
    cases hrun
    change (if s.paging.CanMap virt then _ else s.pages) page = s.pages page
    split_ifs
    · exact Function.update_of_ne (fun heq => hpage (congrArg some heq.symm)) _ _
    · rfl
  | unmap virt =>
    cases hrun
    exact Function.update_of_ne (fun heq => hpage (congrArg some heq.symm)) _ _
  | alloc =>
    cases hrun
    rfl
  | free addr =>
    cases hrun
    rfl

/-- The tables after any run of maps and unmaps, with other users of the frame allocator in between. -/
theorem page_tables_refine {s₀ s : PagedKernel} (hinit : s₀.Refines)
    (hreach : Reach (fun s op => PagingOp.Allowed s op) PagingOp.exec s₀ s) :
    (∀ virt, s.paging.translate virt = (s.pages (pageOf virt)).map fun m => entryFrame m.word) ∧
      (∀ m : Mapping, m.flags < 0x1000 → entryFrame m.word = m.phys) ∧
      (∀ virt, s.paging.userReachable virt = true →
        ∃ m, s.pages (pageOf virt) = some m ∧ m.flags &&& pageUser ≠ 0) ∧
      ∀ op : PagingOp, op.Allowed s → Runs op.exec s fun result s' =>
        (∀ virt, op.page ≠ some (pageOf virt) →
          s'.paging.translate virt = s.paging.translate virt ∧
          s'.paging.userReachable virt = s.paging.userReachable virt) ∧
        (∀ virt m, op = .map virt m → ¬ s.paging.CanMap virt →
          s'.paging.translate = s.paging.translate) ∧
        (∀ virt, op = .unmap virt → result = (s.paging.translate virt).getD 0) := by
  have href : s.Refines := hreach.invariant hinit fun _ _ href hallowed => PagingOp.refines href hallowed
  refine ⟨href.translate, Mapping.entryFrame_word, fun virt huser => ?_, fun op hallowed => ?_⟩
  · rw [href.userReachable, Option.any_eq_true] at huser
    obtain ⟨m, hm, hflags⟩ := huser
    exact ⟨m, hm, of_decide_eq_true hflags⟩
  · obtain ⟨result, s', hrun, href'⟩ := PagingOp.refines href hallowed
    refine ⟨result, s', hrun, fun virt hpage => ?_, ?_, ?_⟩
    · rw [href'.translate, href.translate, href'.userReachable, href.userReachable,
        PagingOp.pages_eq hrun hpage]
      exact ⟨rfl, rfl⟩
    · rintro virt m rfl hcannot
      have hpages : s'.pages = s.pages := by
        cases hrun
        exact if_neg hcannot
      funext v
      rw [href'.translate, href.translate, hpages]
    · rintro virt rfl
      cases hrun
      exact (unmapKernelPage_spec href.wf virt).1

def bootPaging : Paging where
  frameBitmap i := if i = 8 then 0xFFFFFFFD else 0xFFFFFFFF
  kernelDir := 0x100000
  mem _ _ := 0

def bootKernel : PagedKernel where
  paging := bootPaging
  pages _ := none

theorem bootKernel_refines : bootKernel.Refines := by
  have hnone : ∀ di, ¬ bootPaging.HasTable di := fun di h => h UInt32.zero_and
  have hentry : ∀ virt, bootPaging.entry virt = none := fun virt => Paging.entry_eq_none (hnone _)
  exact ⟨⟨by decide, fun di _ h => absurd h (hnone di), fun di _ h => absurd h (hnone di),
    fun di _ h => absurd h (hnone di), fun di _ _ _ h => absurd h (hnone di),
    fun virt entry h => absurd ((hentry virt).symm.trans h) (by simp)⟩, hentry⟩

def userMapping : Mapping where
  phys := 0x200000
  flags := 7
  aligned := by decide
  present := by decide

theorem page_tables_refine_bootKernel :
    bootKernel.Refines ∧ (mapKernelPage bootPaging 0x40000000 0x200000 7).translate 0x40000123 =
      some 0x200000 := by
  have hcan : bootPaging.CanMap 0x40000000 := by decide
  have hreach : Reach (fun s op => PagingOp.Allowed s op) PagingOp.exec bootKernel
      { paging := mapKernelPage bootPaging 0x40000000 0x200000 7
        pages := if bootPaging.CanMap 0x40000000 then
          Function.update bootKernel.pages (pageOf 0x40000000) (some userMapping) else bootKernel.pages } :=
    .single ⟨.map 0x40000000 userMapping, 0, trivial, rfl⟩
  refine ⟨bootKernel_refines, ((page_tables_refine bootKernel_refines hreach).1 0x40000123).trans ?_⟩
  rw [if_pos hcan]
  decide

end DeprecatOS
