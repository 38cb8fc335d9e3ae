import DeprecatOS.Proof.Paging

/-!
# The frames that are handed out

What `frame_alloc_init` leaves free is worked out entry by entry of the memory map: first the frames
that the 32-bit sums of `mark_free_region` mark, then the entries for which these are the frames inside
the region. From the first state on, the free frames are the usable ones that nobody holds.
-/

namespace DeprecatOS

open Bytes

/-! ### The map in memory -/

namespace MemoryMapEntry

def base (entry : MemoryMapEntry) : Nat := entry.baseHi.toNat * 2 ^ 32 + entry.baseLo.toNat

def len (entry : MemoryMapEntry) : Nat := entry.lenHi.toNat * 2 ^ 32 + entry.lenLo.toNat

def Contains (entry : MemoryMapEntry) (f : Nat) : Prop :=
  entry.type = 1 ∧ entry.base ≤ f * 4096 ∧ (f + 1) * 4096 ≤ entry.base + entry.len

instance (entry : MemoryMapEntry) (f : Nat) : Decidable (entry.Contains f) :=
  inferInstanceAs (Decidable (_ ∧ _))

end MemoryMapEntry

def MapAt (mem : Buf) (stop : Nat) : Nat → List MemoryMapEntry → Prop
  | addr, [] => addr = stop
  | addr, entry :: entries =>
    MemoryMapEntry.load mem addr = entry ∧ MapAt mem stop (addr + (entry.size.toNat + 4)) entries

/-- The boot information announces the map `entries`, which ends below 4 GiB. -/
structure Announces (mem : Buf) (info : MBIInfo) (entries : List MemoryMapEntry) : Prop where
  flag : info.flags &&& ((1 : UInt32) <<< 6) ≠ 0
  stop : info.mmapAddr.toNat + info.mmapLength.toNat < 2 ^ 32
  map : MapAt mem (info.mmapAddr.toNat + info.mmapLength.toNat) info.mmapAddr.toNat entries

section

variable {σ : Type} {mem : Buf} {fn : UInt32 → UInt32 → UInt32 → σ → σ}

theorem MapAt.le {stop addr : Nat} {entries : List MemoryMapEntry} (hmap : MapAt mem stop addr entries) :
    addr ≤ stop := by
  induction entries generalizing addr with
  | nil => exact le_of_eq hmap
  | cons entry entries ih =>
    have hrest := ih hmap.2
    omega

theorem mmapLoop_eq {stop i : UInt32} {fuel : Nat} {entries : List MemoryMapEntry}
    (hmap : MapAt mem stop.toNat i.toNat entries) (hfuel : stop.toNat - i.toNat ≤ fuel) (s : σ) :
    mmapLoop mem fn stop fuel i s = some (entries.foldl (fun s entry => mmapVisit fn entry s) s) := by
  induction entries generalizing fuel i s with
  | nil =>
    have hdone : ¬ i < stop := by
      rw [UInt32.lt_iff_toNat_lt, show i.toNat = stop.toNat from hmap]
      exact lt_irrefl _
    cases fuel with
    | zero => rw [mmapLoop, if_neg hdone, List.foldl_nil]
    | succ fuel => rw [mmapLoop, if_neg hdone, List.foldl_nil]
  | cons entry entries ih =>
    obtain ⟨hentry, hrest⟩ := hmap
    have hle := hrest.le
    have hstop := stop.toNat_lt
    have hnext : (i + (entry.size + 4)).toNat = i.toNat + (entry.size.toNat + 4) := by
      rw [UInt32.toNat_add, UInt32.toNat_add, show (4 : UInt32).toNat = 4 from rfl]
      omega
    have hmore : i < stop := UInt32.lt_iff_toNat_lt.mpr (by omega)
    obtain ⟨fuel, rfl⟩ : ∃ rest, fuel = rest + 1 := ⟨fuel - 1, by omega⟩
    rw [mmapLoop, if_pos hmore, hentry, List.foldl_cons]
    apply ih
    · rw [hnext]
      exact hrest
    · omega

theorem mmapWalk_eq {info : MBIInfo} {entries : List MemoryMapEntry} (hmap : Announces mem info entries)
    (s : σ) : mmapWalk mem fn info s = some (entries.foldl (fun s entry => mmapVisit fn entry s) s) := by
  have hstop : (info.mmapAddr + info.mmapLength).toNat = info.mmapAddr.toNat + info.mmapLength.toNat := by
    rw [UInt32.toNat_add, Nat.mod_eq_of_lt hmap.stop]
  rw [mmapWalk, if_neg hmap.flag]
  apply mmapLoop_eq
  · rw [hstop]
    exact hmap.map
  · omega

end

/-! ### The frames that are marked -/

namespace FrameBitmap

theorem used_foldl_drop (frames : List Nat) (bm : FrameBitmap) (f : Nat) :
    (frames.foldl drop bm).used f = (!decide (f ∈ frames) && bm.used f) := by
  induction frames generalizing bm with
  | nil => simp
  | cons g frames ih =>
    rw [List.foldl_cons, ih, used_drop]
    by_cases hf : f = g
    · simp [hf]
    · simp [hf]

theorem used_foldl_take (frames : List Nat) (bm : FrameBitmap) (f : Nat) :
    (frames.foldl take bm).used f = (decide (f ∈ frames) || bm.used f) := by
  induction frames generalizing bm with
  | nil => simp
  | cons g frames ih =>
    rw [List.foldl_cons, ih, used_take]
    by_cases hf : f = g
    · simp [hf]
    · simp [hf]

theorem used_of_full {bm : FrameBitmap} {f : Nat} (hfull : bm (f / 32) = 0xFFFFFFFF) : bm.used f = true := by
  have hlt : f % 32 < 32 := Nat.mod_lt _ (by omega)
  rw [used_eq, hfull, show (0xFFFFFFFF : UInt32).toBitVec = BitVec.allOnes 32 by decide,
    BitVec.getLsbD_allOnes, decide_eq_true hlt]

end FrameBitmap

theorem toNat_pageShift (word : UInt32) : ((word &&& ~~~0xFFF) >>> 12).toNat = word.toNat / 4096 := by
  have hword := word.toNat_lt
  have hmask : (~~~0xFFF : UInt32).toNat >>> 12 = 2 ^ 20 - 1 := by decide
  rw [UInt32.toNat_shiftRight, UInt32.toNat_and, show (12 : UInt32).toNat % 32 = 12 by decide,
    Nat.shiftRight_and_distrib, hmask, Nat.and_two_pow_sub_one_eq_mod, Nat.shiftRight_eq_div_pow]
  omega

/-- The frames that `mark_free_region` marks for an entry, with its 32-bit sums. -/
def MemoryMapEntry.Marks (entry : MemoryMapEntry) (f : Nat) : Prop :=
  entry.baseHi = 0 ∧ entry.type = 1 ∧ (entry.baseLo + 0xFFF).toNat / 4096 ≤ f ∧
    f < (entry.baseLo + entry.clippedLen).toNat / 4096

instance (entry : MemoryMapEntry) (f : Nat) : Decidable (entry.Marks f) :=
  inferInstanceAs (Decidable (_ ∧ _))

theorem used_mmapVisit (entry : MemoryMapEntry) (bm : FrameBitmap) (f : Nat) :
    (mmapVisit markFreeRegion entry bm).used f = (!decide (entry.Marks f) && bm.used f) := by
  by_cases hhi : entry.baseHi = 0
  · by_cases htype : entry.type = 1
    · have hmem : ∀ first last, f ∈ List.range' first (last - first) ↔ first ≤ f ∧ f < last := by
        intro first last
        rw [List.mem_range'_1]
        omega
      rw [mmapVisit, if_neg (not_not.mpr hhi), markFreeRegion, if_neg (not_not.mpr htype),
        FrameBitmap.used_foldl_drop, toNat_pageShift, toNat_pageShift]
      simp [MemoryMapEntry.Marks, hhi, htype, hmem]
    · rw [mmapVisit, if_neg (not_not.mpr hhi), markFreeRegion, if_pos htype]
      simp [MemoryMapEntry.Marks, htype]
  · rw [mmapVisit, if_pos hhi]
    simp [MemoryMapEntry.Marks, hhi]

theorem used_foldl_mmapVisit (entries : List MemoryMapEntry) (bm : FrameBitmap) (f : Nat) :
    (entries.foldl (fun bm entry => mmapVisit markFreeRegion entry bm) bm).used f = false ↔
      bm.used f = false ∨ ∃ entry ∈ entries, entry.Marks f := by
  induction entries generalizing bm with
  | nil => simp
  | cons entry entries ih =>
    rw [List.foldl_cons, ih, used_mmapVisit]
    by_cases hmarks : entry.Marks f
    · simp [hmarks]
    · simp [hmarks]

variable {mem : Buf} {ebss : UInt32} {info : MBIInfo} {entries : List MemoryMapEntry}

theorem frameAllocInit_free (ebss : UInt32) (hmap : Announces mem info entries) :
    ∃ bm, frameAllocInit mem ebss info = some bm ∧
      ∀ f, bm.used f = false ↔ (kernelLastFrame ebss).toNat ≤ f ∧ ∃ entry ∈ entries, entry.Marks f := by
  refine ⟨_, by rw [frameAllocInit, mmapWalk_eq hmap, Option.map_some], fun f => ?_⟩
  have hfull : FrameBitmap.used (fun _ => 0xFFFFFFFF) f = true := FrameBitmap.used_of_full rfl
  rw [FrameBitmap.used_foldl_take, Bool.or_eq_false_iff, used_foldl_mmapVisit, hfull]
  simp

/-! ### The frames of a region -/

theorem MemoryMapEntry.toNat_clippedEnd {entry : MemoryMapEntry} (hhi : entry.baseHi = 0) :
    (entry.baseLo + entry.clippedLen).toNat =
      if entry.base + entry.len < 2 ^ 32 then entry.base + entry.len else 0 := by
  have hbaseLo := entry.baseLo.toNat_lt
  have hlenLo := entry.lenLo.toNat_lt
  have hbase : entry.base = entry.baseLo.toNat := by
    rw [base, hhi, UInt32.toNat_zero, Nat.zero_mul, Nat.zero_add]
  have hclip : (0xFFFFFFFF - entry.baseLo + 1).toNat = (2 ^ 32 - entry.baseLo.toNat) % 2 ^ 32 := by
    rw [UInt32.toNat_add, UInt32.toNat_sub, show (0xFFFFFFFF : UInt32).toNat = 2 ^ 32 - 1 by decide,
      UInt32.toNat_one]
    omega
  have hwrap : entry.baseLo + entry.lenLo < entry.baseLo ↔
      2 ^ 32 ≤ entry.baseLo.toNat + entry.lenLo.toNat := by
    rw [UInt32.lt_iff_toNat_lt, UInt32.toNat_add]
    omega
  have hlen : entry.lenHi = 0 ↔ entry.len < 2 ^ 32 := by
    rw [← UInt32.toNat_inj, UInt32.toNat_zero, len]
    omega
  rw [clippedLen, hbase, UInt32.toNat_add]
  by_cases hbeyond : entry.lenHi ≠ 0 ∨ entry.baseLo + entry.lenLo < entry.baseLo
  · have hfar : ¬ entry.baseLo.toNat + entry.len < 2 ^ 32 := by
      rw [hwrap, Ne, hlen] at hbeyond
      rw [len] at hbeyond ⊢
      omega
    rw [if_pos hbeyond, if_neg hfar, hclip]
    omega
  · have hnear : entry.lenHi.toNat = 0 ∧ entry.baseLo.toNat + entry.lenLo.toNat < 2 ^ 32 := by
      rw [hwrap, not_or, not_not, not_le] at hbeyond
      exact ⟨by rw [hbeyond.1, UInt32.toNat_zero], hbeyond.2⟩
    rw [if_neg hbeyond, len, hnear.1, Nat.zero_mul, Nat.zero_add, if_pos hnear.2,
      Nat.mod_eq_of_lt hnear.2]

/-- A region that reaches 4 GiB loses all its frames, and one that starts in the last page marks every
frame below that page. -/
theorem MemoryMapEntry.marks_iff (entry : MemoryMapEntry) (f : Nat) :
    entry.Marks f ↔ entry.type = 1 ∧ entry.base + entry.len < 2 ^ 32 ∧
      (0xFFFFF000 < entry.base ∨ entry.base ≤ f * 4096) ∧ (f + 1) * 4096 ≤ entry.base + entry.len := by
  have hbaseLo := entry.baseLo.toNat_lt
  by_cases hhi : entry.baseHi = 0
  · have hbase : entry.base = entry.baseLo.toNat := by
      rw [base, hhi, UInt32.toNat_zero, Nat.zero_mul, Nat.zero_add]
    have hfirst : (entry.baseLo + 0xFFF).toNat = (entry.base + 4095) % 2 ^ 32 := by
      rw [UInt32.toNat_add, hbase]
      rfl
    rw [Marks, toNat_clippedEnd hhi, hfirst]
    by_cases hend : entry.base + entry.len < 2 ^ 32
    · rw [if_pos hend]
      constructor
      · rintro ⟨-, htype, hlow, hhigh⟩
        exact ⟨htype, hend, by omega, by omega⟩
      · rintro ⟨htype, -, hlow, hhigh⟩
        exact ⟨hhi, htype, by omega, by omega⟩
    · rw [if_neg hend]
      constructor
      · rintro ⟨-, -, -, hhigh⟩
        omega
      · rintro ⟨-, hend', -⟩
        exact absurd hend' hend
  · have hfar : 2 ^ 32 ≤ entry.base := by
      have hpos : entry.baseHi.toNat ≠ 0 := fun hzero => hhi (UInt32.toNat_inj.mp hzero)
      rw [base]
      omega
    constructor
    · rintro ⟨hhi', -⟩
      exact absurd hhi' hhi
    · rintro ⟨-, hend, -⟩
      omega

theorem kernelLastFrame_le (hebss : ebss.toNat ≤ 0xFFFFF000) (f : Nat) :
    (kernelLastFrame ebss).toNat ≤ f ↔ ebss.toNat ≤ f * 4096 := by
  rw [kernelLastFrame, toNat_pageShift, UInt32.toNat_add, show (0xFFF : UInt32).toNat = 4095 by decide]
  omega

/-! ### The frames in use -/

/-- A frame below 4 GiB that is entirely inside a free region and past the kernel image. -/
def Usable (entries : List MemoryMapEntry) (ebss : UInt32) (f : Nat) : Prop :=
  f < 2 ^ 20 ∧ ebss.toNat ≤ f * 4096 ∧ ∃ entry ∈ entries, entry.Contains f

def frameAddr (f : Nat) : UInt32 := UInt32.ofNat (f * 4096)

/-- The bitmaps that calls of `alloc_frame` and `free_frame` lead to from `bm₀`, with the addresses that
are held then. Only a held frame is freed. -/
inductive FrameCalls (bm₀ : FrameBitmap) : FrameBitmap → List UInt32 → Prop
  | start : FrameCalls bm₀ bm₀ []
  | taken {bm held} : FrameCalls bm₀ bm held → (allocFrame bm).1 ≠ 0 →
      FrameCalls bm₀ (allocFrame bm).2 ((allocFrame bm).1 :: held)
  | refused {bm held} : FrameCalls bm₀ bm held → (allocFrame bm).1 = 0 →
      FrameCalls bm₀ (allocFrame bm).2 held
  | freed {bm held addr} : FrameCalls bm₀ bm held → addr ∈ held →
      FrameCalls bm₀ (freeFrame bm addr) (held.erase addr)

structure HoldsFrames (usable : Nat → Prop) (bm : FrameBitmap) (held : List UInt32) : Prop where
  nodup : held.Nodup
  owned : ∀ addr ∈ held, ∃ f, usable f ∧ addr = frameAddr f
  free : ∀ f < 2 ^ 20, bm.used f = false ↔ usable f ∧ frameAddr f ∉ held

theorem frameIndex_frameAddr {f : Nat} (hf : f < 2 ^ 20) : frameIndex (frameAddr f) = f := by
  rw [frameIndex_eq, frameAddr, UInt32.toNat_ofNat']
  omega

theorem frameAddr_inj {f g : Nat} (hf : f < 2 ^ 20) (hg : g < 2 ^ 20) (haddr : frameAddr f = frameAddr g) :
    f = g := by
  rw [← frameIndex_frameAddr hf, haddr, frameIndex_frameAddr hg]

theorem clearInWord_none {bm : FrameBitmap} {i fuel b : Nat} (hfind : clearInWord bm i fuel b = none) :
    ∀ f, i * 32 + b ≤ f → f < i * 32 + b + fuel → bm.used f = true := by
  induction fuel generalizing b with
  | zero =>
    intro f hlow hhigh
    omega
  | succ fuel ih =>
    intro f hlow hhigh
    rw [clearInWord] at hfind
    split at hfind
    · next hused =>
      rcases Nat.eq_or_lt_of_le hlow with rfl | hlt
      · exact hused
      · exact ih hfind f (by omega) (by omega)
    · cases hfind

theorem clearFrame_none {bm : FrameBitmap} {fuel i : Nat} (hfind : clearFrame bm fuel i = none) :
    ∀ f, i * 32 ≤ f → f < (i + fuel) * 32 → bm.used f = true := by
  induction fuel generalizing i with
  | zero =>
    intro f hlow hhigh
    omega
  | succ fuel ih =>
    intro f hlow hhigh
    rw [clearFrame] at hfind
    by_cases hin : f < (i + 1) * 32
    · split at hfind
      · split at hfind
        · cases hfind
        · next hword => exact clearInWord_none hword f (by omega) (by omega)
      · next hfull =>
        apply FrameBitmap.used_of_full
        rw [show f / 32 = i by omega]
        exact not_not.mp hfull
    · have hrest : clearFrame bm fuel (i + 1) = none := by
        split at hfind
        · split at hfind
          · cases hfind
          · exact hfind
        · exact hfind
      exact ih hrest f (by omega) (by omega)

theorem allocFrame_cases (bm : FrameBitmap) :
    (∃ f < 2 ^ 20, bm.used f = false ∧ allocFrame bm = (frameAddr f, bm.take f)) ∨
      ((∀ f < 2 ^ 20, bm.used f = true) ∧ allocFrame bm = (0, bm)) := by
  cases hfind : clearFrame bm frameBitmapLength 0 with
  | some f =>
    obtain ⟨hfree, hlt⟩ := clearFrame_some hfind
    have hbound : f < 2 ^ 20 := by
      rw [show frameBitmapLength = 32768 from rfl] at hlt
      omega
    have haddr : UInt32.ofNat f * frameSizeBytes = frameAddr f := by
      rw [← UInt32.toNat_inj, UInt32.toNat_mul, frameAddr, UInt32.toNat_ofNat', UInt32.toNat_ofNat',
        show frameSizeBytes.toNat = 4096 by decide]
      omega
    exact .inl ⟨f, hbound, hfree, by simp only [allocFrame, hfind, haddr]⟩
  | none =>
    refine .inr ⟨fun f hf => clearFrame_none hfind f (by omega) ?_, by rw [allocFrame, hfind]⟩
    rw [show frameBitmapLength = 32768 from rfl]
    omega

section

variable {usable : Nat → Prop} {bm bm₀ : FrameBitmap} {held : List UInt32}

theorem HoldsFrames.taken (hholds : HoldsFrames usable bm held) {f : Nat} (hf : f < 2 ^ 20)
    (hfree : bm.used f = false) : HoldsFrames usable (bm.take f) (frameAddr f :: held) where
  nodup := List.nodup_cons.mpr ⟨((hholds.free f hf).mp hfree).2, hholds.nodup⟩
  owned := by
    intro addr haddr
    rcases List.mem_cons.mp haddr with rfl | hold
    · exact ⟨f, ((hholds.free f hf).mp hfree).1, rfl⟩
    · exact hholds.owned addr hold
  free := by
    intro g hg
    rw [FrameBitmap.used_take, Bool.or_eq_false_iff, hholds.free g hg, List.mem_cons, not_or,
      decide_eq_false_iff_not]
    constructor
    · rintro ⟨hne, husable, hnot⟩
      exact ⟨husable, fun haddr => hne (frameAddr_inj hg hf haddr), hnot⟩
    · rintro ⟨husable, hne, hnot⟩
      exact ⟨fun heq => hne (by rw [heq]), husable, hnot⟩

theorem HoldsFrames.freed (hrange : ∀ f, usable f → 0 < f ∧ f < 2 ^ 20) (hholds : HoldsFrames usable bm held)
    {addr : UInt32} (haddr : addr ∈ held) : HoldsFrames usable (freeFrame bm addr) (held.erase addr) := by
  obtain ⟨f, husable, rfl⟩ := hholds.owned addr haddr
  refine ⟨hholds.nodup.erase _, fun other hother => hholds.owned other (List.mem_of_mem_erase hother), ?_⟩
  intro g hg
  have hindex : (frameAddr f >>> 12).toNat = f := frameIndex_frameAddr (hrange f husable).2
  rw [freeFrame, hindex, FrameBitmap.used_drop, hholds.nodup.mem_erase_iff]
  by_cases hgf : g = f
  · simp [hgf, husable]
  · have hne : frameAddr g ≠ frameAddr f := fun heq => hgf (frameAddr_inj hg (hrange f husable).2 heq)
    simp [hgf, hne, hholds.free g hg]

theorem HoldsFrames.frameAddr_ne_zero (hrange : ∀ f, usable f → 0 < f ∧ f < 2 ^ 20)
    (hholds : HoldsFrames usable bm held) {f : Nat} (hf : f < 2 ^ 20) (hfree : bm.used f = false) :
    frameAddr f ≠ 0 := by
  intro hzero
  have hpos := (hrange f ((hholds.free f hf).mp hfree).1).1
  rw [frameAddr, ← UInt32.toNat_inj, UInt32.toNat_ofNat', UInt32.toNat_zero] at hzero
  omega

theorem HoldsFrames.calls (hrange : ∀ f, usable f → 0 < f ∧ f < 2 ^ 20) (hholds : HoldsFrames usable bm₀ [])
    (hcalls : FrameCalls bm₀ bm held) : HoldsFrames usable bm held := by
  induction hcalls with
  | start => exact hholds
  | @taken bm held _ hne ih =>
    obtain ⟨f, hf, hfree, halloc⟩ | ⟨-, halloc⟩ := allocFrame_cases bm
    · rw [halloc]
      exact ih.taken hf hfree
    · rw [halloc] at hne
      exact absurd rfl hne
  | @refused bm held _ hzero ih =>
    obtain ⟨f, hf, hfree, halloc⟩ | ⟨-, halloc⟩ := allocFrame_cases bm
    · rw [halloc] at hzero
      exact absurd hzero (ih.frameAddr_ne_zero hrange hf hfree)
    · rw [halloc]
      exact ih
  | freed _ haddr ih => exact ih.freed hrange haddr

/-- What the next `alloc_frame` gives: a usable frame that is not held, and 0 when all are. -/
structure GivesFree (usable : Nat → Prop) (bm : FrameBitmap) (held : List UInt32) : Prop where
  given : (allocFrame bm).1 ≠ 0 → ∃ f, usable f ∧ (allocFrame bm).1.toNat = f * 4096 ∧ (allocFrame bm).1 ∉ held
  out : (allocFrame bm).1 = 0 ↔ ∀ f, usable f → frameAddr f ∈ held

theorem HoldsFrames.gives (hrange : ∀ f, usable f → 0 < f ∧ f < 2 ^ 20)
    (hholds : HoldsFrames usable bm held) : GivesFree usable bm held := by
  obtain ⟨f, hf, hfree, halloc⟩ | ⟨hused, halloc⟩ := allocFrame_cases bm
  · obtain ⟨husable, hnot⟩ := (hholds.free f hf).mp hfree
    have hne := hholds.frameAddr_ne_zero hrange hf hfree
    constructor
    · intro _
      rw [halloc]
      refine ⟨f, husable, ?_, hnot⟩
      rw [frameAddr, UInt32.toNat_ofNat']
      omega
    · rw [halloc]
      constructor
      · intro hzero
        exact absurd hzero hne
      · intro hall
        exact absurd (hall f husable) hnot
  · constructor
    · intro hne
      rw [halloc] at hne
      exact absurd rfl hne
    · rw [halloc]
      refine ⟨fun _ f husable => ?_, fun _ => rfl⟩
      have hf := (hrange f husable).2
      by_contra hnot
      have hfree := (hholds.free f hf).mpr ⟨husable, hnot⟩
      rw [hused f hf] at hfree
      cases hfree

end

/-- The allocator hands out the usable frames: they are the free ones at first, and in every later state
the next frame is a usable one that nobody holds. -/
structure HandsOut (usable : Nat → Prop) (bm₀ : FrameBitmap) : Prop where
  free : ∀ f < 2 ^ 20, bm₀.used f = false ↔ usable f
  gives : ∀ bm held, FrameCalls bm₀ bm held → GivesFree usable bm held

theorem handsOut_of_free {usable : Nat → Prop} {bm₀ : FrameBitmap} (hrange : ∀ f, usable f → 0 < f ∧ f < 2 ^ 20)
    (hfree : ∀ f < 2 ^ 20, bm₀.used f = false ↔ usable f) : HandsOut usable bm₀ where
  free := hfree
  gives := by
    intro bm held hcalls
    have hfirst : HoldsFrames usable bm₀ [] := by
      refine ⟨List.nodup_nil, fun addr haddr => absurd haddr List.not_mem_nil, fun f hf => ?_⟩
      rw [hfree f hf, and_iff_left List.not_mem_nil]
    exact (hfirst.calls hrange hcalls).gives hrange

/-- The allocator hands out exactly the usable memory when no free region that starts at or below the
last page reaches 4 GiB, and none that ends below 4 GiB starts inside the last page, unless every frame
between the kernel image and that page is usable anyway. -/
theorem frameAllocInit_handsOut_iff (hmap : Announces mem info entries) (hkernel : 0 < ebss)
    (hebss : ebss ≤ 0xFFFFF000) :
    (∃ bm, frameAllocInit mem ebss info = some bm ∧ HandsOut (Usable entries ebss) bm) ↔
      (∀ entry ∈ entries, entry.type = 1 → entry.base ≤ 0xFFFFF000 → entry.base + entry.len < 2 ^ 32) ∧
      ∀ entry ∈ entries, entry.type = 1 → 0xFFFFF000 < entry.base → entry.base + entry.len < 2 ^ 32 →
        ∀ f, ebss.toNat ≤ f * 4096 → f < 0xFFFFF → Usable entries ebss f := by
  have hend : ebss.toNat ≤ 0xFFFFF000 := UInt32.le_iff_toNat_le.mp hebss
  have hpos : 0 < ebss.toNat := UInt32.lt_iff_toNat_lt.mp hkernel
  obtain ⟨bm, hbm, hfree⟩ := frameAllocInit_free ebss hmap
  constructor
  · rintro ⟨bm', hbm', hhands⟩
    obtain rfl : bm = bm' := Option.some.inj (hbm.symm.trans hbm')
    constructor
    · intro entry hentry htype hbase
      by_contra hreach
      have husable : Usable entries ebss 0xFFFFF :=
        ⟨by omega, by omega, entry, hentry, htype, by omega, by omega⟩
      obtain ⟨-, other, -, hmarks⟩ := (hfree _).mp ((hhands.free _ (by omega)).mpr husable)
      obtain ⟨-, hbelow, -, hin⟩ := (other.marks_iff _).mp hmarks
      omega
    · intro entry hentry htype hbase hbelow f hlow hhigh
      apply (hhands.free f (by omega)).mp
      exact (hfree f).mpr ⟨(kernelLastFrame_le hend f).mpr hlow, entry, hentry,
        (entry.marks_iff f).mpr ⟨htype, hbelow, .inl hbase, by omega⟩⟩
  · rintro ⟨hreach, hlast⟩
    refine ⟨bm, hbm, handsOut_of_free ?_ ?_⟩
    · rintro f ⟨hf, hlow, -⟩
      exact ⟨by omega, hf⟩
    · intro f hf
      rw [hfree, kernelLastFrame_le hend]
      constructor
      · rintro ⟨hlow, entry, hentry, hmarks⟩
        obtain ⟨htype, hbelow, hbase, hin⟩ := (entry.marks_iff f).mp hmarks
        by_cases hinside : entry.base ≤ f * 4096
        · exact ⟨hf, hlow, entry, hentry, htype, hinside, hin⟩
        · exact hlast entry hentry htype (hbase.resolve_right hinside) hbelow f hlow (by omega)
      · rintro ⟨-, hlow, entry, hentry, htype, hbase, hin⟩
        exact ⟨hlow, entry, hentry, (entry.marks_iff f).mpr
          ⟨htype, hreach entry hentry htype (by omega), .inr hbase, hin⟩⟩

def oneEntryMem (entry : MemoryMapEntry) : Buf :=
  store32 (store32 (store32 (store32 (store32 (store32 zero 4096 entry.size) 4100 entry.baseLo)
    4104 entry.baseHi) 4108 entry.lenLo) 4112 entry.lenHi) 4116 entry.type

def oneEntryInfo : MBIInfo where
  flags := 0x40
  mmapLength := 24
  mmapAddr := 4096

theorem announces_oneEntry {entry : MemoryMapEntry} (hsize : entry.size = 20) :
    Announces (oneEntryMem entry) oneEntryInfo [entry] where
  flag := by decide
  stop := by decide
  map := by
    have hload : MemoryMapEntry.load (oneEntryMem entry) 4096 = entry := by
      simp [MemoryMapEntry.load, oneEntryMem, load32_store32_self, load32_store32_of_disjoint]
    refine ⟨hload, ?_⟩
    rw [hsize]
    rfl

def ramEntry (baseLo lenLo : UInt32) : MemoryMapEntry where
  size := 20
  baseLo := baseLo
  baseHi := 0
  lenLo := lenLo
  lenHi := 0
  type := 1

theorem frameAllocInit_handsOut_pc :
    ∃ bm, frameAllocInit (oneEntryMem (ramEntry 0x100000 0x7F00000)) 0x200000 oneEntryInfo = some bm ∧
      HandsOut (Usable [ramEntry 0x100000 0x7F00000] 0x200000) bm := by
  apply (frameAllocInit_handsOut_iff (announces_oneEntry rfl) (by decide) (by decide)).mpr
  constructor
  · intro entry hentry _ _
    rw [List.mem_singleton.mp hentry]
    decide
  · intro entry hentry _ hbase
    rw [List.mem_singleton.mp hentry] at hbase
    exact absurd hbase (by decide)

/-- Of the last GiB of a 4 GiB machine no frame is handed out, and 256 bytes inside the last page make
frame 512 free, which no region contains. -/
theorem frameAllocInit_top_of_memory :
    (Usable [ramEntry 0xC0000000 0x40000000] 0x200000 0xC0000 ∧
      ∃ bm, frameAllocInit (oneEntryMem (ramEntry 0xC0000000 0x40000000)) 0x200000 oneEntryInfo = some bm ∧
        (allocFrame bm).1 = 0) ∧
    (¬ Usable [ramEntry 0xFFFFF100 0x100] 0x200000 512 ∧
      ∃ bm, frameAllocInit (oneEntryMem (ramEntry 0xFFFFF100 0x100)) 0x200000 oneEntryInfo = some bm ∧
        bm.used 512 = false) := by
  constructor
  · refine ⟨⟨by decide, by decide, _, List.mem_singleton_self _, by decide⟩, ?_⟩
    obtain ⟨bm, hbm, hfree⟩ := frameAllocInit_free 0x200000
      (announces_oneEntry (rfl : (ramEntry 0xC0000000 0x40000000).size = 20))
    refine ⟨bm, hbm, ?_⟩
    obtain ⟨f, -, hf, -⟩ | ⟨-, halloc⟩ := allocFrame_cases bm
    · obtain ⟨-, entry, hentry, hmarks⟩ := (hfree f).mp hf
      rw [List.mem_singleton.mp hentry, MemoryMapEntry.marks_iff] at hmarks
      exact absurd hmarks.2.1 (by decide)
    · rw [halloc]
  · constructor
    · rintro ⟨-, -, entry, hentry, hin⟩
      rw [List.mem_singleton.mp hentry] at hin
      exact absurd hin (by decide)
    · obtain ⟨bm, hbm, hfree⟩ := frameAllocInit_free 0x200000
        (announces_oneEntry (rfl : (ramEntry 0xFFFFF100 0x100).size = 20))
      refine ⟨bm, hbm, (hfree _).mpr ⟨by decide, _, List.mem_singleton_self _, ?_⟩⟩
      rw [MemoryMapEntry.marks_iff]
      decide

end DeprecatOS
