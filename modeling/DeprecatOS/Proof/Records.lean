import DeprecatOS.Directory

/-!
# The records of a directory block

A loop over a well-formed block visits its records one after the other, so each of the loops is a search in
the list of records. What an insertion or a removal writes touches one record, or one record and its neighbour,
and changes the list of entries there only.
-/

namespace DeprecatOS

open Bytes Bits Fault Tiling

variable {buf buf' : Buf} {off start p n : Nat} {ps xs ys : List Nat}

/-! ### One record -/

theorem trueSize_ge (buf : Buf) (off : Nat) : 8 + entryNameLen buf off ≤ trueSize buf off := by
  rw [trueSize, align4]
  omega

theorem entryNameLen_lt (buf : Buf) (off : Nat) : entryNameLen buf off < 256 := (buf (off + 6)).toNat_lt

theorem RecordOk.le_size (hrecord : RecordOk buf off) : 8 + entryNameLen buf off ≤ entrySize buf off :=
  (trueSize_ge buf off).trans hrecord.fits

theorem RecordOk.not_badEntry (hrecord : RecordOk buf off) (hend : off + entrySize buf off ≤ blockSize) :
    badEntry buf off = false := by
  have hsize := hrecord.le_size
  have hfits := hrecord.fits
  simp only [badEntry, Bool.or_eq_false_iff, decide_eq_false_iff_not]
  omega

section Congr

variable (hsame : ∀ k, off ≤ k → k < off + n → buf' k = buf k)

include hsame

theorem entrySize_congr (hn : 8 ≤ n) : entrySize buf' off = entrySize buf off := by
  rw [entrySize, entrySize, load16_congr fun k hlow hhigh => hsame k (by omega) (by omega)]

theorem entryInode_congr (hn : 8 ≤ n) : entryInode buf' off = entryInode buf off :=
  load32_congr fun k hlow hhigh => hsame k hlow (by omega)

theorem entryNameLen_congr (hn : 8 ≤ n) : entryNameLen buf' off = entryNameLen buf off := by
  rw [entryNameLen, entryNameLen, hsame _ (by omega) (by omega)]

theorem trueSize_congr (hn : 8 ≤ n) : trueSize buf' off = trueSize buf off := by
  rw [trueSize, trueSize, entryNameLen_congr hsame hn]

theorem entryAt_congr (hn : 8 + entryNameLen buf off ≤ n) : entryAt buf' off = entryAt buf off := by
  have hname : entryName buf' off = entryName buf off := by
    rw [entryName, entryName, entryNameLen_congr hsame (by omega)]
    apply List.map_congr_left
    intro i hi
    have hi := List.mem_range.mp hi
    exact hsame _ (by omega) (by omega)
  rw [entryAt, entryAt, hname, entryInode_congr hsame (by omega), hsame (off + 7) (by omega) (by omega)]

theorem RecordOk.congr (hrecord : RecordOk buf off) (hn : 8 ≤ n) : RecordOk buf' off := by
  refine ⟨?_, ?_⟩
  · rw [entrySize_congr hsame hn]
    exact hrecord.dvd
  · rw [entrySize_congr hsame hn, trueSize_congr hsame hn]
    exact hrecord.fits

end Congr

/-! ### The list of records -/

theorem recordsFrom_eq (htiles : Tiles (entrySize buf) start ps blockSize) {fuel : Nat}
    (hfuel : ps.length ≤ fuel) : recordsFrom buf fuel start = ps := by
  induction ps generalizing start fuel with
  | nil =>
    cases fuel with
    | zero => rfl
    | succ fuel =>
      rw [recordsFrom, if_neg]
      rw [tiles_nil.mp htiles]
      exact lt_irrefl _
  | cons p ps ih =>
    obtain ⟨rfl, hpos, hrest⟩ := htiles
    cases fuel with
    | zero => cases hfuel
    | succ fuel =>
      have hle := hrest.le
      rw [recordsFrom, if_pos (by omega), ih hrest (Nat.le_of_succ_le_succ hfuel)]

theorem BlockOk.of_tiles (htiles : Tiles (entrySize buf) 0 ps blockSize)
    (hrecord : ∀ p ∈ ps, RecordOk buf p) : BlockOk buf ∧ records buf = ps := by
  have hlength := htiles.length_le
  have heq : records buf = ps := recordsFrom_eq htiles (by omega)
  refine ⟨⟨?_, ?_⟩, heq⟩
  · rwa [heq]
  · rwa [heq]

theorem BlockOk.length_le (hblock : BlockOk buf) : (records buf).length ≤ blockSize := by
  have hlength := hblock.tiles.length_le
  omega

theorem BlockOk.end_le (hblock : BlockOk buf) (hp : p ∈ records buf) : p + entrySize buf p ≤ blockSize :=
  (hblock.tiles.mem_bounds hp).2

theorem BlockOk.congr (hblock : BlockOk buf) (hsame : ∀ k < blockSize, buf' k = buf k) :
    BlockOk buf' ∧ blockEntries buf' = blockEntries buf := by
  have hrecord : ∀ p ∈ records buf, ∀ k, p ≤ k → k < p + entrySize buf p → buf' k = buf k := by
    intro p hp k _ hk
    have hend := hblock.end_le hp
    exact hsame k (by omega)
  have hsize : ∀ p ∈ records buf, 8 + entryNameLen buf p ≤ entrySize buf p := fun p hp =>
    (hblock.record p hp).le_size
  have htiles : Tiles (entrySize buf') 0 (records buf) blockSize :=
    hblock.tiles.congr fun p hp => entrySize_congr (hrecord p hp) (by have := hsize p hp; omega)
  obtain ⟨hblock', hrecords⟩ := BlockOk.of_tiles htiles fun p hp =>
    (hblock.record p hp).congr (hrecord p hp) (by have := hsize p hp; omega)
  refine ⟨hblock', ?_⟩
  rw [blockEntries, blockEntries, hrecords]
  apply List.filterMap_congr
  intro p hp
  exact entryAt_congr (hrecord p hp) (hsize p hp)

/-! ### Names -/

theorem scanName_le (name : Buf) (fuel len : Nat) : scanName name fuel len ≤ len + fuel := by
  induction fuel generalizing len with
  | zero => exact le_rfl
  | succ fuel ih =>
    rw [scanName]
    split_ifs
    · omega
    · have := ih (len + 1)
      omega

theorem le_scanName (name : Buf) (fuel len : Nat) : len ≤ scanName name fuel len := by
  induction fuel generalizing len with
  | zero => exact le_rfl
  | succ fuel ih =>
    rw [scanName]
    split_ifs
    · exact le_rfl
    · have := ih (len + 1)
      omega

theorem scanName_eq_iff (name : Buf) {fuel len stop : Nat} (hlow : len ≤ stop) (hhigh : stop < len + fuel) :
    scanName name fuel len = stop ↔ name stop = 0 ∧ ∀ k, len ≤ k → k < stop → name k ≠ 0 := by
  induction fuel generalizing len with
  | zero => omega
  | succ fuel ih =>
    rw [scanName]
    split_ifs with hzero
    · constructor
      · rintro rfl
        exact ⟨hzero, fun k hk hk' => by omega⟩
      · rintro ⟨-, hbefore⟩
        by_contra hne
        exact hbefore len le_rfl (by omega) hzero
    · by_cases heq : len = stop
      · subst heq
        have := le_scanName name fuel (len + 1)
        constructor
        · omega
        · rintro ⟨h, -⟩
          exact absurd h hzero
      · rw [ih (by omega) (by omega)]
        constructor
        · rintro ⟨hstop, hbefore⟩
          refine ⟨hstop, fun k hk hk' => ?_⟩
          by_cases hk₀ : k = len
          · rwa [hk₀]
          · exact hbefore k (by omega) hk'
        · rintro ⟨hstop, hbefore⟩
          exact ⟨hstop, fun k hk hk' => hbefore k (by omega) hk'⟩

theorem ne_zero_of_lt_scanName (name : Buf) {fuel len k : Nat} (hlow : len ≤ k) (hk : k < scanName name fuel len) :
    name k ≠ 0 := by
  induction fuel generalizing len with
  | zero => exact absurd hk (Nat.not_lt_of_le hlow)
  | succ fuel ih =>
    rw [scanName] at hk
    split_ifs at hk with hzero
    · exact absurd hk (Nat.not_lt_of_le hlow)
    · obtain rfl | hlt := Nat.eq_or_lt_of_le hlow
      · exact hzero
      · exact ih hlt hk

theorem length_nameOf (name : Buf) : (nameOf name).length = nameLength name := by
  rw [nameOf, List.length_map, List.length_range]

theorem nameLength_eq_iff (name : Buf) {len : Nat} (hlen : len < nameLen) :
    nameLength name = len ↔ name len = 0 ∧ ∀ k < len, name k ≠ 0 := by
  rw [nameLength, scanName_eq_iff name (Nat.zero_le len) (by omega)]
  simp only [Nat.zero_le, true_implies]

theorem cstr_of_lt {s : List UInt8} {k : Nat} (hk : k < s.length) : cstr s k = s[k] := by
  rw [cstr, List.getD_eq_getElem s 0 hk]

theorem cstr_length (s : List UInt8) : cstr s s.length = 0 := by
  rw [cstr, List.getD_eq_default _ _ le_rfl]

theorem nameOf_eq_of_streq {name : Buf} {lit : List UInt8} (hlit : ∀ c ∈ lit, c ≠ 0) (hshort : lit.length < nameLen)
    (heq : streq name lit = true) : nameOf name = lit := by
  simp only [streq, List.all_eq_true, List.mem_range, Nat.lt_succ_iff, decide_eq_true_eq] at heq
  have hlen : nameLength name = lit.length := by
    refine (nameLength_eq_iff name hshort).mpr ⟨by rw [heq _ le_rfl, cstr_length], fun k hk => ?_⟩
    rw [heq k hk.le, cstr_of_lt hk]
    exact hlit _ (List.getElem_mem hk)
  refine List.ext_getElem (by rw [length_nameOf, hlen]) fun k hk hk' => ?_
  simp only [nameOf, List.getElem_map, List.getElem_range]
  rw [heq k hk'.le, cstr_of_lt hk']

theorem toNat_eq_toInt8_iff {a b : UInt8} : ((a.toNat : Int) = b.toInt8.toInt) ↔ a = b ∧ b < 128 := by
  have hsigned : b.toInt8.toInt = if 2 * b.toNat < 256 then (b.toNat : Int) else b.toNat - 256 :=
    BitVec.toInt_eq_toNat_cond b.toBitVec
  have ha := a.toNat_lt
  have hb := b.toNat_lt
  rw [hsigned, ← UInt8.toNat_inj, UInt8.lt_iff_toNat_lt]
  change _ ↔ _ ∧ b.toNat < 128
  split_ifs <;> omega

theorem compName_eq_true_iff {name : Buf} : compName buf off name = true ↔
    (∀ i < entryNameLen buf off, buf (off + 8 + i) = name i ∧ name i < 128) ∧ name (entryNameLen buf off) = 0 := by
  simp only [compName, Bool.and_eq_true, List.all_eq_true, List.mem_range, decide_eq_true_eq, toNat_eq_toInt8_iff]

theorem compName_eq_false {name : Buf} {c : UInt8} (hmem : c ∈ nameOf name) (hc : ¬ c < 128) :
    compName buf off name = false := by
  rw [Bool.eq_false_iff]
  intro hcomp
  obtain ⟨hbytes, hend⟩ := compName_eq_true_iff.mp hcomp
  obtain ⟨i, hi, rfl⟩ := List.mem_map.mp hmem
  have hi := List.mem_range.mp hi
  have hshort : i < entryNameLen buf off := by
    by_contra hle
    exact ne_zero_of_lt_scanName name (Nat.zero_le _) (Nat.lt_of_le_of_lt (Nat.le_of_not_lt hle) hi) hend
  exact hc (hbytes i hshort).2

theorem compName_iff {name : Buf} (hpos : ∀ c ∈ entryName buf off, 0 < c)
    (hseven : (∀ c ∈ entryName buf off, c < 128) ∨ ∀ c ∈ nameOf name, c < 128) :
    compName buf off name = true ↔ entryName buf off = nameOf name := by
  have hlen : entryNameLen buf off < nameLen := entryNameLen_lt buf off
  rw [compName_eq_true_iff]
  constructor
  · rintro ⟨hbytes, hend⟩
    have hlength : nameLength name = entryNameLen buf off := by
      rw [nameLength_eq_iff name hlen]
      refine ⟨hend, fun k hk => ?_⟩
      rw [← (hbytes k hk).1]
      exact (UInt8.ne_of_lt (hpos _ (List.mem_map_of_mem (List.mem_range.mpr hk)))).symm
    rw [entryName, nameOf, hlength]
    apply List.map_congr_left
    intro i hi
    exact (hbytes i (List.mem_range.mp hi)).1
  · intro heq
    have hlength : nameLength name = entryNameLen buf off := by
      rw [← length_nameOf, ← heq, entryName, List.length_map, List.length_range]
    have hbound : ∀ c ∈ nameOf name, c < 128 := by
      rw [← heq] at hseven ⊢
      exact hseven.elim id id
    refine ⟨fun i hi => ⟨?_, ?_⟩, ((nameLength_eq_iff name hlen).mp hlength).1⟩
    · rw [entryName, nameOf, hlength] at heq
      exact List.map_inj_left.mp heq i (List.mem_range.mpr hi)
    · exact hbound _ (List.mem_map_of_mem (List.mem_range.mpr (by rwa [hlength])))

/-! ### Searching a block -/

def AsciiNames (es : List DirEntry) : Prop := ∀ e ∈ es, ∀ c ∈ e.name, 0 < c ∧ c < 128

def SevenBit (name : Buf) : Prop := ∀ c ∈ nameOf name, c < 128

instance (name : Buf) : Decidable (SevenBit name) := List.decidableBAll _ _

/-- A search for the name compares the characters: no stored name has a zero, and the stored or the searched ones have 7
bits. -/
def Searchable (name : Buf) (es : List DirEntry) : Prop :=
  ∀ e ∈ es, (∀ c ∈ e.name, 0 < c) ∧ ((∀ c ∈ e.name, c < 128) ∨ SevenBit name)

theorem AsciiNames.searchable {es : List DirEntry} (hascii : AsciiNames es) (name : Buf) : Searchable name es :=
  fun e he => ⟨fun c hc => (hascii e he c hc).1, .inl fun c hc => (hascii e he c hc).2⟩

theorem entryNamed_eq {name : Buf} (hsearch : Searchable name (entryAt buf off).toList) :
    entryNamed buf off name = (entryAt buf off).any fun e => e.name = nameOf name := by
  rw [entryNamed, entryAt] at *
  split_ifs with hdead
  · simp [hdead]
  · simp only [hdead, ne_eq, not_false_eq_true, decide_true, Bool.true_and, Option.any_some]
    rw [Bool.eq_iff_iff, decide_eq_true_iff]
    obtain ⟨hpos, hseven⟩ := hsearch ⟨entryName buf off, entryInode buf off, buf (off + 7)⟩ (by simp [hdead])
    exact compName_iff hpos hseven

/-- A loop over the records of a block that stops at the first record where `visit` has a result is a search in the
list of records. -/
theorem scan_eq {β : Type} (loop : Nat → Nat → β) (visit : Nat → Option β) (done : β)
    (hzero : ∀ cursor, loop 0 cursor = done) (hend : ∀ fuel, loop (fuel + 1) blockSize = done)
    (hvisit : ∀ fuel cursor, cursor < blockSize → badEntry buf cursor = false →
      loop (fuel + 1) cursor = (visit cursor).getD (loop fuel (cursor + entrySize buf cursor)))
    (htiles : Tiles (entrySize buf) start ps blockSize) (hrecord : ∀ p ∈ ps, RecordOk buf p)
    {fuel : Nat} (hfuel : ps.length ≤ fuel) : loop fuel start = (ps.findSome? visit).getD done := by
  induction ps generalizing start fuel with
  | nil =>
    cases fuel with
    | zero => exact hzero start
    | succ fuel =>
      rw [tiles_nil.mp htiles]
      exact hend fuel
  | cons p ps ih =>
    obtain ⟨rfl, hpos, hrest⟩ := htiles
    cases fuel with
    | zero => cases hfuel
    | succ fuel =>
      have hle := hrest.le
      rw [hvisit fuel p (by omega) ((hrecord p List.mem_cons_self).not_badEntry hle), List.findSome?_cons]
      cases visit p with
      | some result => rfl
      | none =>
        exact ih hrest (fun q hq => hrecord q (List.mem_cons_of_mem p hq))
          (Nat.le_of_succ_le_succ hfuel)

theorem filterMap_entryAt_cons (buf : Buf) (p : Nat) (ps : List Nat) :
    (p :: ps).filterMap (entryAt buf) = (entryAt buf p).toList ++ ps.filterMap (entryAt buf) := by
  rw [List.filterMap_cons]
  cases entryAt buf p <;> rfl

theorem entryAt_inode {e : DirEntry} (he : entryAt buf p = some e) : entryInode buf p = e.inode := by
  rw [entryAt] at he
  split_ifs at he
  cases he
  rfl

theorem findSome_entryNamed {β : Type} {name : Buf} (hsearch : Searchable name (ps.filterMap (entryAt buf)))
    (result : UInt32 → β) :
    (ps.findSome? fun p => if entryNamed buf p name then some (result (entryInode buf p)) else none) =
      (findEntry (ps.filterMap (entryAt buf)) (nameOf name)).map fun e => result e.inode := by
  induction ps with
  | nil => rfl
  | cons p ps ih =>
    rw [filterMap_entryAt_cons] at hsearch ⊢
    have hnamed : entryNamed buf p name = (entryAt buf p).any fun e => e.name = nameOf name :=
      entryNamed_eq fun e he => hsearch e (List.mem_append_left _ he)
    have hrest := ih fun e he => hsearch e (List.mem_append_right _ he)
    rw [List.findSome?_cons, hnamed]
    cases hat : entryAt buf p with
    | none => exact hrest
    | some e =>
      rw [entryAt_inode hat]
      by_cases heq : e.name = nameOf name
      · simp [findEntry, heq]
      · simpa [findEntry, heq] using hrest

theorem scanNamed_eq {β : Type} (loop : Nat → Nat → β) (answer : Option UInt32 → β) (name : Buf) (hblock : BlockOk buf)
    {fuel : Nat} (hfuel : blockSize ≤ fuel) (hzero : ∀ cursor, loop 0 cursor = answer none)
    (hend : ∀ fuel, loop (fuel + 1) blockSize = answer none)
    (hvisit : ∀ fuel cursor, cursor < blockSize → badEntry buf cursor = false →
      loop (fuel + 1) cursor = if entryNamed buf cursor name then answer (some (entryInode buf cursor))
        else loop fuel (cursor + entrySize buf cursor)) :
    loop fuel 0 = answer
      ((records buf).findSome? fun p => if entryNamed buf p name then some (entryInode buf p) else none) := by
  have hscan := scan_eq loop
    (Option.map (answer ∘ some) ∘ fun p => if entryNamed buf p name then some (entryInode buf p) else none) (answer none)
    hzero hend (fun fuel cursor hlt hgood => by
      rw [hvisit fuel cursor hlt hgood, Function.comp_apply]
      split_ifs <;> rfl) hblock.tiles hblock.record (hblock.length_le.trans hfuel)
  rw [hscan, ← List.map_findSome?]
  cases List.findSome? _ _ <;> rfl

theorem nameInBlock_records (hblock : BlockOk buf) (name : Buf) : nameInBlock buf name blockSize 0 =
    (records buf).findSome? fun p => if entryNamed buf p name then some (entryInode buf p) else none := by
  refine scanNamed_eq (nameInBlock buf name) id name hblock le_rfl (fun _ => rfl) (fun _ => rfl) ?_
  intro fuel cursor hlt hgood
  rw [nameInBlock, if_pos hlt, hgood, if_neg Bool.false_ne_true]
  rfl

theorem inside_of_not_badEntry {cursor : Nat} (hgood : badEntry buf cursor = false) :
    8 ≤ entrySize buf cursor ∧ cursor + 8 + entryNameLen buf cursor ≤ blockSize := by
  rw [badEntry, Bool.or_eq_false_iff, Bool.or_eq_false_iff, decide_eq_false_iff_not, decide_eq_false_iff_not,
    decide_eq_false_iff_not, trueSize, align4] at hgood
  omega

/-- In a well-formed block `lookup` never leaves its buffer, and finds what `name_in` finds. -/
theorem lookup_eq (hblock : BlockOk buf) (name : Buf) :
    lookup buf name blockSize = .ok (nameInBlock buf name blockSize 0) := by
  rw [nameInBlock_records hblock]
  refine scanNamed_eq (lookupFrom buf name blockSize) .ok name hblock (Nat.le_succ _) (fun _ => rfl) (fun _ => rfl) ?_
  intro fuel cursor hlt hgood
  obtain ⟨hsize, hinside⟩ := inside_of_not_badEntry hgood
  have hstays : compLeaves buf cursor name = false := by
    rw [compLeaves, decide_eq_false (Nat.not_lt.mpr hinside), Bool.false_and]
  rw [lookupFrom, if_pos hlt, if_neg (by omega), if_neg (by omega), hstays, Bool.or_false,
    decide_eq_false (by omega), if_neg Bool.false_ne_true, entryNamed]
  by_cases hdead : entryInode buf cursor = 0
  · rw [if_pos hdead, decide_eq_false (not_not.mpr hdead), Bool.false_and, if_neg Bool.false_ne_true]
  · rw [if_neg hdead, decide_eq_true hdead, Bool.true_and]

theorem nameInBlock_eq (hblock : BlockOk buf) {name : Buf} (hsearch : Searchable name (blockEntries buf)) :
    nameInBlock buf name blockSize 0 = (findEntry (blockEntries buf) (nameOf name)).map DirEntry.inode := by
  rw [nameInBlock_records hblock]
  exact findSome_entryNamed hsearch id

theorem nameInBlock_eightBit (hblock : BlockOk buf) {name : Buf} (hname : ¬ SevenBit name) :
    nameInBlock buf name blockSize 0 = none := by
  obtain ⟨x, hbit⟩ := not_forall.mp hname
  obtain ⟨hmem, hx⟩ := Classical.not_imp.mp hbit
  rw [nameInBlock_records hblock, List.findSome?_eq_none_iff]
  intro p _
  rw [entryNamed, compName_eq_false hmem hx, Bool.and_false, if_neg Bool.false_ne_true]

theorem blockIsEmpty_eq (hblock : BlockOk buf) (hascii : AsciiNames (blockEntries buf)) :
    blockIsEmpty buf blockSize 0 = (blockEntries buf).all fun e => e.name = dot ∨ e.name = dotDot := by
  have hscan := scan_eq (blockIsEmpty buf) (fun p =>
      if entryInode buf p ≠ 0 && !compName buf p (cstr dot) && !compName buf p (cstr dotDot) then some false
      else none) true (fun _ => rfl) (fun _ => rfl) (fun fuel cursor hlt hgood => by
      rw [blockIsEmpty, if_pos hlt, hgood, if_neg Bool.false_ne_true]
      split_ifs <;> rfl) hblock.tiles hblock.record hblock.length_le
  rw [hscan, blockEntries]
  rw [blockEntries] at hascii
  clear hscan
  generalize records buf = ps at hascii ⊢
  induction ps with
  | nil => rfl
  | cons p ps ih =>
    rw [filterMap_entryAt_cons] at hascii ⊢
    have hrest := ih fun e he => hascii e (List.mem_append_right _ he)
    have hname : ∀ name, entryInode buf p ≠ 0 → (compName buf p name = true ↔ entryName buf p = nameOf name) := by
      intro name hlive
      have hat : entryAt buf p = some ⟨entryName buf p, entryInode buf p, buf (p + 7)⟩ := if_neg hlive
      obtain ⟨hpos, hseven⟩ := hascii.searchable name _ (List.mem_append_left _ (Option.mem_toList.mpr hat))
      exact compName_iff hpos hseven
    rw [List.findSome?_cons, entryAt]
    by_cases hlive : entryInode buf p = 0
    · simpa [hlive] using hrest
    · have hdot := hname (cstr dot) hlive
      have hdotDot := hname (cstr dotDot) hlive
      rw [show nameOf (cstr dot) = dot by decide] at hdot
      rw [show nameOf (cstr dotDot) = dotDot by decide] at hdotDot
      by_cases h1 : entryName buf p = dot
      · simpa [hlive, hdot.mpr h1, h1] using hrest
      · by_cases h2 : entryName buf p = dotDot
        · simpa [hlive, hdotDot.mpr h2, h2] using hrest
        · simp [hlive, hdot.not.mpr h1, hdotDot.not.mpr h2, h1, h2]

/-! ### Writing a record -/

section Write

variable (buf) (off : Nat) (childN : UInt32) (name : Buf) {len : Nat} (type : UInt8)

theorem writeEntry_outside {k : Nat} (hk : k < off ∨ off + 8 + len ≤ k) :
    writeEntry buf off childN name len type k = buf k := by
  rw [writeEntry]
  rw [store8_apply_of_ne _ _ (by omega), splice, if_neg (by omega), store8_apply_of_ne _ _ (by omega),
    store32_apply_of_disjoint _ _ (by omega)]

theorem writeEntry_size : entrySize (writeEntry buf off childN name len type) off = entrySize buf off := by
  rw [entrySize, entrySize]
  congr 1
  refine load16_congr fun k hlow hhigh => ?_
  rw [writeEntry]
  rw [store8_apply_of_ne _ _ (by omega), splice, if_neg (by omega), store8_apply_of_ne _ _ (by omega),
    store32_apply_of_disjoint _ _ (by omega)]

theorem writeEntry_nameLen (hlen : len < 256) : entryNameLen (writeEntry buf off childN name len type) off = len := by
  rw [entryNameLen, writeEntry]
  rw [store8_apply_of_ne _ _ (by omega), splice, if_neg (by omega), store8_apply_self, UInt8.toNat_ofNat']
  exact Nat.mod_eq_of_lt hlen

theorem writeEntry_at (hlen : len < 256) (hchild : childN ≠ 0) :
    entryAt (writeEntry buf off childN name len type) off =
      some ⟨(List.range len).map name, childN, type⟩ := by
  have hinode : entryInode (writeEntry buf off childN name len type) off = childN := by
    refine (load32_congr fun k hlow hhigh => ?_).trans (load32_store32_self buf off childN)
    rw [writeEntry]
    rw [store8_apply_of_ne _ _ (by omega), splice, if_neg (by omega), store8_apply_of_ne _ _ (by omega)]
  have hname : entryName (writeEntry buf off childN name len type) off = (List.range len).map name := by
    rw [entryName, writeEntry_nameLen buf off childN name type hlen]
    apply List.map_congr_left
    intro i hi
    have hi := List.mem_range.mp hi
    rw [writeEntry]
    rw [store8_apply_of_ne _ _ (by omega), splice, if_pos (by omega)]
    congr 1
    omega
  have htype : writeEntry buf off childN name len type (off + 7) = type := store8_apply_self ..
  rw [entryAt, hinode, if_neg hchild, hname, htype]

end Write

theorem setEntrySize_outside (buf : Buf) (off size : Nat) {k : Nat} (hk : k < off + 4 ∨ off + 6 ≤ k) :
    setEntrySize buf off size k = buf k := store16_apply_of_disjoint buf _ (by omega)

theorem setEntrySize_self (buf : Buf) (off : Nat) {size : Nat} (hsize : size ≤ blockSize) :
    entrySize (setEntrySize buf off size) off = size := by
  rw [entrySize, setEntrySize, load16_store16_self, UInt16.toNat_ofNat']
  rw [blockSize] at hsize
  exact Nat.mod_eq_of_lt (by omega)

theorem setEntrySize_at (buf : Buf) (off size : Nat) :
    entryAt (setEntrySize buf off size) off = entryAt buf off ∧
      entryNameLen (setEntrySize buf off size) off = entryNameLen buf off := by
  have hlen : entryNameLen (setEntrySize buf off size) off = entryNameLen buf off := by
    rw [entryNameLen, entryNameLen, setEntrySize_outside _ _ _ (by omega)]
  have hinode : entryInode (setEntrySize buf off size) off = entryInode buf off :=
    load32_congr fun k _ _ => setEntrySize_outside _ _ _ (by omega)
  have hname : entryName (setEntrySize buf off size) off = entryName buf off := by
    rw [entryName, entryName, hlen]
    apply List.map_congr_left
    intro i _
    exact setEntrySize_outside _ _ _ (by omega)
  refine ⟨?_, hlen⟩
  rw [entryAt, entryAt, hinode, hname, setEntrySize_outside _ _ _ (by omega)]

/-! ### Inserting into a block -/

/-- The record is dead and large enough for a name of `len` characters, or has enough slack. -/
def roomAt (buf : Buf) (len p : Nat) : Bool :=
  (entryInode buf p = 0 && align4 (8 + len) ≤ entrySize buf p) ||
    align4 (8 + len) ≤ entrySize buf p - trueSize buf p

theorem BlockOk.room_congr {buf' : Buf} (hblock : BlockOk buf) (hsame : ∀ k < blockSize, buf' k = buf k) (len : Nat) :
    (∃ p ∈ records buf', roomAt buf' len p = true) ↔ ∃ p ∈ records buf, roomAt buf len p = true := by
  have hrecord : ∀ p ∈ records buf, ∀ k, p ≤ k → k < p + entrySize buf p → buf' k = buf k := by
    intro p hp k _ hk
    have hend := hblock.end_le hp
    exact hsame k (by omega)
  have hsize : ∀ p ∈ records buf, 8 ≤ entrySize buf p := fun p hp => by
    have := (hblock.record p hp).le_size
    omega
  have htiles : Tiles (entrySize buf') 0 (records buf) blockSize :=
    hblock.tiles.congr fun p hp => entrySize_congr (hrecord p hp) (hsize p hp)
  have hrecords := (BlockOk.of_tiles htiles fun p hp => (hblock.record p hp).congr (hrecord p hp) (hsize p hp)).2
  rw [hrecords]
  apply exists_congr
  intro p
  apply and_congr_right
  intro hp
  rw [roomAt, roomAt, entryInode_congr (hrecord p hp) (hsize p hp), entrySize_congr (hrecord p hp) (hsize p hp),
    trueSize_congr (hrecord p hp) (hsize p hp)]

def placeEntry (buf : Buf) (childN : UInt32) (name : Buf) (len : Nat) (type : UInt8) (p : Nat) : Buf :=
  if entryInode buf p = 0 ∧ align4 (8 + len) ≤ entrySize buf p then writeEntry buf p childN name len type
  else
    writeEntry (setEntrySize (setEntrySize buf p (trueSize buf p)) (p + trueSize buf p)
      (entrySize buf p - trueSize buf p)) (p + trueSize buf p) childN name len type

theorem insertInBlock_eq (hblock : BlockOk buf) (childN : UInt32) (name : Buf) (len : Nat) (type : UInt8) :
    (insertInBlock buf childN name len type blockSize 0 = .notFound ∧
      ∀ p ∈ records buf, roomAt buf len p = false) ∨
    ∃ p ∈ records buf, roomAt buf len p = true ∧
      insertInBlock buf childN name len type blockSize 0 = .found (placeEntry buf childN name len type p) := by
  have hscan := scan_eq (insertInBlock buf childN name len type)
    (fun p => if roomAt buf len p then some (.found (placeEntry buf childN name len type p)) else none)
    .notFound (fun _ => rfl) (fun _ => rfl) (fun fuel cursor hlt hgood => by
      rw [insertInBlock, if_pos hlt, hgood, if_neg Bool.false_ne_true]
      by_cases hdead : entryInode buf cursor = 0 ∧ align4 (8 + len) ≤ entrySize buf cursor
      · simp [roomAt, placeEntry, hdead]
      · by_cases hslack : align4 (8 + len) ≤ entrySize buf cursor - trueSize buf cursor
        · simp [roomAt, placeEntry, hdead, hslack]
        · have hroom : roomAt buf len cursor = false := by
            simp only [roomAt, Bool.or_eq_false_iff, Bool.and_eq_false_imp, decide_eq_true_eq,
              decide_eq_false_iff_not]
            exact ⟨fun h h' => hdead ⟨h, h'⟩, hslack⟩
          simp [hroom, hdead, hslack]) hblock.tiles hblock.record hblock.length_le
  rw [hscan]
  cases hfind : (records buf).findSome? fun p =>
      if roomAt buf len p then some (Scan.found (placeEntry buf childN name len type p)) else none with
  | none =>
    refine .inl ⟨rfl, fun p hp => ?_⟩
    simpa using List.findSome?_eq_none_iff.mp hfind p hp
  | some result =>
    obtain ⟨p, hp, hvisit⟩ := List.exists_of_findSome?_eq_some hfind
    split_ifs at hvisit with hroom
    cases hvisit
    exact .inr ⟨p, hp, hroom, rfl⟩

def Inserts (es es' : List DirEntry) (e : DirEntry) : Prop := ∃ before after, es = before ++ after ∧ es' = before ++ e :: after

theorem blockEntries_split (hsplit : records buf = xs ++ p :: ys) : blockEntries buf =
    xs.filterMap (entryAt buf) ++ ((entryAt buf p).toList ++ ys.filterMap (entryAt buf)) := by
  rw [blockEntries, hsplit, List.filterMap_append, filterMap_entryAt_cons]

theorem BlockOk.edit {rs : List Nat} (hblock : BlockOk buf) (hsplit : records buf = xs ++ rs ++ ys)
    (buf' : Buf) (qs : List Nat)
    (hedit : ∀ a b, b ≤ blockSize → Tiles (entrySize buf) a rs b →
      (∀ k, k < a ∨ b ≤ k → buf' k = buf k) ∧ Tiles (entrySize buf') a qs b)
    (hrecord : ∀ q ∈ qs, RecordOk buf' q) :
    BlockOk buf' ∧ records buf' = xs ++ qs ++ ys ∧
      blockEntries buf' = xs.filterMap (entryAt buf) ++
        (qs.filterMap (entryAt buf') ++ ys.filterMap (entryAt buf)) := by
  have hmem : ∀ q ∈ xs ++ ys, q ∈ records buf := by
    intro q hq
    rw [hsplit, List.append_assoc]
    rcases List.mem_append.mp hq with hq | hq
    · exact List.mem_append_left _ hq
    · exact List.mem_append_right _ (List.mem_append_right rs hq)
  have htilesOld := hblock.tiles
  rw [hsplit] at htilesOld
  obtain ⟨a, b, hstretch, hend, hapart⟩ := htilesOld.stretch
  have hkeep : ∀ q ∈ xs ++ ys, ∀ k, q ≤ k → k < q + entrySize buf q → buf' k = buf k := by
    intro q hq k hlow hhigh
    have hapart := hapart q hq
    exact (hedit a b hend hstretch).1 k (by omega)
  have hsize : ∀ q ∈ xs ++ ys, 8 + entryNameLen buf q ≤ entrySize buf q := fun q hq =>
    (hblock.record q (hmem q hq)).le_size
  have hat : ∀ q ∈ xs ++ ys, entryAt buf' q = entryAt buf q := fun q hq =>
    entryAt_congr (hkeep q hq) (hsize q hq)
  have htilesNew : Tiles (entrySize buf') 0 (xs ++ qs ++ ys) blockSize := by
    refine htilesOld.replace ?_ fun q hq => entrySize_congr (hkeep q hq) (by have := hsize q hq; omega)
    intro a b _ hend hold
    exact (hedit a b hend hold).2
  have hok : ∀ q ∈ xs ++ qs ++ ys, RecordOk buf' q := by
    intro q hq
    rcases List.mem_append.mp hq with hq | hq
    · rcases List.mem_append.mp hq with hq | hq
      · have hq' := List.mem_append_left ys hq
        exact (hblock.record q (hmem q hq')).congr (hkeep q hq') (by have := hsize q hq'; omega)
      · exact hrecord q hq
    · have hq' := List.mem_append_right xs hq
      exact (hblock.record q (hmem q hq')).congr (hkeep q hq') (by have := hsize q hq'; omega)
  obtain ⟨hblock', hrecords⟩ := BlockOk.of_tiles htilesNew hok
  refine ⟨hblock', hrecords, ?_⟩
  rw [blockEntries, hrecords, List.filterMap_append, List.filterMap_append, List.append_assoc]
  congr 1
  · exact List.filterMap_congr fun q hq => hat q (List.mem_append_left ys hq)
  · congr 1
    exact List.filterMap_congr fun q hq => hat q (List.mem_append_right xs hq)

theorem BlockOk.editOne (hblock : BlockOk buf) (hsplit : records buf = xs ++ p :: ys) (buf' : Buf) (qs : List Nat)
    (hsame : ∀ k, k < p ∨ p + entrySize buf p ≤ k → buf' k = buf k)
    (htiles : Tiles (entrySize buf') p qs (p + entrySize buf p)) (hrecord : ∀ q ∈ qs, RecordOk buf' q) :
    BlockOk buf' ∧ records buf' = xs ++ qs ++ ys ∧
      blockEntries buf' = xs.filterMap (entryAt buf) ++
        (qs.filterMap (entryAt buf') ++ ys.filterMap (entryAt buf)) := by
  have hone : records buf = xs ++ [p] ++ ys := by simpa using hsplit
  refine hblock.edit hone buf' qs ?_ hrecord
  intro a b _ hone
  obtain ⟨rfl, -, rfl⟩ := tiles_singleton.mp hone
  exact ⟨hsame, htiles⟩

theorem dvd_align4 (n : Nat) : 4 ∣ align4 n := Nat.dvd_mul_left ..

theorem le_align4 (n : Nat) : n ≤ align4 n := by
  rw [align4]
  omega

section Place

variable {childN : UInt32} {name : Buf} {len : Nat} {type : UInt8}

theorem BlockOk.reuse (hblock : BlockOk buf) (hp : p ∈ records buf) (hdead : entryInode buf p = 0)
    (hfits : align4 (8 + len) ≤ entrySize buf p) (hlen : len < 256) (hchild : childN ≠ 0) :
    BlockOk (writeEntry buf p childN name len type) ∧
      Inserts (blockEntries buf) (blockEntries (writeEntry buf p childN name len type))
        ⟨(List.range len).map name, childN, type⟩ := by
  obtain ⟨xs, ys, hsplit⟩ := List.append_of_mem hp
  have hge := le_align4 (8 + len)
  have hsize : entrySize (writeEntry buf p childN name len type) p = entrySize buf p := writeEntry_size ..
  have hnameLen := writeEntry_nameLen buf p childN name type hlen
  have hrecord : RecordOk (writeEntry buf p childN name len type) p := by
    refine ⟨?_, ?_⟩
    · rw [hsize]
      exact (hblock.record p hp).dvd
    · rw [hsize, trueSize, hnameLen]
      exact hfits
  obtain ⟨hblock', -, hentries⟩ := hblock.editOne hsplit (writeEntry buf p childN name len type) [p]
    (fun k hk => writeEntry_outside buf p childN name type (by omega))
    (tiles_singleton.mpr ⟨rfl, by rw [hsize]; omega, by rw [hsize]⟩)
    (fun q hq => by rw [List.mem_singleton.mp hq]; exact hrecord)
  refine ⟨hblock', xs.filterMap (entryAt buf), ys.filterMap (entryAt buf), ?_, ?_⟩
  · rw [blockEntries_split hsplit, entryAt, if_pos hdead]
    rfl
  · rw [hentries, filterMap_entryAt_cons, writeEntry_at buf p childN name type hlen hchild]
    rfl

theorem BlockOk.splitSlack (hblock : BlockOk buf) (hp : p ∈ records buf)
    (hslack : align4 (8 + len) ≤ entrySize buf p - trueSize buf p) (hlen : len < 256) (hchild : childN ≠ 0) :
    BlockOk (writeEntry (setEntrySize (setEntrySize buf p (trueSize buf p)) (p + trueSize buf p)
      (entrySize buf p - trueSize buf p)) (p + trueSize buf p) childN name len type) ∧
      Inserts (blockEntries buf) (blockEntries (writeEntry (setEntrySize
        (setEntrySize buf p (trueSize buf p)) (p + trueSize buf p) (entrySize buf p - trueSize buf p))
        (p + trueSize buf p) childN name len type)) ⟨(List.range len).map name, childN, type⟩ := by
  obtain ⟨xs, ys, hsplit⟩ := List.append_of_mem hp
  have hge := le_align4 (8 + len)
  have hend := hblock.end_le hp
  have htrue := trueSize_ge buf p
  have hdvd := (hblock.record p hp).dvd
  obtain ⟨next, hnext⟩ : ∃ next, next = p + trueSize buf p := ⟨_, rfl⟩
  obtain ⟨slack, hslackEq⟩ : ∃ slack, slack = entrySize buf p - trueSize buf p := ⟨_, rfl⟩
  rw [← hnext, ← hslackEq]
  obtain ⟨mid, hmid⟩ : ∃ mid, mid = setEntrySize (setEntrySize buf p (trueSize buf p)) next slack := ⟨_, rfl⟩
  rw [← hmid]
  -- the first record: only its size changes
  have hfirst : ∀ k, p ≤ k → k < p + trueSize buf p →
      writeEntry mid next childN name len type k = setEntrySize buf p (trueSize buf p) k := by
    intro k _ hk
    rw [writeEntry_outside _ _ _ _ _ (by omega), hmid, setEntrySize_outside _ _ _ (by omega)]
  have hsizeP : entrySize (writeEntry mid next childN name len type) p = trueSize buf p := by
    rw [entrySize_congr hfirst (by omega), setEntrySize_self _ _ (by omega)]
  obtain ⟨hatSet, hlenSet⟩ := setEntrySize_at buf p (trueSize buf p)
  have hlenP : entryNameLen (writeEntry mid next childN name len type) p = entryNameLen buf p := by
    rw [entryNameLen_congr hfirst (by omega), hlenSet]
  have hatP : entryAt (writeEntry mid next childN name len type) p = entryAt buf p := by
    rw [entryAt_congr hfirst (by rw [hlenSet]; omega), hatSet]
  -- the second record: the new entry in what was the slack
  have hsizeN : entrySize (writeEntry mid next childN name len type) next = slack := by
    rw [writeEntry_size, hmid, setEntrySize_self _ _ (by omega)]
  have hlenN := writeEntry_nameLen mid next childN name type hlen
  obtain ⟨hblock', -, hentries⟩ := hblock.editOne hsplit (writeEntry mid next childN name len type) [p, next]
    (fun k hk => by
      rw [writeEntry_outside _ _ _ _ _ (by omega), hmid, setEntrySize_outside _ _ _ (by omega),
        setEntrySize_outside _ _ _ (by omega)])
    ⟨rfl, by rw [hsizeP]; omega, by rw [hsizeP, hnext], by rw [hsizeN]; omega, by rw [hsizeN]; change _ = _; omega⟩
    (by
      intro q hq
      have htrueDvd : 4 ∣ trueSize buf p := dvd_align4 _
      rcases List.mem_cons.mp hq with rfl | hq
      · refine ⟨by rw [hsizeP]; exact htrueDvd, ?_⟩
        rw [hsizeP, trueSize, hlenP, trueSize]
      · rw [List.mem_singleton.mp hq]
        refine ⟨by rw [hsizeN, hslackEq]; exact Nat.dvd_sub hdvd htrueDvd, ?_⟩
        rw [hsizeN, trueSize, hlenN]
        omega)
  refine ⟨hblock', xs.filterMap (entryAt buf) ++ (entryAt buf p).toList, ys.filterMap (entryAt buf), ?_, ?_⟩
  · rw [blockEntries_split hsplit, List.append_assoc]
  · rw [hentries, filterMap_entryAt_cons, filterMap_entryAt_cons, hatP,
      writeEntry_at mid next childN name type hlen hchild]
    simp

theorem insertInBlock_spec (hblock : BlockOk buf) (hlen : len < 256) (hchild : childN ≠ 0) :
    (insertInBlock buf childN name len type blockSize 0 = .notFound ∧
      ¬ ∃ p ∈ records buf, roomAt buf len p = true) ∨
    ∃ p ∈ records buf, roomAt buf len p = true ∧
      insertInBlock buf childN name len type blockSize 0 = .found (placeEntry buf childN name len type p) ∧
      BlockOk (placeEntry buf childN name len type p) ∧
      Inserts (blockEntries buf) (blockEntries (placeEntry buf childN name len type p))
        ⟨(List.range len).map name, childN, type⟩ := by
  obtain ⟨hnone, hfull⟩ | ⟨p, hp, hroom, hfound⟩ := insertInBlock_eq hblock childN name len type
  · refine .inl ⟨hnone, ?_⟩
    rintro ⟨p, hp, hroom⟩
    rw [hfull p hp] at hroom
    cases hroom
  · refine .inr ⟨p, hp, hroom, hfound, ?_⟩
    rw [placeEntry]
    split_ifs with hdead
    · exact hblock.reuse hp hdead.1 hdead.2 hlen hchild
    · refine hblock.splitSlack hp ?_ hlen hchild
      simp only [roomAt, Bool.or_eq_true, Bool.and_eq_true, decide_eq_true_eq] at hroom
      exact hroom.resolve_left hdead

end Place

theorem seedBlock_spec {childN : UInt32} {name : Buf} {len : Nat} {type : UInt8} (hlen : len < 256)
    (hchild : childN ≠ 0) : BlockOk (seedBlock childN name len type) ∧
      blockEntries (seedBlock childN name len type) = [⟨(List.range len).map name, childN, type⟩] := by
  have hsize : entrySize (seedBlock childN name len type) 0 = blockSize := by
    rw [seedBlock, writeEntry_size, setEntrySize_self _ _ le_rfl]
  have hnameLen : entryNameLen (seedBlock childN name len type) 0 = len := writeEntry_nameLen _ _ _ _ _ hlen
  have htiles : Tiles (entrySize (seedBlock childN name len type)) 0 [0] blockSize :=
    tiles_singleton.mpr ⟨rfl, by rw [hsize]; decide, by rw [hsize, Nat.zero_add]⟩
  obtain ⟨hblock, hrecords⟩ := BlockOk.of_tiles htiles (by
      intro p hp
      rw [List.mem_singleton.mp hp]
      refine ⟨?_, ?_⟩
      · rw [hsize]
        decide
      · rw [hsize, trueSize, hnameLen, align4, blockSize]
        omega)
  refine ⟨hblock, ?_⟩
  rw [blockEntries, hrecords, filterMap_entryAt_cons, seedBlock, writeEntry_at _ _ _ _ _ hlen hchild]
  rfl

/-! ### Removing from a block -/

theorem removeInBlock_from (name : Buf) (htiles : Tiles (entrySize buf) start ps blockSize)
    (hrecord : ∀ p ∈ ps, RecordOk buf p) {fuel : Nat} (hfuel : ps.length ≤ fuel) (prev : Nat) :
    (removeInBlock buf name fuel start prev = .notFound ∧ ∀ p ∈ ps, entryNamed buf p name = false) ∨
    ∃ xs p ys, ps = xs ++ p :: ys ∧ (∀ q ∈ xs, entryNamed buf q name = false) ∧ entryNamed buf p name = true ∧
      removeInBlock buf name fuel start prev = .found (entryInode buf p,
        if p = 0 then store32 buf p 0
        else setEntrySize buf (xs.getLastD prev) (entrySize buf (xs.getLastD prev) + entrySize buf p)) := by
  induction ps generalizing start fuel prev with
  | nil =>
    refine .inl ⟨?_, nofun⟩
    cases fuel with
    | zero => rfl
    | succ fuel =>
      rw [removeInBlock, if_neg]
      rw [tiles_nil.mp htiles]
      exact lt_irrefl _
  | cons p ps ih =>
    obtain ⟨rfl, hpos, hrest⟩ := htiles
    cases fuel with
    | zero => cases hfuel
    | succ fuel =>
      have hle := hrest.le
      have hgood := (hrecord p List.mem_cons_self).not_badEntry hle
      rw [removeInBlock, if_pos (by omega), hgood, if_neg Bool.false_ne_true]
      by_cases hnamed : entryNamed buf p name = true
      · exact .inr ⟨[], p, ps, rfl, nofun, hnamed, by rw [if_pos hnamed]; rfl⟩
      · rw [if_neg hnamed]
        have hnamed := Bool.eq_false_iff.mpr hnamed
        obtain ⟨hnone, hall⟩ | ⟨xs, q, ys, rfl, hxs, hq, hfound⟩ :=
          ih hrest (fun q hq => hrecord q (List.mem_cons_of_mem p hq)) (Nat.le_of_succ_le_succ hfuel) p
        · exact .inl ⟨hnone, List.forall_mem_cons.mpr ⟨hnamed, hall⟩⟩
        · refine .inr ⟨p :: xs, q, ys, rfl, List.forall_mem_cons.mpr ⟨hnamed, hxs⟩, hq, ?_⟩
          rw [hfound, List.getLastD_cons]

theorem BlockOk.renumber (hblock : BlockOk buf) (hsplit : records buf = xs ++ p :: ys) (n : UInt32) :
    BlockOk (store32 buf p n) ∧ blockEntries (store32 buf p n) = xs.filterMap (entryAt buf) ++
      ((if n = 0 then none else some ⟨entryName buf p, n, buf (p + 7)⟩ : Option DirEntry).toList ++
        ys.filterMap (entryAt buf)) := by
  have hp : p ∈ records buf := by
    rw [hsplit]
    exact List.mem_append_right xs List.mem_cons_self
  have hge := (hblock.record p hp).le_size
  have hsize : entrySize (store32 buf p n) p = entrySize buf p := by
    rw [entrySize, entrySize, load16_congr fun k _ _ => store32_apply_of_disjoint _ _ (by omega)]
  have hnameLen : entryNameLen (store32 buf p n) p = entryNameLen buf p := by
    rw [entryNameLen, entryNameLen, store32_apply_of_disjoint _ _ (by omega)]
  have hname : entryName (store32 buf p n) p = entryName buf p := by
    rw [entryName, entryName, hnameLen]
    apply List.map_congr_left
    intro i _
    exact store32_apply_of_disjoint _ _ (by omega)
  have hat : entryAt (store32 buf p n) p = if n = 0 then none else some ⟨entryName buf p, n, buf (p + 7)⟩ := by
    rw [entryAt, entryInode, load32_store32_self, hname, store32_apply_of_disjoint _ _ (by omega)]
  obtain ⟨hblock', -, hentries⟩ := hblock.editOne hsplit (store32 buf p n) [p]
    (fun k hk => store32_apply_of_disjoint _ _ (by omega))
    (tiles_singleton.mpr ⟨rfl, by rw [hsize]; omega, by rw [hsize]⟩) (by
      intro q hq
      rw [List.mem_singleton.mp hq]
      refine ⟨?_, ?_⟩
      · rw [hsize]
        exact (hblock.record p hp).dvd
      · rw [hsize, trueSize, hnameLen]
        exact (hblock.record p hp).fits)
  refine ⟨hblock', ?_⟩
  rw [hentries, filterMap_entryAt_cons, hat, List.filterMap_nil, List.append_nil]

theorem BlockOk.merge {q : Nat} (hblock : BlockOk buf) (hsplit : records buf = xs ++ q :: p :: ys) :
    BlockOk (setEntrySize buf q (entrySize buf q + entrySize buf p)) ∧
      blockEntries (setEntrySize buf q (entrySize buf q + entrySize buf p)) =
        xs.filterMap (entryAt buf) ++ ((entryAt buf q).toList ++ ys.filterMap (entryAt buf)) := by
  have hstretch : records buf = xs ++ [q, p] ++ ys := by simpa using hsplit
  have hmem : ∀ r ∈ [q, p], r ∈ records buf := by
    intro r hr
    rw [hstretch, List.append_assoc]
    exact List.mem_append_right xs (List.mem_append_left ys hr)
  have hq := hmem q (by simp)
  have hp := hmem p (by simp)
  have htiles := hblock.tiles
  rw [hstretch] at htiles
  obtain ⟨a, b, ⟨rfl, hpos, rfl, -, hb⟩, hend, -⟩ := htiles.stretch
  have hb : q + entrySize buf q + entrySize buf (q + entrySize buf q) = b := hb
  have hge := (hblock.record q hq).le_size
  have hsum : entrySize buf q + entrySize buf (q + entrySize buf q) ≤ blockSize := by omega
  have hsize := setEntrySize_self buf q hsum
  obtain ⟨hat, hnameLen⟩ := setEntrySize_at buf q (entrySize buf q + entrySize buf (q + entrySize buf q))
  obtain ⟨hblock', -, hentries⟩ := hblock.edit hstretch
    (setEntrySize buf q (entrySize buf q + entrySize buf (q + entrySize buf q))) [q] (by
      rintro a b - ⟨rfl, -, -, -, hb⟩
      have hb : q + entrySize buf q + entrySize buf (q + entrySize buf q) = b := hb
      refine ⟨fun k hk => setEntrySize_outside _ _ _ (by omega), ?_⟩
      exact tiles_singleton.mpr ⟨rfl, by rw [hsize]; omega, by rw [hsize]; omega⟩) (by
      intro r hr
      rw [List.mem_singleton.mp hr]
      refine ⟨?_, ?_⟩
      · rw [hsize]
        exact Nat.dvd_add (hblock.record q hq).dvd (hblock.record _ hp).dvd
      · rw [hsize, trueSize, hnameLen]
        exact (hblock.record q hq).fits.trans (Nat.le_add_right _ _))
  refine ⟨hblock', ?_⟩
  rw [hentries, filterMap_entryAt_cons, hat, List.filterMap_nil, List.append_nil]

theorem entries_named_split {name : Buf} (hsearch : Searchable name (blockEntries buf))
    (hsplit : records buf = xs ++ p :: ys) (hbefore : ∀ q ∈ xs, entryNamed buf q name = false)
    (hnamed : entryNamed buf p name = true) :
    ∃ e, entryAt buf p = some e ∧ e.name = nameOf name ∧
      ∀ e' ∈ xs.filterMap (entryAt buf), e'.name ≠ nameOf name := by
  have hat : ∀ q ∈ records buf, entryNamed buf q name = (entryAt buf q).any fun e => e.name = nameOf name :=
    fun q hq => entryNamed_eq fun e he => hsearch e (List.mem_filterMap.mpr ⟨q, hq, Option.mem_toList.mp he⟩)
  rw [hsplit] at hat
  rw [hat p (List.mem_append_right xs List.mem_cons_self), Option.any_eq_true] at hnamed
  obtain ⟨e, he, hname⟩ := hnamed
  refine ⟨e, he, of_decide_eq_true hname, ?_⟩
  intro e' he' heq
  obtain ⟨q, hq, hq'⟩ := List.mem_filterMap.mp he'
  have hno := hbefore q hq
  rw [hat q (List.mem_append_left _ hq), hq', Option.any_some, decide_eq_false_iff_not] at hno
  exact hno heq

theorem removeInBlock_spec (hblock : BlockOk buf) {name : Buf} (hsearch : Searchable name (blockEntries buf)) :
    (removeInBlock buf name blockSize 0 0 = .notFound ∧ findEntry (blockEntries buf) (nameOf name) = none) ∨
    ∃ before e after buf', removeInBlock buf name blockSize 0 0 = .found (e.inode, buf') ∧ e.name = nameOf name ∧
      blockEntries buf = before ++ e :: after ∧ (∀ e' ∈ before, e'.name ≠ nameOf name) ∧ BlockOk buf' ∧
      blockEntries buf' = before ++ after := by
  obtain ⟨hnone, hall⟩ | ⟨xs, p, ys, hsplit, hbefore, hnamed, hfound⟩ :=
    removeInBlock_from name hblock.tiles hblock.record hblock.length_le 0
  · refine .inl ⟨hnone, ?_⟩
    have hresult := findSome_entryNamed hsearch id
    rw [List.findSome?_eq_none_iff.mpr fun p hp => by rw [hall p hp]; rfl] at hresult
    exact Option.map_eq_none_iff.mp hresult.symm
  · obtain ⟨e, he, hname, hnot⟩ := entries_named_split hsearch hsplit hbefore hnamed
    have hentries : blockEntries buf = xs.filterMap (entryAt buf) ++ e :: ys.filterMap (entryAt buf) := by
      rw [blockEntries_split hsplit, he]
      rfl
    rw [entryAt_inode he] at hfound
    refine .inr ⟨_, e, _, _, hfound, hname, hentries, hnot, ?_⟩
    rcases List.eq_nil_or_concat xs with rfl | ⟨zs, q, rfl⟩
    · have hzero : p = 0 := by
        have htiles := hblock.tiles
        rw [hsplit] at htiles
        exact htiles.1
      rw [if_pos hzero]
      exact hblock.renumber hsplit 0
    · have hsplit : records buf = zs ++ q :: p :: ys := by simpa using hsplit
      have hne : p ≠ 0 := by
        have htiles := hblock.tiles
        rw [hsplit] at htiles
        obtain ⟨mid, -, rfl, hpos, rfl, -⟩ := tiles_append.mp htiles
        omega
      rw [if_neg hne, List.concat_eq_append, List.getLastD_concat]
      obtain ⟨hblock', hentries'⟩ := hblock.merge hsplit
      refine ⟨hblock', ?_⟩
      rw [hentries', List.filterMap_append, List.append_assoc, filterMap_entryAt_cons, List.filterMap_nil,
        List.append_nil]

end DeprecatOS
