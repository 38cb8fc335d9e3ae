import DeprecatOS.Proof.Failure
import DeprecatOS.Proof.FreeSpace
import DeprecatOS.Proof.Operations

/-!
# How many free blocks a whole file needs

`write_inode` takes the triply indirect block, and for a thirteenth block the doubly indirect one, before
it is known whether they are used, and gives them back at the end. Until then nothing is given back, so
the blocks it needs are all those it takes on the way: more than the file has in the end.
-/

namespace DeprecatOS

open Bytes Bits Fault PointerTree

def pointerBlocks (n : Nat) : Nat :=
  if n ≤ 12 then 0 else if n ≤ 1036 then 1 else 2 + (n - 1036 + 1023) / 1024

/-- The pointer blocks that `write_inode` takes on the way to a file of `n` blocks. -/
def takenPointerBlocks (n : Nat) : Nat :=
  if n ≤ 12 then 1 else if n ≤ 1036 then 3 else 3 + (n - 1036 + 1023) / 1024

variable {static : UInt32 → Prop} {fs fs₁ fs' : FsInfo}

inductive Demand (static : UInt32 → Prop) (fs fs' : FsInfo) (cnt : Nat) : Bool → Prop
  | met (mounted : Mounted static fs') (used : ∀ b, fs.Used b → fs'.Used b) (free : fs'.freeBlocks + cnt = fs.freeBlocks) :
      Demand static fs fs' cnt true
  | unmet (free : fs.freeBlocks < cnt) : Demand static fs fs' cnt false

theorem Demand.none (hmounted : Mounted static fs) : Demand static fs fs 0 true :=
  .met hmounted (fun _ hb => hb) rfl

theorem Demand.mounted {cnt : Nat} (hdemand : Demand static fs fs' cnt true) : Mounted static fs' := by
  cases hdemand with
  | met hmounted => exact hmounted

theorem Demand.used {cnt : Nat} (hdemand : Demand static fs fs' cnt true) {b : UInt32} (hb : fs.Used b) : fs'.Used b := by
  cases hdemand with
  | met _ hused => exact hused b hb

theorem Demand.trans {ok : Bool} {before cnt total : Nat} (hfirst : Demand static fs fs₁ before true)
    (hsecond : Demand static fs₁ fs' cnt ok) (htotal : before + cnt = total) : Demand static fs fs' total ok := by
  cases hfirst with
  | met _ hused hfree =>
    cases hsecond with
    | met hmounted hused' hfree' => exact .met hmounted (fun b hb => hused' b (hused b hb)) (by omega)
    | unmet hfree' => exact .unmet (by omega)

theorem Demand.unmet_of_le {cnt total : Nat} (hdemand : Demand static fs fs₁ cnt false) (hle : cnt ≤ total) :
    Demand static fs fs' total false := by
  cases hdemand with
  | unmet hfree => exact .unmet (by omega)

theorem Demand.enough_iff {ok : Bool} {cnt : Nat} (hdemand : Demand static fs fs' cnt ok) : ok = true ↔ cnt ≤ fs.freeBlocks := by
  cases hdemand with
  | met _ _ hfree => exact ⟨fun _ => by omega, fun _ => rfl⟩
  | unmet hfree => exact ⟨nofun, fun hle => by omega⟩

inductive Taking (static : UInt32 → Prop) (fs fs₁ : FsInfo) : UInt32 → Prop
  | none (free : fs.freeBlocks = 0) : Taking static fs fs₁ 0
  | some {b : UInt32} (ne_zero : b ≠ 0) (used : fs₁.Used b) (notStatic : ¬ static b) (demand : Demand static fs fs₁ 1 true) :
      Taking static fs fs₁ b

theorem Mounted.allocBlock_taking (hmounted : Mounted static fs) {b : UInt32} (hrun : allocBlock fs = .ok (b, fs₁)) :
    Taking static fs fs₁ b := by
  obtain ⟨rfl, -⟩ | htook := hmounted.allocBlock_spec.of_run hrun
  · exact .none (hmounted.allocBlock_zero hrun)
  · refine .some htook.ne_zero ((htook.used b).mpr (.inr rfl)) htook.notStatic ?_
    exact .met htook.frame.mounted (fun q hq => (htook.used q).mpr (.inl hq)) (htook.freeBlocks hmounted)

theorem Demand.write {cnt : Nat} (hdemand : Demand static fs fs₁ cnt true) {b : UInt32} (hb : fs₁.Used b)
    (hstatic : ¬ static b) {buf : Buf} {u : Unit} (hrun : writeBlock b buf fs₁ = .ok (u, fs')) :
    Demand static fs fs' cnt true := by
  have hwrote := (hdemand.mounted.writeBlock_spec hb hstatic buf).of_run hrun
  have hnone : Demand static fs₁ fs' 0 true := .met hwrote.frame.mounted (fun q hq => (hwrote.used q).mpr hq)
    (hwrote.frame.freeBlocks hdemand.mounted hwrote.used)
  exact hdemand.trans hnone (Nat.add_zero cnt)

section Loops

variable {buf : Buf} {ok : Bool}

theorem Progress.toNat_advance {w : Progress} (hleft : w.blocksLeft ≠ 0) :
    0 < w.blocksLeft.toNat ∧ w.advance.blocksLeft.toNat = w.blocksLeft.toNat - 1 := by
  have hpos : 0 < w.blocksLeft.toNat := Nat.pos_of_ne_zero fun h => hleft (UInt32.toNat_inj.mp h)
  refine ⟨hpos, UInt32.toNat_sub_of_le _ _ (UInt32.le_iff_toNat_le.mpr hpos)⟩

theorem writeDirect_demand {fuel i : Nat} {w w' : Progress} (hmounted : Mounted static fs)
    (hrun : writeDirect buf fuel i w fs = .ok ((ok, w'), fs')) :
    Demand static fs fs' (min fuel w.blocksLeft.toNat) ok ∧
      (ok = true → w'.blocksLeft.toNat = w.blocksLeft.toNat - fuel) := by
  induction fuel generalizing i w fs with
  | zero =>
    cases hrun
    rw [Nat.zero_min]
    exact ⟨.none hmounted, fun _ => rfl⟩
  | succ fuel ih =>
    rw [writeDirect] at hrun
    by_cases hleft : w.blocksLeft = 0
    · rw [if_pos hleft] at hrun
      cases hrun
      rw [hleft]
      exact ⟨.none hmounted, fun _ => (Nat.zero_sub _).symm⟩
    rw [if_neg hleft] at hrun
    obtain ⟨hpos, hadvance⟩ := Progress.toNat_advance hleft
    obtain ⟨b, fs₁, halloc, hnext⟩ := run_bind_eq_ok hrun
    cases hmounted.allocBlock_taking halloc with
    | none hnone =>
      rw [if_pos (show (0 : UInt32) = blockError from rfl)] at hnext
      obtain ⟨_, fs₂, -, hlast⟩ := run_bind_eq_ok hnext
      cases hlast
      exact ⟨.unmet (by omega), fun hok => by cases hok⟩
    | some hne hused hstatic hdemand =>
      rw [if_neg (show b ≠ blockError from hne)] at hnext
      obtain ⟨_, fs₂, hwrite, hrest⟩ := run_bind_eq_ok hnext
      have hfirst := hdemand.write hused hstatic hwrite
      obtain ⟨hlater, hleft'⟩ := ih hfirst.mounted hrest
      change Demand static fs₂ fs' (min fuel w.advance.blocksLeft.toNat) ok at hlater
      change ok = true → w'.blocksLeft.toNat = w.advance.blocksLeft.toNat - fuel at hleft'
      refine ⟨hfirst.trans hlater (by omega), fun hok => ?_⟩
      have hlast := hleft' hok
      omega

theorem writeIndir_demand {fuel i : Nat} {blk blk' : Buf} {w w' : Progress} (hmounted : Mounted static fs)
    (hrun : writeIndir buf fuel i blk w fs = .ok ((ok, blk', w'), fs')) :
    Demand static fs fs' (min fuel w.blocksLeft.toNat) ok ∧
      (ok = true → w'.blocksLeft.toNat = w.blocksLeft.toNat - fuel) := by
  induction fuel generalizing i w blk fs with
  | zero =>
    cases hrun
    rw [Nat.zero_min]
    exact ⟨.none hmounted, fun _ => rfl⟩
  | succ fuel ih =>
    rw [writeIndir] at hrun
    by_cases hleft : w.blocksLeft = 0
    · rw [if_pos hleft] at hrun
      cases hrun
      rw [hleft]
      exact ⟨.none hmounted, fun _ => (Nat.zero_sub _).symm⟩
    rw [if_neg hleft] at hrun
    obtain ⟨hpos, hadvance⟩ := Progress.toNat_advance hleft
    obtain ⟨b, fs₁, halloc, hnext⟩ := run_bind_eq_ok hrun
    cases hmounted.allocBlock_taking halloc with
    | none hnone =>
      rw [if_pos (show (0 : UInt32) = blockError from rfl)] at hnext
      cases hnext
      exact ⟨.unmet (by omega), fun hok => by cases hok⟩
    | some hne hused hstatic hdemand =>
      rw [if_neg (show b ≠ blockError from hne)] at hnext
      obtain ⟨_, fs₂, hwrite, hrest⟩ := run_bind_eq_ok hnext
      have hfirst := hdemand.write hused hstatic hwrite
      obtain ⟨hlater, hleft'⟩ := ih hfirst.mounted hrest
      refine ⟨hfirst.trans hlater (by omega), fun hok => ?_⟩
      have hlast := hleft' hok
      omega

theorem writeDoubly_demand {triple double : UInt32} {blk : Buf} {fuel idx : Nat} {d d' : Doubly}
    (hmounted : Mounted static fs) (hrun : writeDoubly buf triple double blk fuel idx d fs = .ok ((ok, d'), fs')) :
    Demand static fs fs' (min (1024 * fuel) d.progress.blocksLeft.toNat +
        min fuel ((d.progress.blocksLeft.toNat + 1023) / 1024)) ok ∧
      (ok = true → d'.progress.blocksLeft.toNat = d.progress.blocksLeft.toNat - 1024 * fuel) := by
  induction fuel generalizing idx d fs with
  | zero =>
    cases hrun
    rw [Nat.mul_zero, Nat.zero_min, Nat.zero_min]
    exact ⟨.none hmounted, fun _ => rfl⟩
  | succ fuel ih =>
    rw [writeDoubly] at hrun
    by_cases hleft : d.progress.blocksLeft = 0
    · rw [if_pos hleft] at hrun
      cases hrun
      rw [hleft]
      refine ⟨?_, fun _ => (Nat.zero_sub _).symm⟩
      change Demand static fs' fs' (min (1024 * (fuel + 1)) 0 + min (fuel + 1) 0) true
      rw [Nat.min_zero, Nat.min_zero]
      exact .none hmounted
    rw [if_neg hleft] at hrun
    obtain ⟨hpos, -⟩ := Progress.toNat_advance hleft
    obtain ⟨b, fs₁, halloc, hnext⟩ := run_bind_eq_ok hrun
    cases hmounted.allocBlock_taking halloc with
    | none hnone =>
      rw [if_pos (show (0 : UInt32) = blockError from rfl)] at hnext
      iterate 7 obtain ⟨_, _, -, hnext⟩ := run_bind_eq_ok hnext
      cases hnext
      exact ⟨.unmet (by omega), fun hok => by cases hok⟩
    | some hne hused hstatic hdemand =>
      rw [if_neg (show b ≠ blockError from hne)] at hnext
      obtain ⟨⟨filled, blk', w⟩, fs₂, hindir, hrest⟩ := run_bind_eq_ok hnext
      obtain ⟨hdata, hleft'⟩ := writeIndir_demand hdemand.mounted hindir
      rw [ptrsPerBlk, show d.progress.countBlock.blocksLeft = d.progress.blocksLeft from rfl] at hdata hleft'
      have hboth := hdemand.trans hdata rfl
      dsimp only at hrest
      cases filled with
      | false =>
        rw [if_neg Bool.false_ne_true] at hrest
        iterate 9 obtain ⟨_, _, -, hrest⟩ := run_bind_eq_ok hrest
        cases hrest
        exact ⟨hboth.unmet_of_le (by omega), fun hok => by cases hok⟩
      | true =>
        rw [if_pos rfl] at hrest
        -- In each branch the loop goes on with the progress of the inner loop.
        have hgo : ∀ {fs₃ : FsInfo} {d₂ : Doubly}, d₂.progress.blocksLeft = w.blocksLeft →
            Demand static fs fs₃ (1 + min 1024 d.progress.blocksLeft.toNat) true →
            writeDoubly buf triple double blk fuel (idx + 1) d₂ fs₃ = .ok ((ok, d'), fs') →
            Demand static fs fs' (min (1024 * (fuel + 1)) d.progress.blocksLeft.toNat +
                min (fuel + 1) ((d.progress.blocksLeft.toNat + 1023) / 1024)) ok ∧
              (ok = true → d'.progress.blocksLeft.toNat = d.progress.blocksLeft.toNat - 1024 * (fuel + 1)) := by
          intro fs₃ d₂ hd₂ hfirst hrun
          obtain ⟨hlater, hlast⟩ := ih hfirst.mounted hrun
          rw [hd₂, hleft' rfl] at hlater hlast
          refine ⟨hfirst.trans hlater (by omega), fun hok => ?_⟩
          have hend := hlast hok
          omega
        by_cases hmore : 0 < w.blocksLeft ∨ d.flushed = false
        · rw [if_pos hmore] at hrest
          by_cases hflushed : d.flushed = false
          · rw [if_pos hflushed] at hrest
            obtain ⟨_, fs₃, hwrite, hrest⟩ := run_bind_eq_ok hrest
            have hfirst := hboth.write (hdata.used hused) hstatic hwrite
            split_ifs at hrest
            · exact hgo rfl hfirst hrest
            · exact hgo rfl hfirst hrest
          · rw [if_neg hflushed] at hrest
            split_ifs at hrest
            · exact hgo rfl hboth hrest
            · exact hgo rfl hboth hrest
        · rw [if_neg hmore] at hrest
          exact hgo rfl hboth hrest

theorem writeTriply_demand {triple : UInt32} {t t' : Triply} (hmounted : Mounted static fs)
    (hsmall : t.progress.blocksLeft.toNat ≤ 1048576)
    (hrun : writeTriply buf triple ptrsPerBlk 0 t fs = .ok ((ok, t'), fs')) :
    ok = true ↔ t.progress.blocksLeft = 0 ∨
      1 + t.progress.blocksLeft.toNat + (t.progress.blocksLeft.toNat + 1023) / 1024 ≤ fs.freeBlocks := by
  rw [show ptrsPerBlk = 1023 + 1 from rfl, writeTriply] at hrun
  by_cases hleft : t.progress.blocksLeft = 0
  · rw [if_pos hleft] at hrun
    cases hrun
    exact iff_of_true rfl (.inl hleft)
  rw [if_neg hleft] at hrun
  rw [or_iff_right hleft]
  obtain ⟨b, fs₁, halloc, hnext⟩ := run_bind_eq_ok hrun
  cases hmounted.allocBlock_taking halloc with
  | none hnone =>
    rw [if_pos (show (0 : UInt32) = blockError from rfl)] at hnext
    iterate 5 obtain ⟨_, _, -, hnext⟩ := run_bind_eq_ok hnext
    cases hnext
    exact iff_of_false Bool.false_ne_true (by omega)
  | some hne hused hstatic hdemand =>
    rw [if_neg (show b ≠ blockError from hne)] at hnext
    obtain ⟨⟨filled, d⟩, fs₂, hdoubly, hrest⟩ := run_bind_eq_ok hnext
    obtain ⟨hdata, hleft'⟩ := writeDoubly_demand hdemand.mounted hdoubly
    have hcost : 1 + (min (1024 * 1024) t.progress.blocksLeft.toNat +
        min 1024 ((t.progress.blocksLeft.toNat + 1023) / 1024)) =
        1 + t.progress.blocksLeft.toNat + (t.progress.blocksLeft.toNat + 1023) / 1024 := by omega
    rw [← (hdemand.trans hdata hcost).enough_iff]
    dsimp only at hrest
    cases filled with
    | false =>
      rw [if_neg Bool.false_ne_true] at hrest
      cases hrest
      rfl
    | true =>
      refine iff_of_true ?_ rfl
      rw [if_pos rfl] at hrest
      have hdone : d.progress.blocksLeft = 0 := by
        have hnat := hleft' rfl
        rw [ptrsPerBlk, Nat.sub_eq_zero_of_le (by omega)] at hnat
        exact UInt32.toNat_inj.mp hnat
      by_cases hdouble : d.hasDouble = true
      · rw [if_pos hdouble] at hrest
        obtain ⟨_, fs₃, -, hlast⟩ := run_bind_eq_ok hrest
        rw [if_pos rfl, writeTriply_done _ _ _ _ hdone] at hlast
        cases hlast
        rfl
      · rw [if_neg hdouble] at hrest
        obtain ⟨_, fs₃, -, hlast⟩ := run_bind_eq_ok hrest
        rw [writeTriply_done _ _ _ _ hdone] at hlast
        cases hlast
        rfl

end Loops

theorem takenPointerBlocks_eq (n : Nat) : takenPointerBlocks n =
    if n ≤ 12 then 1 else 2 + (n - 12 + 1023) / 1024 := by
  rw [takenPointerBlocks]
  split_ifs <;> omega

/-- Writing a file succeeds exactly when all the blocks taken on the way are free. -/
theorem Mounted.writeInode_iff (hmounted : Mounted static fs) {buf : Buf} {inode : Inode} {result : Bool × Inode}
    (hsize : inode.sizeLo.toNat ≤ maxSize) (hrun : writeInode buf inode fs = .ok (result, fs')) :
    result.1 = true ↔ sizeBlocks inode.sizeLo + takenPointerBlocks (sizeBlocks inode.sizeLo) ≤ fs.freeBlocks := by
  have hsmall : sizeBlocks inode.sizeLo ≤ 1048576 := by
    rw [sizeBlocks]
    rw [maxSize] at hsize
    omega
  rw [writeInode] at hrun
  obtain ⟨⟨direct, w⟩, fs₁, hdirect, hnext⟩ := run_bind_eq_ok hrun
  obtain ⟨hdata, hleft⟩ := writeDirect_demand hmounted hdirect
  rw [toNat_blocksFor hsize] at hdata hleft
  rw [takenPointerBlocks_eq]
  generalize sizeBlocks inode.sizeLo = n at *
  cases hdata with
  | unmet hfree =>
    cases hnext
    refine iff_of_false Bool.false_ne_true ?_
    split_ifs <;> omega
  | met hmounted₁ hused hfree =>
    rw [inodeBlkPtrAmt] at hfree hleft
    have hw := hleft rfl
    dsimp only at hnext
    rw [if_pos rfl] at hnext
    obtain ⟨b, fs₂, halloc, hrest⟩ := run_bind_eq_ok hnext
    cases hmounted₁.allocBlock_taking halloc with
    | none hnone =>
      rw [if_pos (show (0 : UInt32) = blockError from rfl)] at hrest
      obtain ⟨_, fs₃, -, hlast⟩ := run_bind_eq_ok hrest
      cases hlast
      refine iff_of_false Bool.false_ne_true ?_
      split_ifs <;> omega
    | some hne _ _ hdemand =>
      rw [if_neg (show b ≠ blockError from hne)] at hrest
      obtain ⟨⟨ok, t⟩, fs₃, htriply, hlast⟩ := run_bind_eq_ok hrest
      have hok : ok = true ↔ w.blocksLeft = 0 ∨
          1 + w.blocksLeft.toNat + (w.blocksLeft.toNat + 1023) / 1024 ≤ fs₂.freeBlocks :=
        writeTriply_demand hdemand.mounted (show w.blocksLeft.toNat ≤ 1048576 by omega) htriply
      have hresult : result.1 = ok := by
        dsimp only at hlast
        split_ifs at hlast with htrue htriple
        · obtain ⟨_, fs₄, -, hend⟩ := run_bind_eq_ok hlast
          cases hend
          exact htrue.symm
        · obtain ⟨_, fs₄, -, hend⟩ := run_bind_eq_ok hlast
          cases hend
          exact htrue.symm
        · cases hlast
          exact (Bool.not_eq_true _ ▸ htrue : ok = false).symm
      cases hdemand with
      | met _ _ hfree₂ =>
        rw [hresult, hok, ← UInt32.toNat_inj, hw]
        change n - 12 = 0 ∨ _ ↔ _
        split_ifs <;> omega

theorem Mounted.putInode_iff (hmounted : Mounted static fs) {now fSize : UInt32} {buf : Buf} {isDir : Bool}
    {result : Option (UInt32 × Inode)} (hsize : fSize.toNat ≤ maxSize)
    (hrun : putInode now buf fSize isDir fs = .ok (result, fs')) :
    result.isSome = true ↔ (∃ n, fs.geo.Real .inode n ∧ fs.marked .inode n = false) ∧
      sizeBlocks fSize + takenPointerBlocks (sizeBlocks fSize) ≤ fs.freeBlocks := by
  rw [putInode] at hrun
  obtain ⟨minted, fs₁, hmint, hnext⟩ := run_bind_eq_ok hrun
  obtain ⟨rfl, rfl⟩ | ⟨n, rfl, hne, hreal, hfree, hmarked⟩ := (hmounted.mintInode_spec now fSize _).of_run hmint
  · cases hnext
    refine ⟨(fun hok => by cases hok), ?_⟩
    rintro ⟨⟨n, hreal, hunmarked⟩, -⟩
    rw [mintInode] at hmint
    obtain ⟨n', fs₂, halloc, hlast⟩ := run_bind_eq_ok hmint
    obtain ⟨-, -, hall⟩ | ⟨hne, -⟩ := (allocBit_spec hmounted.sound).of_run halloc
    · rw [hall n hreal] at hunmarked
      cases hunmarked
    · rw [if_neg (show n' ≠ inodeError from hne)] at hlast
      cases hlast
  dsimp only at hnext
  obtain ⟨written, fs₂, hwrite, hlast⟩ := run_bind_eq_ok hnext
  have henough : written.1 = true ↔ sizeBlocks fSize + takenPointerBlocks (sizeBlocks fSize) ≤ fs₁.freeBlocks :=
    hmarked.mounted.writeInode_iff hsize hwrite
  rw [freeBlocks_eq hmounted.sound hmarked.mounted.sound hmarked.geo hmarked.used] at henough
  rw [and_iff_right ⟨n, hreal, hfree⟩, ← henough]
  obtain ⟨ok, written⟩ := written
  cases ok with
  | false =>
    obtain ⟨_, fs₃, -, hend⟩ := run_bind_eq_ok hlast
    cases hend
    simp
  | true =>
    refine ⟨fun _ => rfl, fun _ => ?_⟩
    have hgeo := (Stays.writeInode _ _).keepsGeo _ _ _ hwrite
    have hreal₂ : fs₂.geo.Real .inode n := by
      rw [hgeo, hmarked.geo]
      exact hreal
    dsimp only at hlast
    rw [if_pos rfl, run_bind_ok (run_get fs₂)] at hlast
    by_cases hguard : fs₂.ngroups ≤ (n - firstInodeN) / fs₂.inodesPerGrp ∨ fs₂.inodeCnt < n
    · rw [if_pos hguard] at hlast
      cases hlast
    rw [if_neg hguard] at hlast
    obtain ⟨stored, fs₃, hset, hcount⟩ := run_bind_eq_ok hlast
    rw [(setInode_eq_ok hset).mpr hreal₂, if_pos rfl] at hcount
    cases isDir with
    | false =>
      cases hcount
      rfl
    | true =>
      rw [if_pos rfl, run_bind_ok (run_get fs₃)] at hcount
      obtain ⟨_, fs₄, -, hrest⟩ := run_bind_eq_ok hcount
      obtain ⟨_, fs₅, -, hend⟩ := run_bind_eq_ok hrest
      cases hend
      rfl

end DeprecatOS
