import DeprecatOS.Mount
import DeprecatOS.Paths
import DeprecatOS.Proof.Geometry
import DeprecatOS.Proof.Sample

/-!
# Operations stay on the root and the mounted filesystems

No program on one filesystem changes where that filesystem is mounted, so the mount table is the same at
every crossing of one operation, and the operation stays on filesystems that are the root or mounted.
-/

namespace DeprecatOS

open Bytes Bits Fault

theorem setInode_ne_zero {n : UInt32} {inode : Inode} {fs fs' : FsInfo}
    (hrun : setInode n inode fs = .ok (true, fs')) : n ≠ 0 :=
  UInt32.pos_iff_ne_zero.mp ((setInode_eq_ok hrun).mp rfl).1

theorem putInode_ne_zero {now size n : UInt32} {buf : Buf} {isDir : Bool} {inode : Inode}
    {fs fs' : FsInfo} (hrun : putInode now buf size isDir fs = .ok (some (n, inode), fs')) : n ≠ 0 := by
  obtain ⟨minted, fs₁, -, hrun⟩ := run_bind_eq_ok hrun
  cases minted with
  | none => cases hrun
  | some minted =>
    obtain ⟨⟨ok, written⟩, fs₂, -, hrun⟩ := run_bind_eq_ok hrun
    cases ok with
    | false =>
      obtain ⟨freed, fs₃, -, hrun⟩ := run_bind_eq_ok hrun
      cases hrun
    | true =>
      obtain ⟨fs₀, mid, hget, hrun⟩ := run_bind_eq_ok hrun
      dsimp only at hrun
      split at hrun
      · cases hrun
      · obtain ⟨ok, fs₃, hset, hrun⟩ := run_bind_eq_ok hrun
        cases ok with
        | false => cases hrun
        | true =>
          have hne := setInode_ne_zero hset
          cases isDir with
          | false =>
            cases hrun
            exact hne
          | true =>
            obtain ⟨_, _, -, hrun⟩ := run_bind_eq_ok hrun
            obtain ⟨_, _, -, hrun⟩ := run_bind_eq_ok hrun
            obtain ⟨_, _, -, hrun⟩ := run_bind_eq_ok hrun
            cases hrun
            exact hne

theorem onFs_putInode_ne_zero {now size n : UInt32} {buf : Buf} {isDir : Bool} {inode : Inode} {fs : Slot}
    {m m' : Machine} (hrun : onFs fs (putInode now buf size isDir) m = .ok (some (n, inode), m')) :
    n ≠ 0 := by
  rw [onFs, zoom] at hrun
  split at hrun
  · next a info hput =>
    cases hrun
    exact putInode_ne_zero hput
  · cases hrun

/-! ### Confined programs -/

/-- Every filesystem in use has a geometry that keeps the code in its buffers. -/
def Machine.InBounds (m : Machine) : Prop := ∀ i, m.Live i → (m.fsEntries i).geo.InBounds

structure Machine.Serves (m : Machine) (fs : Slot) : Prop where
  inBounds : m.InBounds
  live : m.Live fs

/-- What a call may be given: a filesystem in use, and on the root not inode 0. -/
structure Machine.Enters (m : Machine) (fs : Slot) (n : UInt32) : Prop where
  serves : m.Serves fs
  ne_zero : fs = m.rootFs → n ≠ 0

theorem Machine.mntRoot_cases (m : Machine) (fs : Slot) (n : UInt32) :
    (m.mntRoot fs n).2 = (fs, n) ∨
      fs = m.rootFs ∧ ∃ part, (m.fsEntries part).mountpoint = n ∧ (m.mntRoot fs n).2 = (part, rootInodeN) := by
  rw [Machine.mntRoot]
  split
  · exact .inl rfl
  · next hroot =>
    split
    · next part hpart => exact .inr ⟨not_not.mp hroot, part, by simpa using List.find?_some hpart, rfl⟩
    · exact .inl rfl

theorem Machine.live_mntRoot {m : Machine} {fs : Slot} {n : UInt32} (hlive : m.Live fs) (hne : fs = m.rootFs → n ≠ 0) :
    m.Live (m.mntRoot fs n).2.1 := by
  obtain hsame | ⟨hroot, part, rfl, hplace⟩ := m.mntRoot_cases fs n
  · rwa [hsame]
  · rw [hplace]
    exact .inr (hne hroot)

theorem Machine.Enters.mntRoot {m : Machine} {fs : Slot} {n : UInt32} (hin : m.Enters fs n) :
    m.Enters (m.mntRoot fs n).2.1 (m.mntRoot fs n).2.2 where
  serves := ⟨hin.serves.inBounds, Machine.live_mntRoot hin.serves.live hin.ne_zero⟩
  ne_zero := by
    obtain hsame | ⟨-, part, -, hplace⟩ := m.mntRoot_cases fs n
    · rw [hsame]
      exact hin.ne_zero
    · rw [hplace]
      exact fun _ => show rootInodeN ≠ 0 by decide

structure Machine.Agree (m m' : Machine) : Prop where
  root : m'.rootFs = m.rootFs
  table : ∀ i, (m'.fsEntries i).mountpoint = (m.fsEntries i).mountpoint
  live : ∀ i, m.Live i → m'.fsEntries i = m.fsEntries i

structure Machine.Untouched (m m' : Machine) : Prop where
  root : m'.rootFs = m.rootFs
  geo : ∀ i, (m'.fsEntries i).geo = (m.fsEntries i).geo
  rest : ∀ i, ¬ m.Live i → m'.fsEntries i = m.fsEntries i

theorem Machine.withFs_geo {m : Machine} {fs : Slot} {info : FsInfo} (hgeo : info.geo = (m.fsEntries fs).geo) (i : Slot) :
    ((m.withFs fs info).fsEntries i).geo = (m.fsEntries i).geo := by
  change (Function.update m.fsEntries fs info i).geo = _
  by_cases hi : i = fs
  · rw [hi, Function.update_self, hgeo]
  · rw [Function.update_of_ne hi]

namespace Machine.Untouched

variable {m m' : Machine} (huntouched : m.Untouched m')

include huntouched

theorem table (i : Slot) : (m'.fsEntries i).mountpoint = (m.fsEntries i).mountpoint :=
  congrArg Geo.mountpoint (huntouched.geo i)

theorem live (i : Slot) : m'.Live i ↔ m.Live i := by
  rw [Machine.Live, Machine.Live, huntouched.root, huntouched.table]

theorem serves {fs : Slot} (hserves : m.Serves fs) : m'.Serves fs where
  inBounds i hi := by
    rw [huntouched.geo]
    exact hserves.inBounds i ((huntouched.live i).mp hi)
  live := (huntouched.live fs).mpr hserves.live

theorem enters {fs : Slot} {n : UInt32} (henters : m.Enters fs n) : m'.Enters fs n where
  serves := huntouched.serves henters.serves
  ne_zero hroot := henters.ne_zero (hroot.trans huntouched.root)

end Machine.Untouched

/-- From `m` the program stays in its buffers and writes only filesystems in use, and how it ends depends only on
them. -/
structure Confined {α : Type} (prog : MachineM α) (m : Machine) : Prop where
  writes : ∀ a m₁, prog m = .ok (a, m₁) → m.Untouched m₁
  reads : ∀ m', m.Agree m' → ∀ a m₁, prog m = .ok (a, m₁) →
    ∃ m₁', prog m' = .ok (a, m₁') ∧ m₁.Agree m₁'
  stops : ∀ m', m.Agree m' → ∀ e, prog m = .error e → prog m' = .error e
  defined : prog m ≠ .error .undefined

namespace Confined

variable {α β : Type} {m : Machine}

theorem pure (a : α) : Confined (Pure.pure a) m where
  writes b m₁ hrun := by
    cases hrun
    exact ⟨rfl, fun _ => rfl, fun _ _ => rfl⟩
  reads m' hagree b m₁ hrun := by
    cases hrun
    exact ⟨m', rfl, hagree⟩
  stops m' hagree e hrun := by cases hrun
  defined hrun := by cases hrun

theorem bind {prog : MachineM α} {rest : α → MachineM β} (hprog : Confined prog m)
    (hrest : ∀ a m₁, m.Untouched m₁ → prog m = .ok (a, m₁) → Confined (rest a) m₁) :
    Confined (prog >>= rest) m where
  writes b m₂ hrun := by
    obtain ⟨a, m₁, hfirst, hnext⟩ := run_bind_eq_ok hrun
    have h₁ := hprog.writes a m₁ hfirst
    have h₂ := (hrest a m₁ h₁ hfirst).writes b m₂ hnext
    refine ⟨h₂.root.trans h₁.root, fun i => (h₂.geo i).trans (h₁.geo i), fun i hi => ?_⟩
    exact (h₂.rest i fun hin => hi ((h₁.live i).mp hin)).trans (h₁.rest i hi)
  reads m' hagree b m₂ hrun := by
    obtain ⟨a, m₁, hfirst, hnext⟩ := run_bind_eq_ok hrun
    obtain ⟨m₁', hfirst', hagree₁⟩ := hprog.reads m' hagree a m₁ hfirst
    obtain ⟨m₂', hnext', hagree₂⟩ :=
      (hrest a m₁ (hprog.writes a m₁ hfirst) hfirst).reads m₁' hagree₁ b m₂ hnext
    exact ⟨m₂', by rw [run_bind_ok hfirst', hnext'], hagree₂⟩
  stops m' hagree e hrun := by
    cases hfirst : prog m with
    | error e' =>
      change (prog m >>= fun p => rest p.1 p.2) = _ at hrun
      rw [hfirst] at hrun
      cases hrun
      change (prog m' >>= fun p => rest p.1 p.2) = _
      rw [hprog.stops m' hagree e hfirst]
      rfl
    | ok result =>
      obtain ⟨a, m₁⟩ := result
      rw [run_bind_ok hfirst] at hrun
      obtain ⟨m₁', hfirst', hagree₁⟩ := hprog.reads m' hagree a m₁ hfirst
      rw [run_bind_ok hfirst']
      exact (hrest a m₁ (hprog.writes a m₁ hfirst) hfirst).stops m₁' hagree₁ e hrun
  defined := run_bind_ne_error hprog.defined fun a m₁ hfirst =>
    (hrest a m₁ (hprog.writes a m₁ hfirst) hfirst).defined

theorem onFs {prog : FsM α} {fs : Slot} (hfs : m.Serves fs) (hstays : Stays (fun _ => True) prog) :
    Confined (onFs fs prog) m := by
  have hsame : ∀ m', m.Agree m' → m'.fsEntries fs = m.fsEntries fs := fun m' hagree => hagree.live fs hfs.live
  cases hrun : prog (m.fsEntries fs) with
  | error e =>
    have hstop : ∀ m' : Machine, m'.fsEntries fs = m.fsEntries fs → DeprecatOS.onFs fs prog m' = .error e := by
      intro m' heq
      rw [DeprecatOS.onFs, zoom, heq, hrun]
    refine ⟨fun a m₁ h => ?_, fun m' _ a m₁ h => ?_, fun m' hagree e' h => ?_, fun h => ?_⟩
    · rw [hstop m rfl] at h
      cases h
    · rw [hstop m rfl] at h
      cases h
    · rw [hstop m rfl] at h
      cases h
      exact hstop m' (hsame m' hagree)
    · rw [hstop m rfl] at h
      cases h
      exact hstays.defined (hfs.inBounds fs hfs.live) hrun
  | ok result =>
    obtain ⟨a, info⟩ := result
    have hgeo : info.geo = (m.fsEntries fs).geo := hstays.keeps _ _ _ hrun
    have hstep : ∀ m' : Machine, m'.fsEntries fs = m.fsEntries fs →
        DeprecatOS.onFs fs prog m' = .ok (a, m'.withFs fs info) := by
      intro m' heq
      rw [DeprecatOS.onFs, zoom, heq, hrun]
    have hgeos : ∀ m' : Machine, m'.fsEntries fs = m.fsEntries fs → ∀ i,
        ((m'.withFs fs info).fsEntries i).geo = (m'.fsEntries i).geo := fun m' heq =>
      Machine.withFs_geo (by rw [hgeo, heq])
    have htable : ∀ m' : Machine, m'.fsEntries fs = m.fsEntries fs → ∀ i,
        ((m'.withFs fs info).fsEntries i).mountpoint = (m'.fsEntries i).mountpoint := fun m' heq i =>
      congrArg Geo.mountpoint (hgeos m' heq i)
    refine ⟨fun b m₁ h => ?_, fun m' hagree b m₁ h => ?_, fun m' _ e h => ?_, fun h => ?_⟩
    · rw [hstep m rfl] at h
      cases h
      refine ⟨rfl, hgeos m rfl, fun i hi => Function.update_of_ne ?_ _ _⟩
      rintro rfl
      exact hi hfs.live
    · rw [hstep m rfl] at h
      cases h
      have heq := hsame m' hagree
      refine ⟨m'.withFs fs info, hstep m' heq, hagree.root, fun i => ?_, fun i hi => ?_⟩
      · rw [htable m' heq, htable m rfl, hagree.table]
      · have hold : m.Live i := by
          rw [Machine.Live, htable m rfl] at hi
          exact hi
        change Function.update m'.fsEntries fs info i = Function.update m.fsEntries fs info i
        by_cases hi : i = fs
        · rw [hi, Function.update_self, Function.update_self]
        · rw [Function.update_of_ne hi, Function.update_of_ne hi, hagree.live i hold]
    · rw [hstep m rfl] at h
      cases h
    · rw [hstep m rfl] at h
      cases h

theorem returnMntRoot (fs : Slot) (n : UInt32) : Confined (returnMntRoot fs n) m where
  writes b m₁ hrun := by
    cases hrun
    exact ⟨rfl, fun _ => rfl, fun _ _ => rfl⟩
  reads m' hagree b m₁ hrun := by
    cases hrun
    refine ⟨m', ?_, hagree⟩
    have heq : m'.mntRoot fs n = m.mntRoot fs n := by
      rw [Machine.mntRoot, Machine.mntRoot, hagree.root]
      simp only [hagree.table]
    change Except.ok (m'.mntRoot fs n, m') = _
    rw [heq]
  stops m' hagree e hrun := by cases hrun
  defined hrun := by cases hrun

theorem crossing {fs : Slot} {n : UInt32} (hin : m.Enters fs n) {rest : Bool × Slot × UInt32 → MachineM β}
    (hrest : ∀ busy fs' n', m.Enters fs' n' → Confined (rest (busy, fs', n')) m) :
    Confined (DeprecatOS.returnMntRoot fs n >>= rest) m := by
  refine .bind (returnMntRoot fs n) fun result m₁ _ hrun => ?_
  cases hrun
  exact hrest _ _ _ hin.mntRoot

section Operations

variable {fs : Slot} {n : UInt32} (now : UInt32) (name : Buf)

theorem dirInsert (hin : m.Enters fs n) (childN : UInt32) : Confined (dirInsert now fs n name childN) m := by
  unfold DeprecatOS.dirInsert
  dsimp only
  split
  · exact .pure _
  · refine .bind (.onFs hin.serves (.getInode childN)) fun child m₁ hm₁ _ => ?_
    split
    · exact .pure _
    · refine .crossing (hm₁.enters hin) fun busy fs' n' hin' => ?_
      dsimp only
      split
      · exact .pure _
      · exact .onFs hin'.serves (.insertEntry _ _ _ _ _ _)

theorem dirRemove (hin : m.Enters fs n) : Confined (dirRemove now fs n name) m := by
  unfold DeprecatOS.dirRemove
  dsimp only
  split
  · exact .pure _
  · exact .crossing hin fun busy fs' n' hin' => .onFs hin'.serves (.removeEntry _ _ _)

theorem makeIn_bind (hin : m.Enters fs n) {rest : Option (Slot × UInt32) → MachineM β}
    (hnone : ∀ m₁, Confined (rest none) m₁)
    (hsome : ∀ m₁ fs' n', m₁.Enters fs' n' → Confined (rest (some (fs', n'))) m₁) :
    Confined (makeIn fs n name >>= rest) m := by
  unfold makeIn
  dsimp only
  split
  · exact hnone m
  · rw [bind_assoc]
    refine .crossing hin fun busy fs' n' hin' => ?_
    dsimp only
    rw [bind_assoc]
    refine .bind (.onFs hin'.serves (.getInode n')) fun parent m₁ hm₁ _ => ?_
    split
    · exact hnone m₁
    · split
      · exact hnone m₁
      · rw [bind_assoc]
        have hin₁ := hm₁.enters hin'
        refine .bind (.onFs hin₁.serves (.nameIn _ name)) fun found m₂ hm₂ _ => ?_
        split
        · exact hnone m₂
        · exact hsome m₂ fs' n' (hm₂.enters hin₁)

theorem makeDir (hin : m.Enters fs n) : Confined (makeDir now fs n name) m := by
  refine makeIn_bind name hin (fun m₁ => .pure _) fun m₁ fs' n' hin₁ => ?_
  refine .bind (.onFs hin₁.serves (.putInode now _ 4096 true)) fun child m₂ hm₂ hrun => ?_
  have hin₂ := hm₂.enters hin₁
  cases child with
  | none => exact .pure _
  | some child =>
    obtain ⟨childN, inode⟩ := child
    have hchild : ∀ m' : Machine, m'.Serves fs' → m'.Enters fs' childN := fun m' hserves =>
      ⟨hserves, fun _ => onFs_putInode_ne_zero hrun⟩
    refine .bind (.dirInsert now _ (hchild m₂ hin₂.serves) childN) fun ok m₃ hm₃ _ => ?_
    have hin₃ := hm₃.enters hin₂
    split
    · refine .bind (.dirInsert now _ (hchild m₃ hin₃.serves) n') fun ok m₄ hm₄ _ => ?_
      split
      · refine .bind (.dirInsert now name (hm₄.enters hin₃) childN) fun ok m₅ _ _ => ?_
        split
        · exact .pure _
        · exact .pure _
      · exact .pure _
    · exact .pure _

theorem makeFile (hin : m.Enters fs n) : Confined (makeFile now fs n name) m := by
  refine makeIn_bind name hin (fun m₁ => .pure _) fun m₁ fs' n' hin₁ => ?_
  refine .bind (.onFs hin₁.serves (.putInode now _ 0 false)) fun child m₂ hm₂ _ => ?_
  cases child with
  | none => exact .pure _
  | some child =>
    obtain ⟨childN, inode⟩ := child
    have hin₂ := hm₂.enters hin₁
    refine .bind (.dirInsert now name hin₂ childN) fun ok m₃ hm₃ _ => ?_
    split
    · exact .pure _
    · exact .bind (.onFs (hm₃.enters hin₂).serves (.freeInode childN)) fun _ _ _ _ => .pure _

theorem unlinkInode (hin : m.Enters fs n) : Confined (unlinkInode now fs n name) m := by
  unfold DeprecatOS.unlinkInode
  refine .crossing hin fun busy fs' n' hin' => ?_
  refine .bind (.onFs hin'.serves (.getInode n')) fun parent m₁ hm₁ _ => ?_
  have hin₁ := hm₁.enters hin'
  split
  · exact .pure _
  · split
    · exact .pure _
    · refine .bind (.onFs hin₁.serves (.nameIn _ name)) fun found m₂ hm₂ _ => ?_
      have hin₂ := hm₂.enters hin₁
      split
      · exact .pure _
      · refine .bind (.onFs hin₂.serves (.getInode _)) fun toRemove m₃ hm₃ _ => ?_
        have hin₃ := hm₃.enters hin₂
        split
        · exact .pure _
        · split
          · exact .pure _
          · refine .bind (.dirRemove now name hin₃) fun removed m₄ hm₄ _ => ?_
            have hin₄ := hm₄.enters hin₃
            split
            · exact .pure _
            · refine .bind (.onFs hin₄.serves (.getInode _)) fun inode m₅ hm₅ _ => ?_
              split
              · exact .pure _
              · split
                · exact .onFs (hm₅.enters hin₄).serves (.deleteInode now _)
                · exact .pure _

theorem unlinkDir (hin : m.Enters fs n) : Confined (unlinkDir now fs n name) m := by
  unfold DeprecatOS.unlinkDir
  split
  · exact .pure _
  refine .crossing hin fun busy fs' n' hin' => ?_
  refine .bind (.onFs hin'.serves (.getInode n')) fun parent m₁ hm₁ _ => ?_
  have hin₁ := hm₁.enters hin'
  split
  · exact .pure _
  · split
    · exact .pure _
    · refine .bind (.onFs hin₁.serves (.nameIn _ name)) fun found m₂ hm₂ _ => ?_
      have hin₂ := hm₂.enters hin₁
      split
      · exact .pure _
      · -- only whether the child is a mountpoint is looked at, not where it leads
        refine .bind (.returnMntRoot fs' _) fun crossed m₃ hm₃ _ => ?_
        have hin₃ := hm₃.enters hin₂
        dsimp only
        split
        · exact .pure _
        · refine .bind (.onFs hin₃.serves (.getInode _)) fun toRemove m₄ hm₄ _ => ?_
          have hin₄ := hm₄.enters hin₃
          split
          · exact .pure _
          · split
            · exact .pure _
            · refine .bind (.onFs hin₄.serves (.dirIsEmpty _)) fun isEmpty m₅ hm₅ _ => ?_
              have hin₅ := hm₅.enters hin₄
              split
              · refine .bind (.dirRemove now name hin₅) fun removed m₆ hm₆ _ => ?_
                split
                · exact .pure _
                · exact .onFs (hm₆.enters hin₅).serves (.dropDir now _ _)
              · exact .pure _

variable {newParentN : UInt32} (newName : Buf)

theorem moveEntry (hin : m.Enters fs n) (hnew : m.Enters fs newParentN) (childN : UInt32) :
    Confined (renameInode.moveEntry now fs n name newParentN newName childN) m := by
  unfold renameInode.moveEntry
  refine .bind (.onFs hin.serves (.getInode childN)) fun child m₁ hm₁ _ => ?_
  have hin₁ := hm₁.enters hin
  split
  · exact .pure _
  · have hcheck : ∀ child : Inode, Confined (if child.type = inodeDirType then
        DeprecatOS.onFs fs (DeprecatOS.isAncestor childN newParentN) else Pure.pure false) m₁ := by
      intro child
      split
      · exact .onFs hin₁.serves (.isAncestor _ _)
      · exact .pure _
    refine .bind (hcheck _) fun below m₂ hm₂ _ => ?_
    split
    · exact .pure _
    · refine .bind (.dirInsert now newName (hm₂.enters (hm₁.enters hnew)) childN) fun ok m₃ hm₃ _ => ?_
      have hin₃ := hm₃.enters (hm₂.enters hin₁)
      split
      · refine .bind (.dirRemove now name hin₃) fun removed m₄ hm₄ _ => ?_
        split
        · exact .pure _
        · split
          · exact .onFs (hm₄.enters hin₃).serves (.moveParentLink _ _ _)
          · exact .pure _
      · exact .pure _

theorem renameInode (hin : m.Enters fs n) (hnew : m.Enters fs newParentN) :
    Confined (renameInode now fs n name newParentN newName) m := by
  unfold DeprecatOS.renameInode
  split
  · exact .pure _
  refine .crossing hin fun _ oldFs n' hold => ?_
  refine .crossing hnew fun _ newFs new' hnew' => ?_
  dsimp only
  split
  · exact .pure _
  next hsame =>
  obtain rfl : oldFs = newFs := not_not.mp hsame
  refine .bind (.onFs hold.serves (.getInode n')) fun oldParent m₁ hm₁ _ => ?_
  have hserves₁ := hm₁.serves hold.serves
  split
  · exact .pure _
  split
  · exact .pure _
  refine .bind (.onFs hserves₁ (.getInode new')) fun newParent m₂ hm₂ _ => ?_
  have hserves₂ := hm₂.serves hserves₁
  split
  · exact .pure _
  split
  · exact .pure _
  refine .bind (.onFs hserves₂ (.nameIn _ name)) fun found m₃ hm₃ _ => ?_
  have hserves₃ := hm₃.serves hserves₂
  split
  · exact .pure _
  refine .bind (.returnMntRoot oldFs _) fun crossed m₄ hm₄ _ => ?_
  have hserves₄ := hm₄.serves hserves₃
  split
  · exact .pure _
  refine .bind (.onFs hserves₄ (.nameIn _ newName)) fun taken m₅ hm₅ _ => ?_
  split
  · exact .pure _
  split
  · exact .pure _
  have hcarry : ∀ k, m.Enters oldFs k → m₅.Enters oldFs k := fun k henters =>
    hm₅.enters (hm₄.enters (hm₃.enters (hm₂.enters (hm₁.enters henters))))
  exact .moveEntry now name newName (hcarry n' hold) (hcarry new' hnew') _

end Operations

end Confined

/-! ### Mount tables -/

def Machine.table (m : Machine) : Slot × (Slot → UInt32) := (m.rootFs, fun i => (m.fsEntries i).mountpoint)

theorem keepsTable_onFs {α : Type} {prog : FsM α} (hkeeps : KeepsGeo prog) (fs : Slot) :
    Keeps Machine.table (onFs fs prog) := by
  intro m a m' hrun
  rw [onFs, zoom] at hrun
  split at hrun
  · next b info hprog =>
    cases hrun
    exact Prod.ext rfl (funext fun i => congrArg Geo.mountpoint (Machine.withFs_geo (hkeeps _ _ _ hprog) i))
  · cases hrun

theorem keepsTable_spliceLink (fs : Slot) (ino : Inode) (p : Buf) (ind j len : Nat) :
    Keeps Machine.table (spliceLink fs ino p ind j len) := by
  refine .bind (keepsTable_onFs (Stays.keepsGeo (.linkText ino)) fs) fun target => ?_
  refine .ite (.fault _) ?_
  split
  · exact .pure _
  · exact .pure _

theorem keepsTable_walkPath (follow : Bool) (stack p : Buf) (len fuel ind : Nat) (fs : Slot) (n : UInt32) :
    Keeps Machine.table (walkPath follow stack p len fuel ind fs n) := by
  induction fuel generalizing ind fs n with
  | zero => exact .pure _
  | succ fuel ih =>
    unfold walkPath
    split
    · dsimp only
      split
      · exact ih _ _ _
      split
      · exact .pure _
      refine .bind (.bind .get fun _ => .pure _) fun crossed => ?_
      refine .bind (keepsTable_onFs (Stays.keepsGeo (.getInode _)) _) fun ino => ?_
      split
      · exact .pure _
      split
      · exact .pure _
      refine .bind (keepsTable_onFs (Stays.keeps_lookupInBlocks _ _ _ _) _) fun found => ?_
      split
      · exact .pure _
      refine .bind (keepsTable_onFs (Stays.keepsGeo (.getInode _)) _) fun ino' => ?_
      split
      · exact .pure _
      refine .bind (.bind .get fun _ => .pure _) fun back => ?_
      split
      · exact .pure _
      split
      · exact keepsTable_spliceLink _ _ _ _ _ _
      · exact ih _ _ _
    · exact .pure _

theorem keepsTable_lookupPath (stack path : Buf) (follow : Bool) :
    Keeps Machine.table (lookupPath stack path follow) := by
  have hpasses : ∀ passes p, Keeps Machine.table (walkPasses follow stack passes p) := by
    intro passes
    induction passes with
    | zero => exact fun _ => .pure _
    | succ passes ih =>
      intro p
      unfold walkPasses
      dsimp only
      split
      · exact .pure _
      refine .bind .get fun m => .bind (keepsTable_walkPath _ _ _ _ _ _ _ _) fun walk => ?_
      cases walk with
      | failed => exact .pure _
      | arrived fs n => exact .pure _
      | spliced p' => exact ih p'
  unfold lookupPath
  split
  · exact .pure _
  · exact hpasses _ _

theorem keepsTable_copyLabel (i : Slot) (fuel j : Nat) (found : Bool) :
    Keeps Machine.table (copyLabel i fuel j found) := by
  induction fuel generalizing j found with
  | zero => exact .pure _
  | succ fuel ih =>
    refine .get_bind fun m a m' hrun => ?_
    split at hrun
    · cases hrun
      rfl
    · obtain ⟨u, mid, hset, hrun⟩ := run_bind_eq_ok hrun
      cases hset
      rw [ih _ _ _ _ _ hrun]
      rfl

def Machine.RootUnmounted (m : Machine) : Prop := (m.fsEntries m.rootFs).mountpoint = 0

theorem Machine.RootUnmounted.of_table {m m' : Machine} (hroot : m.RootUnmounted)
    (htable : m'.table = m.table) : m'.RootUnmounted := by
  have hslot : m'.rootFs = m.rootFs := congrArg Prod.fst htable
  have hentry := congrFun (congrArg Prod.snd htable) m.rootFs
  rw [Machine.RootUnmounted, hslot]
  exact hentry.trans hroot

theorem Machine.RootUnmounted.onFs {α : Type} {prog : FsM α} {m m' : Machine} {i : Slot} {a : α}
    (hroot : m.RootUnmounted) (hi : i ≠ m.rootFs) (hrun : onFs i prog m = .ok (a, m')) :
    m'.RootUnmounted := by
  rw [DeprecatOS.onFs, zoom] at hrun
  split at hrun
  · cases hrun
    change (Function.update m.fsEntries i _ m.rootFs).mountpoint = 0
    rw [Function.update_of_ne hi.symm]
    exact hroot
  · cases hrun

theorem Machine.ne_rootFs_of_candidate {m : Machine} {i : Slot} {test : Slot → Bool}
    (hfind : m.candidates.find? test = some i) : i ≠ m.rootFs := by
  have hmem := (List.mem_filter.mp (List.mem_of_find?_eq_some hfind)).2
  have hlt : m.rootFs < i := (of_decide_eq_true hmem).1
  rintro rfl
  exact Nat.lt_irrefl _ hlt

theorem mountOn_rootUnmounted {stack : Buf} {i : Slot} {m m' : Machine} {done : Bool}
    (hroot : m.RootUnmounted) (hi : i ≠ m.rootFs) (hrun : mountOn stack i m = .ok (done, m')) :
    m'.RootUnmounted := by
  obtain ⟨m₀, mid, hget, hrun⟩ := run_bind_eq_ok hrun
  cases hget
  obtain ⟨found, m₁, hlookup, hrun⟩ := run_bind_eq_ok hrun
  have htable := keepsTable_lookupPath _ _ _ _ _ _ hlookup
  have hroot₁ := hroot.of_table htable
  have hslot₁ : m₁.rootFs = m.rootFs := congrArg Prod.fst htable
  cases found with
  | none =>
    cases hrun
    exact hroot₁
  | some found =>
    obtain ⟨mountFs, mountInodeN⟩ := found
    dsimp only at hrun
    split at hrun
    · cases hrun
      exact hroot₁
    · obtain ⟨inode, m₂, hinode, hrun⟩ := run_bind_eq_ok hrun
      have htable₂ := keepsTable_onFs (Stays.keepsGeo (.getInode mountInodeN)) _ _ _ _ hinode
      have hroot₂ := hroot₁.of_table htable₂
      have hslot₂ : m₂.rootFs = m₁.rootFs := congrArg Prod.fst htable₂
      cases inode with
      | none =>
        cases hrun
        exact hroot₂
      | some inode =>
        dsimp only at hrun
        split at hrun
        · cases hrun
          exact hroot₂
        · obtain ⟨u, m₃, hset, hrun⟩ := run_bind_eq_ok hrun
          cases hrun
          exact hroot₂.onFs (by rw [hslot₂, hslot₁]; exact hi) hset

theorem mountEntry_rootUnmounted {stack label : Buf} {i : Slot} {m m' : Machine} {done : Bool}
    (hroot : m.RootUnmounted) (hi : i ≠ m.rootFs) (hrun : mountEntry stack i label m = .ok (done, m')) :
    m'.RootUnmounted := by
  obtain ⟨m₀, mid, hget, hrun⟩ := run_bind_eq_ok hrun
  cases hget
  split at hrun
  · cases hrun
    exact hroot
  split at hrun
  · cases hrun
    exact hroot
  obtain ⟨copied, m₁, hcopy, hrun⟩ := run_bind_eq_ok hrun
  have htable := keepsTable_copyLabel _ _ _ _ _ _ _ hcopy
  have hroot₁ := hroot.of_table htable
  have hslot₁ : m₁.rootFs = m.rootFs := congrArg Prod.fst htable
  rcases copied with _ | _ | _
  · cases hrun
    exact hroot₁
  · cases hrun
    exact hroot₁
  · obtain ⟨u, m₂, hlabel, hrun⟩ := run_bind_eq_ok hrun
    cases hlabel
    obtain ⟨m₀, mid, hget, hrun⟩ := run_bind_eq_ok hrun
    cases hget
    have hroot₂ : (m₁.setLabel i (Function.update (m₁.label i) (fsInfoLabelLen - 1) 0)).RootUnmounted := hroot₁
    split at hrun
    · cases hrun
      exact hroot₂
    · exact mountOn_rootUnmounted hroot₂ (by change i ≠ m₁.rootFs; rw [hslot₁]; exact hi) hrun

theorem mountFs_rootUnmounted {stack label : Buf} {m m' : Machine} {done : Bool}
    (hroot : m.RootUnmounted) (hrun : mountFs stack label m = .ok (done, m')) : m'.RootUnmounted := by
  obtain ⟨m₀, mid, hget, hrun⟩ := run_bind_eq_ok hrun
  cases hget
  cases hfind : m.candidates.find? fun i => labelEq (m.label i) label with
  | none =>
    simp only [hfind] at hrun
    cases hrun
    exact hroot
  | some i =>
    simp only [hfind] at hrun
    exact mountEntry_rootUnmounted hroot (Machine.ne_rootFs_of_candidate hfind) hrun

theorem umountFs_rootUnmounted {label : Buf} {m m' : Machine} {done : Bool} (hroot : m.RootUnmounted)
    (hrun : umountFs label m = .ok (done, m')) : m'.RootUnmounted := by
  obtain ⟨m₀, mid, hget, hrun⟩ := run_bind_eq_ok hrun
  cases hget
  cases hfind : m.candidates.find? fun i => labelEq (m.label i) label with
  | none =>
    simp only [hfind] at hrun
    cases hrun
    exact hroot
  | some i =>
    simp only [hfind] at hrun
    split at hrun
    · cases hrun
      exact hroot
    · obtain ⟨u, m₁, hset, hrun⟩ := run_bind_eq_ok hrun
      cases hrun
      exact hroot.onFs (Machine.ne_rootFs_of_candidate hfind) hset

/-! ### Runs -/

/-- The calls that make the mount table what it is, with any change of the filesystems themselves in
between. -/
inductive MountOp where
  | mount (stack label : Buf)
  | umount (label : Buf)
  | files (fsEntries : Slot → FsInfo)

def MountOp.Allowed (m : Machine) : MountOp → Prop
  | .files fsEntries => ∀ i, (fsEntries i).mountpoint = (m.fsEntries i).mountpoint
  | _ => True

def MountOp.exec : MountOp → MachineM Bool
  | .mount stack label => mountFs stack label
  | .umount label => umountFs label
  | .files fsEntries => do
      modify fun m => { m with fsEntries := fsEntries }
      pure true

def Machine.MountedOn (m : Machine) (i : Slot) (n : UInt32) : Prop :=
  (m.fsEntries i).mountpoint ≠ 0 ∧ (m.fsEntries i).mountpoint = n

inductive DirCall where
  | makeDir (parentN : UInt32) (name : Buf)
  | makeFile (parentN : UInt32) (name : Buf)
  | unlinkInode (parentN : UInt32) (name : Buf)
  | unlinkDir (parentN : UInt32) (name : Buf)
  | renameInode (oldParentN : UInt32) (oldName : Buf) (newParentN : UInt32) (newName : Buf)

def DirCall.inodes : DirCall → List UInt32
  | .makeDir parentN _ => [parentN]
  | .makeFile parentN _ => [parentN]
  | .unlinkInode parentN _ => [parentN]
  | .unlinkDir parentN _ => [parentN]
  | .renameInode oldParentN _ newParentN _ => [oldParentN, newParentN]

def DirCall.exec (now : UInt32) (fs : Slot) : DirCall → MachineM Bool
  | .makeDir parentN name => do pure (← DeprecatOS.makeDir now fs parentN name).isSome
  | .makeFile parentN name => do pure (← DeprecatOS.makeFile now fs parentN name).isSome
  | .unlinkInode parentN name => DeprecatOS.unlinkInode now fs parentN name
  | .unlinkDir parentN name => DeprecatOS.unlinkDir now fs parentN name
  | .renameInode oldParentN oldName newParentN newName =>
    DeprecatOS.renameInode now fs oldParentN oldName newParentN newName

theorem DirCall.confined {m : Machine} {fs : Slot} (now : UInt32) {call : DirCall}
    (henters : ∀ n ∈ call.inodes, m.Enters fs n) : Confined (call.exec now fs) m := by
  cases call with
  | makeDir parentN name =>
    exact .bind (.makeDir now name (henters parentN List.mem_cons_self)) fun _ _ _ _ => .pure _
  | makeFile parentN name =>
    exact .bind (.makeFile now name (henters parentN List.mem_cons_self)) fun _ _ _ _ => .pure _
  | unlinkInode parentN name => exact .unlinkInode now name (henters parentN List.mem_cons_self)
  | unlinkDir parentN name => exact .unlinkDir now name (henters parentN List.mem_cons_self)
  | renameInode oldParentN oldName newParentN newName =>
    exact .renameInode now oldName newName (henters oldParentN List.mem_cons_self)
      (henters newParentN (List.mem_cons_of_mem _ List.mem_cons_self))

theorem Machine.mntRoot_root (m : Machine) (n : UInt32) :
    (m.mntRoot m.rootFs n).1 = true ↔ ∃ i, (m.fsEntries i).mountpoint = n := by
  rw [Machine.mntRoot, if_neg (not_not.mpr rfl)]
  split
  · next part hpart =>
    exact iff_of_true rfl ⟨part, by simpa using List.find?_some hpart⟩
  · next hnone =>
    refine iff_of_false Bool.false_ne_true ?_
    rintro ⟨i, hi⟩
    simpa [hi] using List.find?_eq_none.mp hnone i (List.mem_finRange i)

/-- A mount table reached from the empty one. Inode 0 is taken for a mountpoint, and no other number is wrongly. With
other numbers, or with any number on a mounted filesystem, the operations stay on the filesystems in use, as long as
the geometry of these keeps the code in its buffers. -/
theorem operations_confined {m₀ m : Machine} (hboot : ∀ i, (m₀.fsEntries i).mountpoint = 0)
    (hreach : Reach (fun m op => MountOp.Allowed m op) MountOp.exec m₀ m) :
    (∀ n, ((m.mntRoot m.rootFs n).1 = true ↔ ∃ i, m.MountedOn i n) ↔ n ≠ 0) ∧
      (m.InBounds → ∀ fs, m.Live fs → ∀ (now : UInt32) (call : DirCall),
        (fs = m.rootFs → ∀ n ∈ call.inodes, n ≠ 0) → Confined (call.exec now fs) m) := by
  have hroot : m.RootUnmounted := by
    refine hreach.invariant_of_run (hboot _) fun m op done m' hroot hallowed hrun => ?_
    cases op with
    | mount stack label => exact mountFs_rootUnmounted hroot hrun
    | umount label => exact umountFs_rootUnmounted hroot hrun
    | files fsEntries =>
      cases hrun
      exact (hallowed m.rootFs).trans hroot
  refine ⟨fun n => ?_, fun hbounds fs hfs now call hinodes =>
    DirCall.confined now fun n hn => ⟨⟨hbounds, hfs⟩, fun hroot => hinodes hroot n hn⟩⟩
  rw [Machine.mntRoot_root]
  constructor
  · rintro hiff rfl
    obtain ⟨i, hmounted, hzero⟩ := hiff.mp ⟨m.rootFs, hroot⟩
    exact hmounted hzero
  · intro hn
    constructor
    · rintro ⟨i, rfl⟩
      exact ⟨i, hn, rfl⟩
    · rintro ⟨i, -, hi⟩
      exact ⟨i, hi⟩

/-! ### A mounted partition and one that is not -/

/-- The filesystem with a volume name. -/
def FsInfo.named (fs : FsInfo) (volName : List UInt8) : FsInfo :=
  { fs with
    sprblkBuf := fun k => if 120 ≤ k ∧ k < 136 then cstr volName (k - 120) else fs.sprblkBuf k
    disk := fun b k => if b = 0 ∧ 1144 ≤ k ∧ k < 1160 then cstr volName (k - 1144) else fs.disk b k }

def deprecatOSLabel : List UInt8 := [100, 101, 112, 114, 101, 99, 97, 116, 79, 83]

def absent : FsInfo where
  disk _ := zero
  sprblkBuf := zero
  bgdtBuf := zero
  sectorCount := 0
  inodeSize := 0
  inodesPerGrp := 0
  blksPerGrp := 0
  ngroups := 0
  mountpoint := 0

/-- Three partitions of the master drive, the second of which is the root. -/
def threeParts : Machine where
  fsEntries i :=
    if i = 0 then smallFs.named [97] else if i = 1 then host.fs.named deprecatOSLabel
    else if i = 2 then smallFs.named [98] else absent
  rootFs := 1
  label i := if i = 0 then cstr [97] else if i = 1 then cstr deprecatOSLabel else if i = 2 then cstr [98] else zero

theorem threeParts_unmounted : ∀ i, (threeParts.fsEntries i).mountpoint = 0 := by decide +kernel

def FsInfo.sizes (fs : FsInfo) : List UInt32 := [fs.inodeSize, fs.inodesPerGrp, fs.blksPerGrp, fs.ngroups, fs.inodeCnt]

theorem FsInfo.inBounds_of_sizes {fs : FsInfo} (hsizes : fs.sizes = [128, 32, 32, 1, 32]) : fs.geo.InBounds := by
  simp only [sizes, List.cons.injEq, and_true] at hsizes
  obtain ⟨hsize, hinodes, hblks, hgroups, hcnt⟩ := hsizes
  have hperGrp : ∀ kind, fs.geo.perGrp kind = 32 := by
    intro kind
    cases kind with
    | block => exact congrArg UInt32.toNat hblks
    | inode => exact congrArg UInt32.toNat hinodes
  refine inBounds (fun kind => ?_) (fun kind => ?_) ?_ ?_ ?_ ?_
  · rw [hperGrp]
    decide
  · rw [hperGrp]
    decide
  · rw [hgroups]
    decide
  · rw [hcnt, hgroups, hinodes]
    decide
  · rw [hsize]
    decide
  · rw [hsize]
    decide

theorem threeParts_mount : ∃ m, mountFs zero (cstr [98]) threeParts = .ok (true, m) ∧ m.rootFs = 1 ∧
    (∀ i, (m.fsEntries i).mountpoint = if i = 2 then 4 else 0) ∧ (m.fsEntries 1).sizes = [128, 32, 32, 1, 32] ∧
    (m.fsEntries 2).sizes = [128, 32, 32, 1, 32] := by
  have hrun : (mountFs zero (cstr [98]) threeParts).toOption.map (fun run => (run.1, run.2.rootFs,
      decide (∀ i, (run.2.fsEntries i).mountpoint = if i = 2 then 4 else 0), (run.2.fsEntries 1).sizes,
      (run.2.fsEntries 2).sizes)) = some (true, 1, true, [128, 32, 32, 1, 32], [128, 32, 32, 1, 32]) := by
    decide +kernel
  obtain ⟨⟨done, m⟩, hmount, hfacts⟩ := eq_ok_of_toOption hrun
  simp only [Prod.mk.injEq] at hfacts
  obtain ⟨rfl, hroot, htable, hone, htwo⟩ := hfacts
  exact ⟨m, hmount, hroot, of_decide_eq_true htable, hone, htwo⟩

/-- After `mount_fs("b")`, a file is made in `/mnt/b`, which is on the mounted partition, and a name is looked for in
inode 0 of that partition. -/
theorem operations_confined_threeParts : ∃ m, mountFs zero (cstr [98]) threeParts = .ok (true, m) ∧
    m.mntRoot m.rootFs 4 = (true, 2, rootInodeN) ∧ m.MountedOn 2 4 ∧
    Confined (DirCall.exec 0 1 (.makeFile 4 (cstr [120]))) m ∧ Confined (DirCall.exec 0 2 (.unlinkInode 0 (cstr [102]))) m := by
  obtain ⟨m, hmount, hroot, htable, hone, htwo⟩ := threeParts_mount
  obtain ⟨-, hconfined⟩ := operations_confined threeParts_unmounted
    (.single ⟨.mount zero (cstr [98]), true, trivial, hmount⟩)
  have hmounted : m.MountedOn 2 4 := ⟨by rw [htable]; decide, htable 2⟩
  have hbounds : m.InBounds := by
    rintro i (rfl | hi)
    · rw [hroot]
      exact FsInfo.inBounds_of_sizes hone
    · obtain rfl : i = 2 := by
        by_contra hne
        rw [htable, if_neg hne] at hi
        exact hi rfl
      exact FsInfo.inBounds_of_sizes htwo
  refine ⟨m, hmount, ?_, hmounted, hconfined hbounds 1 (.inl hroot.symm) 0 (.makeFile 4 (cstr [120])) fun _ n hn => ?_,
    hconfined hbounds 2 (.inr hmounted.1) 0 (.unlinkInode 0 (cstr [102])) fun heq => ?_⟩
  · rw [Machine.mntRoot, if_neg (not_not.mpr rfl)]
    simp only [htable]
    rfl
  · rw [List.mem_singleton.mp hn]
    decide
  · rw [hroot] at heq
    exact absurd heq (by decide)

/-- With inode 0, a call on the root removes the file `f` of the partition before it, which is not mounted and never
can be. -/
theorem inode_zero_escapes :
    threeParts.mntRoot threeParts.rootFs 0 = (true, 0, rootInodeN) ∧ (∀ i n, ¬ threeParts.MountedOn i n) ∧
      (threeParts.fsEntries 0).disk 5 16 = 12 ∧
      (unlinkInode 0 threeParts.rootFs 0 (cstr [102]) threeParts).toOption.map
        (fun run => (run.1, (run.2.fsEntries 0).disk 5 16)) = some (true, 244) := by
  refine ⟨by decide +kernel, fun i n hmounted => hmounted.1 (threeParts_unmounted i), by decide +kernel, by decide +kernel⟩

end DeprecatOS
