import DeprecatOS.Proof.Failure
import DeprecatOS.Proof.ReadChunk
import DeprecatOS.Proof.Records

/-!
# System calls stay in their buffers

The handlers of `syscallController.c`, with any registers and any user memory. When the filesystems in use have a
geometry that keeps the code in its buffers, a handler leaves them only through what it is asked to do: an operation on
the root that names inode 0, an append to a file so large that its number of blocks wraps, or a path through a directory
whose records reach past their block.
-/

namespace DeprecatOS

open Bytes Bits Fault

variable {m : Machine} {fs : Slot} {n : UInt32}

/-! ### Programs on one filesystem -/

namespace Stays

variable {c : Geo → Prop}

theorem readChunk (ino : Inode) (idx : UInt32) : Stays (fun _ => idx.toNat < fileBlkLimit) (readChunk ino idx) := by
  refine mapFileBlock_bind (fun _ => id) fun call => ?_
  split
  · exact .pure _
  · next hstatus =>
    exact .bind ((blkOut call).mono fun _ h => h.2 hstatus) fun _ => .bind (readBlock _) fun _ => .pure _
  · exact .pure _

theorem writeTarget (junk target : Buf) (len : Nat) (symlink : Inode) : Stays c (writeTarget junk target len symlink) :=
  .ite (mapFileBlock_bind (fun _ _ => by decide) fun call => .ite_of
    (.bind ((blkOut call).mono fun _ h => h.1.2 h.2) fun _ => .bind (writeBlock _ _) fun _ => .pure _) (.pure _)) (.pure _)

theorem dropLink (linkN : UInt32) (blockN : Option UInt32) : Stays c (dropLink linkN blockN) :=
  .bind (freeInode _) fun _ => match blockN with
    | none => .pure _
    | some _ => .bind (freeBlock _) fun _ => .pure _

theorem linkable (inodeN parentN : UInt32) : Stays c (do
    if ← DeprecatOS.inodeExists inodeN then
      if ← DeprecatOS.inodeExists parentN then
        match ← DeprecatOS.getInode inodeN with
        | none => Pure.pure false
        | some ino => Pure.pure (ino.type ≠ inodeDirType)
      else Pure.pure false
    else Pure.pure false : FsM Bool) :=
  .bind (inodeExists _) fun _ => .ite (.bind (inodeExists _) fun _ => .ite (.bind (getInode _) fun
    | none => .pure _
    | some _ => .pure _) (.pure _)) (.pure _)

end Stays

theorem inodeExists_eq_ok {info info' : FsInfo} {found : Bool} (hrun : inodeExists n info = .ok (found, info')) :
    info' = info ∧ (info.geo.InBounds → found = true → n ≠ 0) := by
  rw [inodeExists, run_bind_ok (run_get info)] at hrun
  split at hrun
  · cases hrun
  dsimp only at hrun
  split at hrun
  · cases hrun
    exact ⟨rfl, fun _ hfound => by cases hfound⟩
  next haccepted =>
  split at hrun
  · cases hrun
  obtain ⟨bitmap, mid, hread, hrun⟩ := run_bind_eq_ok hrun
  obtain rfl := (readBlock_eq_ok hread).1
  split at hrun <;> cases hrun
  refine ⟨rfl, fun hgeo _ => ?_⟩
  rintro rfl
  -- the group of inode 0 is far behind the last one
  have hgroup := hgeo.group_lt (not_or.mp haccepted).1
  have hle : info'.inodesPerGrp.toNat ≤ 32768 := hgeo.perGrp_le .inode
  have hpos : 0 < info'.inodesPerGrp.toNat := hgeo.perGrp_pos .inode
  have hnum : ((0 : UInt32) - firstInodeN).toNat = 4294967295 := rfl
  rw [UInt32.toNat_div, hnum, bgdtLen, Nat.div_lt_iff_lt_mul hpos] at hgroup
  omega

/-! ### Programs on the machine -/

theorem onFs_getInode_ne_zero {inode : Inode} {m' : Machine} (hrun : onFs fs (getInode n) m = .ok (some inode, m')) :
    n ≠ 0 := by
  obtain ⟨info, hget, -⟩ := onFs_eq_ok hrun
  exact UInt32.pos_iff_ne_zero.mp ((getInode_eq_ok hget).2 inode rfl).1

theorem onFs_inodeExists_ne_zero (hfs : m.Serves fs) {m' : Machine} (hrun : onFs fs (inodeExists n) m = .ok (true, m')) :
    n ≠ 0 := by
  obtain ⟨info, hexists, -⟩ := onFs_eq_ok hrun
  exact (inodeExists_eq_ok hexists).2 (hfs.inBounds fs hfs.live) rfl

theorem linkable_ne_zero (hfs : m.Serves fs) {inodeN : UInt32} {m' : Machine}
    (hrun : linkable fs inodeN n m = .ok (true, m')) : n ≠ 0 := by
  obtain ⟨info, hprog, -⟩ := onFs_eq_ok hrun
  obtain ⟨first, mid, hfirst, hnext⟩ := run_bind_eq_ok hprog
  obtain rfl := (inodeExists_eq_ok hfirst).1
  cases first with
  | false => cases hnext
  | true =>
    obtain ⟨second, mid, hsecond, hnext⟩ := run_bind_eq_ok hnext
    cases second with
    | false => cases hnext
    | true => exact (inodeExists_eq_ok hsecond).2 (hfs.inBounds fs hfs.live) rfl

namespace Confined

theorem chunkInode (hfs : m.Serves fs) (n : UInt32) : Confined (chunkInode fs n) m := by
  refine .bind (.onFs hfs (.getInode n)) fun found m₁ hm₁ hrun => ?_
  cases found with
  | none => exact .pure _
  | some ino =>
    dsimp only
    split
    · refine .crossing ⟨hm₁.serves hfs, fun _ => onFs_getInode_ne_zero hrun⟩ fun busy fs' n' hin' => ?_
      refine .bind (.onFs hin'.serves (.getInode n')) fun found m₂ _ _ => ?_
      cases found with
      | none => exact .pure _
      | some ino => exact .pure _
    · exact .pure _

theorem dirContains (hin : m.Enters fs n) (name : Buf) : Confined (dirContains fs n name) m :=
  .crossing hin fun _ _ _ hin' => .onFs hin'.serves (.bind (Stays.getInode _) fun
    | none => .pure _
    | some _ => .ite (Stays.nameIn _ _) (.pure _))

theorem linkInode (now : UInt32) (hin : m.Enters fs n) (inodeN : UInt32) (name : Buf) :
    Confined (linkInode now fs inodeN n name) m := by
  refine .bind (.dirContains hin name) fun found m₁ hm₁ _ => ?_
  split
  · exact .pure _
  · exact .dirInsert now name (hm₁.enters hin) inodeN

theorem makeSymlink (now : UInt32) (junk : Buf) (hin : m.Enters fs n) (name target : Buf) :
    Confined (makeSymlink now junk fs n name target) m := by
  unfold DeprecatOS.makeSymlink
  dsimp only
  split
  · exact .pure _
  refine .crossing hin fun busy fs' n' hin' => ?_
  refine .bind (.onFs hin'.serves (.mintInode _ _ _)) fun minted m₁ hm₁ _ => ?_
  have hin₁ := hm₁.enters hin'
  cases minted with
  | none => exact .pure _
  | some minted =>
    refine .bind (.onFs hin₁.serves (.writeTarget _ _ _ _)) fun written m₂ hm₂ _ => ?_
    have hin₂ := hm₂.enters hin₁
    cases written with
    | none => exact .bind (.onFs hin₂.serves (.freeInode _)) fun _ _ _ _ => .pure _
    | some written =>
      refine .bind (.onFs hin₂.serves (.setInode _ _)) fun stored m₃ hm₃ _ => ?_
      have hin₃ := hm₃.enters hin₂
      split
      · refine .bind (.dirInsert now name hin₃ _) fun inserted m₄ hm₄ _ => ?_
        split
        · exact .pure _
        · exact .bind (.onFs (hm₄.enters hin₃).serves (.dropLink _ _)) fun _ _ _ _ => .pure _
      · exact .bind (.onFs hin₃.serves (.dropLink _ _)) fun _ _ _ _ => .pure _

end Confined

theorem chunkInode_serves (hfs : m.Serves fs) {fs' : Slot} {ino : Inode} {m' : Machine}
    (hrun : chunkInode fs n m = .ok (some (fs', ino), m')) : m'.Serves fs' := by
  have huntouched := (Confined.chunkInode hfs n).writes _ _ hrun
  obtain ⟨found, m₁, hfirst, hnext⟩ := run_bind_eq_ok hrun
  have hserves := ((Confined.onFs hfs (.getInode n)).writes _ _ hfirst).serves hfs
  cases found with
  | none => cases hnext
  | some ino =>
    dsimp only at hnext
    split at hnext
    · have hin := Machine.Enters.mntRoot (⟨hserves, fun _ => onFs_getInode_ne_zero hfirst⟩ : m₁.Enters fs n)
      rw [returnMntRoot, bind_assoc, run_bind_ok (run_get m₁), pure_bind] at hnext
      obtain ⟨found, m₂, hsecond, hlast⟩ := run_bind_eq_ok hnext
      cases found with
      | none => cases hlast
      | some ino =>
        cases hlast
        exact ((Confined.onFs hin.serves (.getInode _)).writes _ _ hsecond).serves hin.serves
    · cases hnext
      exact hserves

/-! ### Walks over paths -/

/-- What a walk reads without a check is well formed: the blocks of directories, and the length of a target that is kept
in its inode. -/
structure FsInfo.Walkable (info : FsInfo) : Prop where
  block : ∀ n dir info', getInode n info = .ok (some dir, info') → dir.type = inodeDirType → ∀ i blk buf info',
    i < blocksFor dir.sizeLo → readFileBlock dir i info = .ok (some (blk, buf), info') → BlockOk buf
  target : ∀ n link info', getInode n info = .ok (some link, info') → link.type = inodeSymlinkType →
    link.diskSectors = 0 → link.sizeLo.toNat ≤ 88

def Machine.Walkable (m : Machine) : Prop := ∀ i, m.Live i → (m.fsEntries i).Walkable

theorem nameInBlock_ne_zero {buf name : Buf} {fuel cursor : Nat} (hfound : nameInBlock buf name fuel cursor = some n) :
    n ≠ 0 := by
  induction fuel generalizing cursor with
  | zero => cases hfound
  | succ fuel ih =>
    rw [nameInBlock] at hfound
    split_ifs at hfound with hlt hbad hnamed
    · rw [← Option.some.inj hfound]
      exact of_decide_eq_true (Bool.and_eq_true_iff.mp hnamed).1
    · exact ih hfound

theorem Machine.Enters.mntMountpoint (hfs : m.Serves fs) (hne : n ≠ 0) :
    m.Enters (m.mntMountpoint fs n).2.1 (m.mntMountpoint fs n).2.2 := by
  rw [Machine.mntMountpoint]
  split
  · exact ⟨hfs, fun _ => hne⟩
  · next hup => exact ⟨⟨hfs.inBounds, .inl rfl⟩, fun _ => hfs.live.resolve_left (not_or.mp hup).1⟩

section Peeks

variable {info : FsInfo}

theorem peeks_getInode (hgeo : info.geo.InBounds) (n : UInt32) : Peeks Stop.undefined (getInode n) info fun found =>
    ∀ inode, found = some inode → getInode n info = .ok (some inode, info) := by
  refine ⟨(Stays.getInode n).defined hgeo, fun found info' hrun => ?_⟩
  obtain rfl := (getInode_eq_ok hrun).1
  exact ⟨rfl, fun inode hfound => by rw [hrun, hfound]⟩

theorem peeks_readFileBlock (hgeo : info.geo.InBounds) (inode : Inode) {i : UInt32} (hi : i.toNat < fileBlkLimit) :
    Peeks Stop.undefined (readFileBlock inode i) info fun found =>
      ∀ blk buf, found = some (blk, buf) → readFileBlock inode i info = .ok (some (blk, buf), info) := by
  refine ⟨(Stays.readFileBlock inode i).avoids info hgeo hi, fun found info' hrun => ?_⟩
  obtain rfl := readFileBlock_read hi hrun
  exact ⟨rfl, fun blk buf hfound => by rw [hrun, hfound]⟩

theorem peeks_lookupInBlocks (hgeo : info.geo.InBounds) (inode : Inode) (name : Buf) {cnt : Nat} {i : UInt32}
    (hin : InFile i cnt)
    (hblock : ∀ j blk buf info', j.toNat < i.toNat + cnt → readFileBlock inode j info = .ok (some (blk, buf), info') →
      BlockOk buf) :
    Peeks Stop.undefined (lookupInBlocks inode name cnt i) info fun found => ∀ n, found = some n → n ≠ 0 := by
  induction cnt generalizing i with
  | zero => exact .pure fun _ h => by cases h
  | succ cnt ih =>
    refine .bind (peeks_readFileBlock hgeo inode hin.head) fun found hread => ?_
    obtain _ | ⟨blk, buf⟩ := found
    · exact .pure fun _ h => by cases h
    have hok := hblock i blk buf info (by omega) (hread blk buf rfl)
    dsimp only
    rw [lookup_eq hok]
    cases hfind : nameInBlock buf name blockSize 0 with
    | some n =>
      refine .pure fun n' hn' => ?_
      rw [← Option.some.inj hn']
      exact nameInBlock_ne_zero hfind
    | none =>
      have hlimit : fileBlkLimit = 1074791436 := rfl
      have hnext : (i + 1).toNat = i.toNat + 1 := toNat_add_one (by have := hin.head; omega)
      exact ih hin.tail fun j blk buf info' hj => hblock j blk buf info' (by omega)

theorem peeks_linkText (hgeo : info.geo.InBounds) (inode : Inode) :
    Peeks Stop.undefined (linkText inode) info fun _ => True := by
  rw [linkText]
  split
  · exact .pure trivial
  · exact ⟨(Stays.readBlock _).defined hgeo, fun buf info' hrun => ⟨(readBlock_eq_ok hrun).1, trivial⟩⟩

end Peeks

theorem peeks_onFs {α : Type} {prog : FsM α} {post : α → Prop} (hprog : Peeks Stop.undefined prog (m.fsEntries fs) post) :
    Peeks Stop.undefined (onFs fs prog) m post :=
  .zoom (m.withFs_self fs) hprog

theorem peeks_returnMntRoot (hin : m.Enters fs n) :
    Peeks Stop.undefined (returnMntRoot fs n) m fun place => m.Enters place.2.1 place.2.2 := by
  refine ⟨fun hrun => (by cases hrun), fun place m' hrun => ?_⟩
  cases hrun
  exact ⟨rfl, hin.mntRoot⟩

theorem peeks_returnMntMountpoint (hfs : m.Serves fs) (hne : n ≠ 0) :
    Peeks Stop.undefined (returnMntMountpoint fs n) m fun place => m.Enters place.2.1 place.2.2 := by
  refine ⟨fun hrun => (by cases hrun), fun place m' hrun => ?_⟩
  cases hrun
  exact ⟨rfl, .mntMountpoint hfs hne⟩

theorem peeks_spliceLink (hfs : m.Serves fs) {ino : Inode} (hshort : ino.diskSectors = 0 → ino.sizeLo.toNat ≤ 88)
    (p : Buf) (ind j len : Nat) : Peeks Stop.undefined (spliceLink fs ino p ind j len) m fun _ => True := by
  refine .bind (peeks_onFs (peeks_linkText (hfs.inBounds fs hfs.live) ino)) fun target _ => ?_
  dsimp only
  rw [if_neg fun hlong => by have := hshort hlong.1; omega]
  split
  · exact .pure trivial
  · exact .pure trivial

section Walks

variable (hwalk : m.Walkable) (follow : Bool) (stack : Buf)

include hwalk

/-- The walk is always at an inode of a filesystem in use, and on the root not at inode 0: `lookup` skips dead records. -/
theorem peeks_walkPath (p : Buf) (len fuel ind : Nat) (hin : m.Enters fs n) :
    Peeks Stop.undefined (walkPath follow stack p len fuel ind fs n) m fun _ => True := by
  induction fuel generalizing ind fs n with
  | zero => exact .pure trivial
  | succ fuel ih =>
    rw [walkPath]
    dsimp only
    split
    swap
    · exact .pure trivial
    split
    · exact ih _ hin
    split
    · exact .pure trivial
    refine .bind (peeks_returnMntRoot hin) fun ⟨_, fs', n'⟩ hin' => ?_
    have hgeo := hin'.serves.inBounds fs' hin'.serves.live
    refine .bind (peeks_onFs (peeks_getInode hgeo n')) fun found hfound => ?_
    obtain _ | dir := found
    · exact .pure trivial
    dsimp only
    split
    · exact .pure trivial
    next htype =>
    have hblocks := (hwalk fs' hin'.serves.live).block n' dir _ (hfound dir rfl) (not_not.mp htype)
    have hin₀ : InFile 0 (blocksFor dir.sizeLo).toNat := by
      rw [InFile, UInt32.toNat_zero, Nat.zero_add]
      exact (blocksFor_lt _).le
    refine .bind (peeks_onFs (peeks_lookupInBlocks hgeo dir _ hin₀ fun j blk buf info' hj =>
      hblocks j blk buf info' (UInt32.lt_iff_toNat_lt.mpr (by simpa using hj)))) fun child hchild => ?_
    obtain _ | child := child
    · exact .pure trivial
    refine .bind (peeks_onFs (peeks_getInode hgeo child)) fun found hfound => ?_
    obtain _ | ino := found
    · exact .pure trivial
    refine .bind (peeks_returnMntMountpoint hin'.serves (hchild child rfl)) fun ⟨_, fs'', n''⟩ hin'' => ?_
    dsimp only
    split
    · exact .pure trivial
    split
    · next hlink =>
      exact peeks_spliceLink hin''.serves ((hwalk fs' hin'.serves.live).target child ino _ (hfound ino rfl) hlink) _ _ _ _
    · exact ih _ hin''

theorem peeks_lookupPath (hbounds : m.InBounds) (path : Buf) :
    Peeks Stop.undefined (lookupPath stack path follow) m fun _ => True := by
  have hpasses : ∀ passes p, Peeks Stop.undefined (walkPasses follow stack passes p) m fun _ => True := by
    intro passes
    induction passes with
    | zero => exact fun _ => .pure trivial
    | succ passes ih =>
      intro p
      rw [walkPasses]
      split
      · exact .pure trivial
      have hin : m.Enters m.rootFs rootInodeN := ⟨⟨hbounds, .inl rfl⟩, fun _ => by decide⟩
      refine .get_bind (.bind (peeks_walkPath hwalk follow stack p _ _ 1 hin) fun walk _ => ?_)
      cases walk with
      | failed => exact .pure trivial
      | arrived fs n => exact .pure trivial
      | spliced p => exact ih p
  rw [lookupPath]
  split
  · exact .pure trivial
  · exact hpasses _ _

end Walks

/-! ### Mounting -/

theorem writeSuperblk_defined (info : FsInfo) : writeSuperblk info ≠ .error .undefined := by
  intro hrun
  rw [writeSuperblk, run_bind_ok (run_get info)] at hrun
  split at hrun <;> cases hrun

theorem markFsState_defined (setValid : Bool) (info : FsInfo) : markFsState setValid info ≠ .error .undefined := by
  rw [markFsState, run_bind_ok (run_get info), run_bind_ok (run_set _ _)]
  exact writeSuperblk_defined _

/-- The program changes labels only. -/
def Labels {α : Type} (prog : MachineM α) : Prop :=
  ∀ m : Machine, Runs prog m fun _ m' => m'.fsEntries = m.fsEntries ∧ m'.rootFs = m.rootFs

theorem copyLabel_labels (i : Slot) (fuel j : Nat) (foundChar : Bool) : Labels (copyLabel i fuel j foundChar) := by
  induction fuel generalizing j foundChar with
  | zero => exact fun _ => .pure ⟨rfl, rfl⟩
  | succ fuel ih =>
    intro m
    rw [copyLabel]
    refine .bind_eq (run_get m) ?_
    dsimp only
    split
    · exact .bind_eq (run_set _ _) (.pure ⟨rfl, rfl⟩)
    · exact .bind_eq (run_set _ _) ((ih _ _ _).mono fun _ _ h => h)

theorem mountOn_defined (hbounds : m.InBounds) (hwalk : m.Walkable) (stack : Buf) (i : Slot) :
    mountOn stack i m ≠ .error .undefined := by
  rw [mountOn, run_bind_ok (run_get m)]
  have hpath := peeks_lookupPath hwalk false stack hbounds (mountPath (m.label i))
  refine run_bind_ne_error hpath.1 fun place m₁ hrun => ?_
  obtain ⟨rfl, -⟩ := hpath.2 _ _ hrun
  obtain _ | ⟨fs, n⟩ := place
  · exact run_pure_ne_error _ _
  dsimp only
  split
  · exact run_pure_ne_error _ _
  refine run_bind_ne_error (peeks_onFs (peeks_getInode (hbounds _ (.inl rfl)) n)).1 fun found m₂ _ => ?_
  obtain _ | dir := found
  · exact run_pure_ne_error _ _
  dsimp only
  split
  · exact run_pure_ne_error _ _
  · exact run_bind_ne_error (run_zoom_ne_error (markFsState_defined _ _)) fun _ _ _ => run_pure_ne_error _ _

theorem mountEntry_defined (hbounds : m.InBounds) (hwalk : m.Walkable) (stack label : Buf) (i : Slot) :
    mountEntry stack i label m ≠ .error .undefined := by
  rw [mountEntry, run_bind_ok (run_get m)]
  split
  · exact run_pure_ne_error _ _
  split
  · exact run_pure_ne_error _ _
  obtain ⟨copied, ⟨fsEntries, rootFs, labels⟩, hcopy, hsame⟩ := copyLabel_labels i 16 0 false m
  obtain ⟨rfl, rfl⟩ := hsame
  rw [run_bind_ok hcopy]
  obtain _ | _ | _ := copied
  · exact run_pure_ne_error _ _
  · exact run_pure_ne_error _ _
  dsimp only
  rw [run_bind_ok (run_modify _ _), run_bind_ok (run_get _)]
  split
  · exact run_pure_ne_error _ _
  · refine mountOn_defined ?_ ?_ stack i
    · exact hbounds
    · exact hwalk

theorem mountFs_defined (hbounds : m.InBounds) (hwalk : m.Walkable) (stack label : Buf) :
    mountFs stack label m ≠ .error .undefined := by
  rw [mountFs, run_bind_ok (run_get m)]
  cases m.candidates.find? fun i => labelEq (m.label i) label with
  | none => exact run_pure_ne_error _ _
  | some i => exact mountEntry_defined hbounds hwalk stack label i

theorem umountFs_defined (m : Machine) (label : Buf) : umountFs label m ≠ .error .undefined := by
  rw [umountFs, run_bind_ok (run_get m)]
  cases m.candidates.find? fun i => labelEq (m.label i) label with
  | none => exact run_pure_ne_error _ _
  | some i =>
    dsimp only
    split
    · exact run_pure_ne_error _ _
    refine run_bind_ne_error (run_zoom_ne_error ?_) fun _ _ _ => run_pure_ne_error _ _
    exact run_bind_ne_error (markFsState_defined _ _) fun _ _ _ hrun => by cases hrun

/-! ### Handlers -/

/-- What a call asks for keeps the kernel in its buffers: it names no inode 0 on the root, appends to no file whose number
of blocks wraps, and walks over well-formed directories and links. -/
def FsSyscall.Proper (call : FsSyscall) (frame : Regs) (m : Machine) : Prop :=
  match call with
  | .makeDir | .makeInode | .removeInode | .removeDir => m.fsFromIndex (frame 0) = some m.rootFs → frame 4 ≠ 0
  | .renameInode => m.fsFromIndex (frame 0) = some m.rootFs → frame 4 ≠ 0 ∧ frame 5 ≠ 0
  | .appendToInode => ∀ fs inode info, m.fsFromIndex (frame 0) = some fs →
      getInode (frame 4) (m.fsEntries fs) = .ok (some inode, info) → RoundsUp inode.sizeLo
  | .resolveDir | .resolveSymlink | .mountFs => m.Walkable
  | _ => True

section Handlers

variable {s : Sys} {frame : Regs}

theorem userBuf_run (base : UInt32) (s : Sys) : userBuf base s = .ok (s.buf base, s) := rfl

theorem userString_run (text : UInt32) (s : Sys) :
    userString text s = .ok (scanUser s.mem text (windowSize + 1) 0, s) := rfl

theorem userStrings_run (text text' : UInt32) (s : Sys) :
    userStrings text text' s = .ok (scanBoth s.mem text text' (windowSize + 1) 0 false false, s) := rfl

theorem withFsIndex_defined {index : UInt32} {handler : Slot → SysM UInt32}
    (hhandler : ∀ fs, s.machine.fsFromIndex index = some fs → handler fs s ≠ .error .undefined) :
    withFsIndex index handler s ≠ .error .undefined := by
  rw [withFsIndex, run_bind_ok (run_get s)]
  cases hfs : s.machine.fsFromIndex index with
  | none => exact run_pure_ne_error _ _
  | some fs => exact hhandler fs hfs

/-- A program on the machine, and what the handler does with its result. -/
theorem onMachine_bind_defined {α β : Type} {prog : MachineM α} {rest : α → SysM β}
    (hprog : prog s.machine ≠ .error .undefined)
    (hrest : ∀ a m, prog s.machine = .ok (a, m) → rest a { s with machine := m } ≠ .error .undefined) :
    (onMachine prog >>= rest) s ≠ .error .undefined := by
  refine run_bind_ne_error (run_zoom_ne_error hprog) fun a s' hrun => ?_
  rw [onMachine, zoom] at hrun
  split at hrun
  · next b m hok =>
    cases hrun
    exact hrest a m hok
  · cases hrun

theorem sysLabel_defined {change : Buf → MachineM Bool} (hchange : ∀ label, change label s.machine ≠ .error .undefined) :
    sysLabel change frame s ≠ .error .undefined := by
  rw [sysLabel, run_bind_ok (userString_run _ s)]
  cases scanUser s.mem (frame 4) (windowSize + 1) 0 with
  | none => exact run_pure_ne_error _ _
  | some len =>
    dsimp only
    rw [run_bind_ok (userBuf_run _ s)]
    exact onMachine_bind_defined (hchange _) fun _ _ _ => run_pure_ne_error _ _

theorem sysInodeIsMountpoint_defined : sysInodeIsMountpoint frame s ≠ .error .undefined :=
  withFsIndex_defined fun _ _ => onMachine_bind_defined (fun hrun => by cases hrun) fun _ _ _ => run_pure_ne_error _ _

variable (hbounds : s.machine.InBounds)

include hbounds

theorem serves_of_index {index : UInt32} {fs : Slot} (hfs : s.machine.fsFromIndex index = some fs) :
    s.machine.Serves fs :=
  ⟨hbounds, Machine.live_of_fsFromIndex hfs⟩

theorem sysReadChunk_defined : sysReadChunk frame s ≠ .error .undefined := by
  refine withFsIndex_defined fun fs hfs => ?_
  have hserves := serves_of_index hbounds hfs
  refine onMachine_bind_defined (Confined.chunkInode hserves _).defined fun found m hrun => ?_
  obtain _ | ⟨fs', ino⟩ := found
  · exact run_pure_ne_error _ _
  have hserves' := chunkInode_serves hserves hrun
  dsimp only
  split
  · exact run_pure_ne_error _ _
  split
  · exact run_pure_ne_error _ _
  next hlt =>
  have hchunk := (Stays.readChunk ino _).avoids _ (hserves'.inBounds _ hserves'.live) (chunk_lt_fileBlkLimit hlt)
  refine onMachine_bind_defined (run_zoom_ne_error hchunk) fun chunk m' _ => ?_
  cases chunk with
  | none => exact run_pure_ne_error _ _
  | some buf => exact run_bind_ne_error (fun hrun => by cases hrun) fun _ _ _ => run_pure_ne_error _ _

/-- A program on the filesystem of the call, and what the handler does with its result. -/
theorem onFs_bind_defined {α : Type} {index : UInt32} {fs : Slot} (hfs : s.machine.fsFromIndex index = some fs)
    {prog : FsM α} {rest : α → SysM UInt32} (hprog : Stays (fun _ => True) prog)
    (hrest : ∀ a s', rest a s' ≠ .error .undefined) : (onMachine (onFs fs prog) >>= rest) s ≠ .error .undefined :=
  onMachine_bind_defined (Confined.onFs (serves_of_index hbounds hfs) hprog).defined fun _ _ _ => hrest _ _

theorem sysGetStat_defined : sysGetStat frame s ≠ .error .undefined := by
  refine withFsIndex_defined fun fs hfs => onFs_bind_defined hbounds hfs (.getInode _) fun found s' => ?_
  cases found with
  | none => exact run_pure_ne_error _ _
  | some ino =>
    dsimp only
    split
    · exact run_pure_ne_error _ _
    · exact run_bind_ne_error (fun hrun => by cases hrun) fun _ _ _ => run_pure_ne_error _ _

theorem sysReplaceInode_defined (env : Env) : sysReplaceInode env frame s ≠ .error .undefined := by
  rw [sysReplaceInode]
  split
  · exact run_pure_ne_error _ _
  refine withFsIndex_defined fun fs hfs => ?_
  rw [run_bind_ok (userBuf_run _ s)]
  exact onFs_bind_defined hbounds hfs (.replaceInode _ _ _ _) fun _ _ => run_pure_ne_error _ _

theorem sysTruncateInode_defined (env : Env) : sysTruncateInode env frame s ≠ .error .undefined :=
  withFsIndex_defined fun _ hfs =>
    onFs_bind_defined hbounds hfs (.truncateInode _ _ _) fun _ _ => run_pure_ne_error _ _

theorem sysAppendToInode_defined (env : Env) (hproper : FsSyscall.appendToInode.Proper frame s.machine) :
    sysAppendToInode env frame s ≠ .error .undefined := by
  rw [sysAppendToInode]
  split
  · exact run_pure_ne_error _ _
  split
  · exact run_pure_ne_error _ _
  refine withFsIndex_defined fun fs hfs => ?_
  rw [run_bind_ok (userBuf_run _ s)]
  have hserves := serves_of_index hbounds hfs
  refine onMachine_bind_defined (run_zoom_ne_error ?_) fun _ _ _ => run_pure_ne_error _ _
  exact Stays.appendToInode_defined _ _ _ _ _ (hserves.inBounds fs hserves.live) fun inode info => hproper fs inode info hfs

theorem sysMake_defined {make : Slot → UInt32 → Buf → MachineM (Option (Slot × UInt32))}
    (hmake : ∀ fs name, s.machine.Enters fs (frame 4) → Confined (make fs (frame 4) name) s.machine)
    (hproper : s.machine.fsFromIndex (frame 0) = some s.machine.rootFs → frame 4 ≠ 0) :
    sysMake make frame s ≠ .error .undefined := by
  rw [sysMake]
  split
  · exact run_pure_ne_error _ _
  split
  · exact run_pure_ne_error _ _
  refine withFsIndex_defined fun fs hfs => ?_
  rw [run_bind_ok (userBuf_run _ s)]
  have hin : s.machine.Enters fs (frame 4) := ⟨serves_of_index hbounds hfs, fun hroot => hproper (hroot ▸ hfs)⟩
  refine onMachine_bind_defined (hmake fs _ hin).defined fun made m _ => ?_
  cases made with
  | none => exact run_pure_ne_error _ _
  | some made => exact run_bind_ne_error (fun hrun => by cases hrun) fun _ _ _ => run_pure_ne_error _ _

theorem sysRemove_defined {unlink : Slot → UInt32 → Buf → MachineM Bool}
    (hunlink : ∀ fs name, s.machine.Enters fs (frame 4) → Confined (unlink fs (frame 4) name) s.machine)
    (hproper : s.machine.fsFromIndex (frame 0) = some s.machine.rootFs → frame 4 ≠ 0) :
    sysRemove unlink frame s ≠ .error .undefined := by
  rw [sysRemove]
  split
  · exact run_pure_ne_error _ _
  refine withFsIndex_defined fun fs hfs => ?_
  rw [run_bind_ok (userBuf_run _ s)]
  have hin : s.machine.Enters fs (frame 4) := ⟨serves_of_index hbounds hfs, fun hroot => hproper (hroot ▸ hfs)⟩
  exact onMachine_bind_defined (hunlink fs _ hin).defined fun _ _ _ => run_pure_ne_error _ _

theorem sysRenameInode_defined (env : Env) (hproper : FsSyscall.renameInode.Proper frame s.machine) :
    sysRenameInode env frame s ≠ .error .undefined := by
  rw [sysRenameInode, run_bind_ok (userStrings_run _ _ s)]
  split
  swap
  · exact run_pure_ne_error _ _
  refine withFsIndex_defined fun fs hfs => ?_
  rw [run_bind_ok (userBuf_run _ s), run_bind_ok (userBuf_run _ s)]
  have hserves := serves_of_index hbounds hfs
  have hold : s.machine.Enters fs (frame 4) := ⟨hserves, fun hroot => (hproper (hroot ▸ hfs)).1⟩
  have hnew : s.machine.Enters fs (frame 5) := ⟨hserves, fun hroot => (hproper (hroot ▸ hfs)).2⟩
  exact onMachine_bind_defined (Confined.renameInode env.now _ _ hold hnew).defined fun _ _ _ => run_pure_ne_error _ _

theorem sysLinkInode_defined (env : Env) : sysLinkInode env frame s ≠ .error .undefined := by
  refine withFsIndex_defined fun fs hfs => withFsIndex_defined fun parentFs _ => ?_
  have hserves := serves_of_index hbounds hfs
  split
  · exact run_pure_ne_error _ _
  refine onMachine_bind_defined (Confined.onFs hserves (.linkable _ _)).defined fun ok m hrun => ?_
  cases ok with
  | false => exact run_pure_ne_error _ _
  | true =>
    have hm := (Confined.onFs hserves (.linkable _ _)).writes _ _ hrun
    rw [if_pos rfl, run_bind_ok (userString_run _ _)]
    cases scanUser s.mem (frame 6) (windowSize + 1) 0 with
    | none => exact run_pure_ne_error _ _
    | some len =>
      dsimp only
      split
      · exact run_pure_ne_error _ _
      rw [run_bind_ok (userBuf_run _ _)]
      have hin : m.Enters fs (frame 5) := ⟨hm.serves hserves, fun _ => linkable_ne_zero hserves hrun⟩
      exact onMachine_bind_defined (Confined.linkInode env.now hin _ _).defined fun _ _ _ => run_pure_ne_error _ _

theorem sysMakeSymlink_defined (env : Env) : sysMakeSymlink env frame s ≠ .error .undefined := by
  refine withFsIndex_defined fun fs hfs => ?_
  have hserves := serves_of_index hbounds hfs
  refine onMachine_bind_defined (Confined.onFs hserves (.inodeExists _)).defined fun ok m hrun => ?_
  cases ok with
  | false => exact run_pure_ne_error _ _
  | true =>
    have hm := (Confined.onFs hserves (.inodeExists _)).writes _ _ hrun
    have hin : m.Enters fs (frame 4) := ⟨hm.serves hserves, fun _ => onFs_inodeExists_ne_zero hserves hrun⟩
    rw [if_pos rfl, run_bind_ok (userStrings_run _ _ _)]
    split
    swap
    · exact run_pure_ne_error _ _
    rw [run_bind_ok (userBuf_run _ _), run_bind_ok (userBuf_run _ _)]
    refine onMachine_bind_defined (Confined.dirContains hin _).defined fun found m' hfound => ?_
    split
    · exact run_pure_ne_error _ _
    have hin' := ((Confined.dirContains hin _).writes _ _ hfound).enters hin
    exact onMachine_bind_defined (Confined.makeSymlink env.now env.heap hin' _ _).defined fun _ _ _ =>
      run_pure_ne_error _ _

theorem sysResolve_defined (splitLeafSym : Bool) (env : Env) (hwalk : s.machine.Walkable) :
    sysResolve splitLeafSym env frame s ≠ .error .undefined := by
  rw [sysResolve]
  split
  · exact run_pure_ne_error _ _
  rw [resolveDir, bind_assoc, run_bind_ok (userString_run _ s)]
  cases scanUser s.mem (frame 4) (windowSize + 1) 0 with
  | none => exact run_pure_ne_error _ _
  | some len =>
    dsimp only
    rw [bind_assoc, run_bind_ok (userBuf_run _ s)]
    refine onMachine_bind_defined (peeks_lookupPath hwalk _ _ hbounds _).1 fun place m _ => ?_
    cases place with
    | none => exact run_pure_ne_error _ _
    | some place =>
      dsimp only
      split
      · exact run_bind_ne_error (fun hrun => by cases hrun) fun _ _ _ => run_pure_ne_error _ _
      · exact run_pure_ne_error _ _

/-- A handler that is asked for something proper stays in the buffers of the kernel, whatever the user program hands
over. -/
theorem FsSyscall.handler_defined (env : Env) (call : FsSyscall) (hproper : call.Proper frame s.machine) :
    call.handler env frame s ≠ .error .undefined := by
  cases call with
  | readChunk => exact sysReadChunk_defined hbounds
  | resolveDir => exact sysResolve_defined hbounds true env hproper
  | getStat => exact sysGetStat_defined hbounds
  | makeDir => exact sysMake_defined hbounds (fun _ name hin => .makeDir env.now name hin) hproper
  | removeInode => exact sysRemove_defined hbounds (fun _ name hin => .unlinkInode env.now name hin) hproper
  | removeDir => exact sysRemove_defined hbounds (fun _ name hin => .unlinkDir env.now name hin) hproper
  | replaceInode => exact sysReplaceInode_defined hbounds env
  | makeInode => exact sysMake_defined hbounds (fun _ name hin => .makeFile env.now name hin) hproper
  | renameInode => exact sysRenameInode_defined hbounds env hproper
  | appendToInode => exact sysAppendToInode_defined hbounds env hproper
  | linkInode => exact sysLinkInode_defined hbounds env
  | makeSymlink => exact sysMakeSymlink_defined hbounds env
  | resolveSymlink => exact sysResolve_defined hbounds false env hproper
  | truncateInode => exact sysTruncateInode_defined hbounds env
  | inodeIsMountpoint => exact sysInodeIsMountpoint_defined
  | mountFs => exact sysLabel_defined fun label => mountFs_defined hbounds hproper env.stack label
  | umountFs => exact sysLabel_defined fun label => umountFs_defined _ label

end Handlers

end DeprecatOS
