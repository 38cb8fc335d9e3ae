import DeprecatOS.Proof.ChangeDir

/-!
# The path buffers of the shell

A relative argument of a command is checked against the size of `full_path`, an absolute one is passed on as it is. So
`dir`, `full_path` and the copies of a new path stay within their 256 bytes as long as no absolute argument is longer.
-/

namespace DeprecatOS

open Bytes Fault

variable {args dir path : Buf} {s s' : Depsh}

/-! ### The loops -/

theorem copyDir_eq {len : Nat} (hstop : dir len = 0) (hne : ∀ k < len, dir k ≠ 0) {fuel i : Nat} {full : Buf}
    (hle : i ≤ len) (hfuel : len < i + fuel) :
    copyDir dir fuel i full = (true, fun k => if i ≤ k ∧ k < len then dir k else full k) := by
  induction fuel generalizing i full with
  | zero => omega
  | succ fuel ih =>
    rw [copyDir]
    obtain rfl | hlt := Nat.eq_or_lt_of_le hle
    · rw [if_pos hstop]
      congr 1
      funext k
      rw [if_neg (by omega)]
    · rw [if_neg (hne i hlt), ih hlt (by omega)]
      congr 1
      funext k
      by_cases hk : k = i
      · rw [hk, if_neg (by omega), Function.update_self, if_pos ⟨le_rfl, hlt⟩]
      · rw [Function.update_of_ne hk]
        exact if_congr (by omega) rfl rfl

theorem copyArgs_some {i fuel j n : Nat} {full full' : Buf} (hrun : copyArgs args i fuel j full = (some n, full')) :
    args n = 0 ∧ (n = j ∨ i + n ≤ 255) ∧ ∀ k < i, full' k = full k := by
  induction fuel generalizing j full with
  | zero => cases hrun
  | succ fuel ih =>
    rw [copyArgs] at hrun
    split_ifs at hrun with hzero hfull
    · cases hrun
      exact ⟨hzero, .inl rfl, fun _ _ => rfl⟩
    · cases hrun
    · obtain ⟨hend, hroom, hsame⟩ := ih hrun
      refine ⟨hend, .inr (by omega), fun k hk => ?_⟩
      rw [hsame k hk, Function.update_of_ne (by omega)]

theorem copyPath_terminated {fuel i stop : Nat} (buf : Buf) (hstop : path stop = 0) (hle : i ≤ stop)
    (hlt : stop < i + fuel) : ∃ k < i + fuel, copyPath path fuel i buf k = 0 := by
  induction fuel generalizing i buf with
  | zero => omega
  | succ fuel ih =>
    rw [copyPath]
    split_ifs with hzero
    · exact ⟨i, by omega, Function.update_self ..⟩
    · have hne : i ≠ stop := fun heq => hzero (heq ▸ hstop)
      obtain ⟨k, hk, hend⟩ := ih (Function.update buf i (path i)) (show i + 1 ≤ stop by omega) (by omega)
      exact ⟨k, by omega, hend⟩

theorem copyPath_full {fuel i : Nat} {buf : Buf} (hne : ∀ k, i ≤ k → k < i + fuel → path k ≠ 0) {k : Nat}
    (hk : k < i + fuel) : copyPath path fuel i buf k = if i ≤ k then path k else buf k := by
  induction fuel generalizing i buf with
  | zero => rw [copyPath, if_neg (by omega)]
  | succ fuel ih =>
    rw [copyPath, if_neg (hne i le_rfl (by omega)), ih (fun k hlow hhigh => hne k (by omega) (by omega)) (by omega)]
    obtain rfl | hik := eq_or_ne k i
    · rw [if_neg (by omega), Function.update_self, if_pos le_rfl]
    · rw [Function.update_of_ne hik]
      exact if_congr (by omega) rfl rfl

/-! ### Short paths -/

/-- An absolute path that fits in 256 bytes with its terminating zero. -/
structure Fits (path : Buf) : Prop where
  absolute : path 0 = slash
  short : (textOf path).length < dirSize

theorem Fits.ends (hfits : Fits path) : ∃ len < dirSize, path len = 0 ∧ ∀ k < len, path k ≠ 0 := by
  have hshort := hfits.short
  rw [textOf, List.length_map, List.length_range] at hshort
  have hstop := (scanName_eq_iff path (Nat.zero_le _) (lt_trans hshort (by decide))).mp rfl
  exact ⟨_, hshort, hstop.1, fun k hk => hstop.2 k (Nat.zero_le k) hk⟩

theorem scanName_le_of_zero {stop fuel len : Nat} (hzero : path stop = 0) (hle : len ≤ stop) :
    scanName path fuel len ≤ stop := by
  induction fuel generalizing len with
  | zero => exact hle
  | succ fuel ih =>
    rw [scanName]
    split_ifs with hend
    · exact hle
    · have hne : len ≠ stop := fun heq => hend (heq ▸ hzero)
      exact ih (by omega)

theorem fits_of_zero {stop : Nat} (habsolute : path 0 = slash) (hzero : path stop = 0) (hlt : stop < dirSize) :
    Fits path := by
  refine ⟨habsolute, ?_⟩
  rw [textOf, List.length_map, List.length_range]
  exact lt_of_le_of_lt (scanName_le_of_zero hzero (Nat.zero_le stop)) hlt

theorem updFullPath_fits {len : Nat} (hlt : len < dirSize) (hstop : s.dir len = 0) (hne : ∀ k < len, s.dir k ≠ 0) :
    ∃ full : Buf, updFullPath s = .ok (true, { s with fullPath := full }) ∧ scanName full dirSize 0 = len ∧
      ∀ k < len, full k = s.dir k := by
  rw [updFullPath, run_bind_ok (run_get s), copyDir_eq hstop hne (Nat.zero_le _) (by omega)]
  refine ⟨_, rfl, ?_, fun k hk => if_pos ⟨Nat.zero_le k, hk⟩⟩
  rw [scanName_eq_iff _ (Nat.zero_le _) (by omega)]
  constructor
  · rw [if_neg (by omega), if_pos hlt]
  · intro k _ hk
    rw [if_pos ⟨Nat.zero_le k, hk⟩]
    exact hne k hk

/-- An empty argument behind a `dir` of 255 characters is the one case in which the terminating zero has no room. -/
theorem returnPath_fits (hdir : Fits s.dir) (hempty : args 0 = 0 → (textOf s.dir).length ≠ 255) :
    Runs (returnPath args) s fun path s' => s'.dir = s.dir ∧
      ∀ p, path = some p → (args 0 = slash → (textOf args).length < dirSize) → Fits p := by
  by_cases habsolute : args 0 = slash
  · rw [returnPath, if_pos habsolute]
    refine .pure ⟨rfl, fun p hp hshort => ?_⟩
    cases hp
    exact ⟨habsolute, hshort habsolute⟩
  obtain ⟨len, hlt, hstop, hne⟩ := hdir.ends
  have hlength : (textOf s.dir).length = len := by
    rw [textOf, List.length_map, List.length_range, scanName_eq_iff _ (Nat.zero_le _) (lt_trans hlt (by decide))]
    exact ⟨hstop, fun k _ => hne k⟩
  obtain ⟨full, hupd, hscan, hcopy⟩ := updFullPath_fits hlt hstop hne
  rw [returnPath, if_neg habsolute]
  apply Runs.bind_eq hupd
  rw [if_pos rfl]
  apply Runs.bind_eq (run_get _)
  dsimp only
  rw [hscan]
  generalize hcopied : copyArgs args _ _ _ _ = result
  obtain ⟨copied, full'⟩ := result
  apply Runs.bind_eq (run_modify _ _)
  cases copied with
  | none => exact .pure ⟨rfl, fun p hp => by cases hp⟩
  | some j =>
    obtain ⟨hend, hroom, hsame⟩ := copyArgs_some hcopied
    have hfirst : full' 0 = slash := by
      rw [hsame 0 (by omega)]
      obtain rfl | hpos := Nat.eq_zero_or_pos len
      · exact Function.update_self ..
      · rw [Function.update_of_ne hpos.ne, hcopy 0 hpos, hdir.absolute]
    have hbound : len + 1 + j < dirSize := by
      rw [dirSize] at hlt ⊢
      obtain rfl | hle := hroom
      · have := hempty hend
        omega
      · omega
    dsimp only
    rw [if_neg (Nat.not_le.mpr hbound)]
    apply Runs.bind_eq (run_modify _ _)
    refine .pure ⟨rfl, fun p hp _ => ?_⟩
    cases hp
    refine fits_of_zero ?_ (Function.update_self ..) hbound
    rw [Function.update_of_ne (by omega), hfirst]

/-! ### The commands -/

theorem cdDir_fits (args dir : Buf) (hfits : Fits path) :
    ∃ dir', cdDir (cdPath args path) dir = some dir' ∧ Fits dir' := by
  have habsolute : cdPath args path 0 = slash := by
    rw [cdPath]
    split_ifs
    · rfl
    · exact hfits.absolute
  have hshort := length_textOf_cdPath args hfits.short
  obtain ⟨comps, -, htext, hholds, hsep⟩ := exists_flatPath habsolute (lt_trans hshort (by decide))
  rw [htext] at hshort
  obtain ⟨dir', hdir', hholds', hshort'⟩ := cdDir_run dir hholds hsep hshort
  refine ⟨dir', hdir', cdComps_absolute hholds', ?_⟩
  rwa [hholds'.textOf_eq]

theorem onKernel_keeps {α : Type} (prog : MachineM α) : Keeps Depsh.dir (onKernel prog) := by
  intro s a s' hrun
  rw [onKernel, zoom] at hrun
  cases hprog : prog s.machine with
  | error e =>
    rw [hprog] at hrun
    cases hrun
  | ok result =>
    rw [hprog] at hrun
    cases hrun
    rfl

theorem resolveDirCall_keeps (env : Env) (path : Buf) (fsOut : UInt32) :
    Keeps Depsh.dir (resolveDirCall env path fsOut) := by
  refine .bind (onKernel_keeps _) fun found => ?_
  cases found with
  | none => exact .pure _
  | some place => exact .pure _

theorem isDir_keeps (inodeN fs : UInt32) : Keeps Depsh.dir (isDir inodeN fs) := by
  have hstat : Keeps Depsh.dir (getStatCall fs inodeN) := by
    refine .bind .get fun s => ?_
    cases s.machine.fsFromIndex fs with
    | none => exact .pure _
    | some slot =>
      refine .bind (onKernel_keeps _) fun ino => ?_
      cases ino with
      | none => exact .pure _
      | some ino =>
        refine .bind ?_ fun _ => .pure _
        intro s a s' hrun
        cases hrun
        rfl
  exact .bind hstat fun _ => .bind .get fun _ => .pure _

theorem cmdCd_dir {env : Env} {dFs : UInt32} {message : Option String} (hrun : cmdCd env args dFs s = .ok (message, s')) :
    s'.dir = s.dir ∨ ∃ p s₁ dir, returnPath args s = .ok (some p, s₁) ∧ cdDir (cdPath args p) dir = some s'.dir := by
  obtain ⟨found, s₁, hpath, hrun⟩ := run_bind_eq_ok hrun
  have hsame := (returnPath_same hpath).dir
  cases found with
  | none =>
    cases hrun
    exact .inl hsame
  | some p =>
    dsimp only at hrun
    rw [← cdPath] at hrun
    obtain ⟨⟨d, fs⟩, s₂, hresolve, hrun⟩ := run_bind_eq_ok hrun
    have hsame₂ := (resolveDirCall_keeps env _ dFs _ _ _ hresolve).trans hsame
    dsimp only at hrun
    split_ifs at hrun with hfailed
    · cases hrun
      exact .inl hsame₂
    · obtain ⟨answer, s₃, hisDir, hrun⟩ := run_bind_eq_ok hrun
      have hsame₃ := (isDir_keeps d fs _ _ _ hisDir).trans hsame₂
      split_ifs at hrun with hfile
      · rw [run_bind_ok (run_get s₃)] at hrun
        cases hdir : cdDir (cdPath args p) s₃.dir with
        | none =>
          rw [hdir] at hrun
          cases hrun
        | some dir =>
          rw [hdir] at hrun
          cases hrun
          exact .inr ⟨p, s₁, s₃.dir, hpath, hdir⟩
      · cases hrun
        exact .inl hsame₃

theorem copyPaths_ok {env : Env} {cmd : String} {paths : Buf × Buf} {buf : Buf} {result : Except String (Buf × Buf)}
    (hrun : copyPaths env cmd paths buf s = .ok (result, s')) :
    s'.dir = s.dir ∧ ∀ old new, result = .ok (old, new) → paths.2 0 ≠ 0 ∧
      ∃ p s₁, returnPath paths.2 s = .ok (some p, s₁) ∧ new = copyPath p dirSize 0 buf := by
  rw [copyPaths] at hrun
  split_ifs at hrun with hinvalid
  · cases hrun
    exact ⟨rfl, fun _ _ h => by cases h⟩
  obtain ⟨found, s₁, hpath, hrun⟩ := run_bind_eq_ok hrun
  have hsame := (returnPath_same hpath).dir
  cases found with
  | none =>
    cases hrun
    exact ⟨hsame, fun _ _ h => by cases h⟩
  | some p =>
    obtain ⟨ino, s₂, hresolve, hrun⟩ := run_bind_eq_ok hrun
    have hresolved : Keeps Depsh.dir (resolveSymlinkCall env p) := by
      refine .bind (onKernel_keeps _) fun found => ?_
      cases found with
      | none => exact .pure _
      | some place => exact .pure _
    have hsame₂ := (hresolved _ _ _ hresolve).trans hsame
    split_ifs at hrun with htaken
    · cases hrun
      exact ⟨hsame₂, fun _ _ h => by cases h⟩
    · obtain ⟨old, s₃, hold, hrun⟩ := run_bind_eq_ok hrun
      have hsame₃ := (returnPath_same hold).dir.trans hsame₂
      cases old with
      | none =>
        cases hrun
        exact ⟨hsame₃, fun _ _ h => by cases h⟩
      | some old =>
        cases hrun
        refine ⟨hsame₃, fun _ _ h => ?_⟩
        cases h
        exact ⟨fun h => hinvalid (.inl h), p, s₁, hpath, rfl⟩

/-! ### Runs of the shell -/

/-- What a command does with the buffers. Every command may call `return_path`, and what it does besides changes
anything but `dir`. -/
inductive ShellCall where
  | cd (env : Env) (args : Buf) (dFs : UInt32)
  | path (args : Buf)
  | cp (env : Env) (args buf : Buf)
  | mv (env : Env) (args buf : Buf)
  | other (machine : Machine) (fullPath statBuf : Buf)

def ShellCall.exec : ShellCall → DepshM Unit
  | .cd env args dFs => do let _ ← cmdCd env args dFs
  | .path args => do let _ ← returnPath args
  | .cp env args buf => do let _ ← copyPaths env "cp" (cpPaths args) buf
  | .mv env args buf => do let _ ← copyPaths env "mv" (splitWord args) buf
  | .other machine fullPath statBuf => modify fun s => { s with machine, fullPath, statBuf }

def Depsh.Allows (s : Depsh) : ShellCall → Prop
  | .cd _ args _ => (args 0 = 0 → (textOf s.dir).length ≠ 255) ∧ (args 0 = slash → (textOf args).length < dirSize)
  | .path args => args 0 = 0 → (textOf s.dir).length ≠ 255
  | .cp _ args _ => (cpPaths args).2 0 = slash → (textOf (cpPaths args).2).length < dirSize
  | .mv _ args _ => (splitWord args).2 0 = slash → (textOf (splitWord args).2).length < dirSize
  | .other _ _ _ => True

def Depsh.CopySafe (s : Depsh) (env : Env) (cmd : String) (paths : Buf × Buf) (buf : Buf) : Prop :=
  (∀ p ∈ [paths.1, paths.2], p 0 ≠ 0 → ∀ s₁ : Depsh, s₁.dir = s.dir → Runs (returnPath p) s₁ fun _ _ => True) ∧
    ∀ old new s', copyPaths env cmd paths buf s = .ok (.ok (old, new), s') → ∃ k < dirSize, new k = 0

/-- No write of the call is outside of its buffer. -/
def Depsh.Safe (s : Depsh) : ShellCall → Prop
  | .cd _ args _ => Runs (returnPath args) s fun path s₁ => ∀ p, path = some p → cdDir (cdPath args p) s₁.dir ≠ none
  | .path args => Runs (returnPath args) s fun _ _ => True
  | .cp env args buf => s.CopySafe env "cp" (cpPaths args) buf
  | .mv env args buf => s.CopySafe env "mv" (splitWord args) buf
  | .other _ _ _ => True

theorem copySafe_of_fits {env : Env} {cmd : String} {paths : Buf × Buf} {buf : Buf} (hdir : Fits s.dir)
    (hnew : paths.2 0 = slash → (textOf paths.2).length < dirSize) : s.CopySafe env cmd paths buf := by
  constructor
  · intro p _ hne s₁ hsame
    exact (returnPath_fits (hsame.symm ▸ hdir) fun hzero => absurd hzero hne).mono fun _ _ _ => trivial
  · intro old new s' hrun
    obtain ⟨hne, p, s₁, hpath, rfl⟩ := (copyPaths_ok hrun).2 old new rfl
    have hfits := ((returnPath_fits hdir fun hzero => absurd hzero hne).of_run hpath).2 p rfl hnew
    obtain ⟨len, hlt, hstop, -⟩ := hfits.ends
    have hlt' : len < 0 + dirSize := by omega
    obtain ⟨k, hk, hend⟩ := copyPath_terminated buf hstop (Nat.zero_le len) hlt'
    exact ⟨k, by omega, hend⟩

theorem safe_of_fits (hdir : Fits s.dir) {call : ShellCall} (hallows : s.Allows call) : s.Safe call := by
  cases call with
  | cd env args dFs =>
    refine (returnPath_fits hdir hallows.1).mono fun path s₁ hpath p hp => ?_
    obtain ⟨dir', hdir', -⟩ := cdDir_fits args s₁.dir (hpath.2 p hp hallows.2)
    rw [hdir']
    exact Option.some_ne_none dir'
  | path args => exact (returnPath_fits hdir hallows).mono fun _ _ _ => trivial
  | cp env args buf => exact copySafe_of_fits hdir hallows
  | mv env args buf => exact copySafe_of_fits hdir hallows
  | other machine fullPath statBuf => trivial

theorem exec_fits (hdir : Fits s.dir) {call : ShellCall} (hallows : s.Allows call) {a : Unit}
    (hrun : call.exec s = .ok (a, s')) : Fits s'.dir := by
  cases call with
  | cd env args dFs =>
    obtain ⟨message, s₁, hcd, hrun⟩ := run_bind_eq_ok hrun
    cases hrun
    obtain hsame | ⟨p, s₂, dir, hpath, hwritten⟩ := cmdCd_dir hcd
    · rwa [hsame]
    · have hfits := ((returnPath_fits hdir hallows.1).of_run hpath).2 p rfl hallows.2
      obtain ⟨dir', hdir', hfits'⟩ := cdDir_fits args dir hfits
      rw [hwritten] at hdir'
      cases hdir'
      exact hfits'
  | path args =>
    obtain ⟨path, s₁, hpath, hrun⟩ := run_bind_eq_ok hrun
    cases hrun
    rwa [(returnPath_same hpath).dir]
  | cp env args buf =>
    obtain ⟨result, s₁, hcopy, hrun⟩ := run_bind_eq_ok hrun
    cases hrun
    rwa [(copyPaths_ok hcopy).1]
  | mv env args buf =>
    obtain ⟨result, s₁, hcopy, hrun⟩ := run_bind_eq_ok hrun
    cases hrun
    rwa [(copyPaths_ok hcopy).1]
  | other machine fullPath statBuf =>
    cases hrun
    exact hdir

/-- In every run from the directory `/` whose calls are all allowed, `dir` stays an absolute path within its 256 bytes,
and an allowed call writes outside of no buffer. -/
theorem shell_paths_fit (hstart : s.dir = cstr [slash]) (hreach : Reach Depsh.Allows ShellCall.exec s s') :
    Fits s'.dir ∧ ∀ call, s'.Allows call → s'.Safe call := by
  have hinit : Fits s.dir := by
    rw [hstart]
    exact ⟨rfl, by decide⟩
  have hfits : Fits s'.dir := hreach.invariant_of_run hinit fun _ _ _ _ hdir hallows hrun => exec_fits hdir hallows hrun
  exact ⟨hfits, fun call => safe_of_fits hfits⟩

def manyChars : Buf := cstr (List.replicate 248 97)

/-- `cd mnt` and `cd b` -/
def downTwice : List ShellCall :=
  [.cd ⟨0, zero, zero⟩ (cstr [109, 110, 116]) 0, .cd ⟨0, zero, zero⟩ (cstr [98]) 0]

/-- From `/`, after `cd mnt` and `cd b`, the path of a name of 248 characters fills `full_path` up to the byte for the
terminating zero. -/
theorem shell_paths_fit_full : ∃ s' path s₁, execAll ShellCall.exec downTwice hostShell = .ok ((), s') ∧
    textOf s'.dir = [47, 109, 110, 116, 47, 98] ∧ Fits s'.dir ∧ s'.Safe (.path manyChars) ∧
    s'.Safe (.cd ⟨0, zero, zero⟩ manyChars 0) ∧ returnPath manyChars s' = .ok (some path, s₁) ∧
    (textOf path).length = 255 := by
  have hcalls : (execAll ShellCall.exec downTwice hostShell).toOption.map (fun done => (textOf done.2.dir,
      (returnPath manyChars done.2).toOption.map fun result => result.1.map fun path => (textOf path).length)) =
      some ([47, 109, 110, 116, 47, 98], some (some 255)) := by decide +kernel
  obtain ⟨⟨done, s'⟩, hrun, hresult⟩ := eq_ok_of_toOption hcalls
  obtain ⟨hdir, hpath⟩ := Prod.mk.inj hresult
  obtain ⟨⟨found, s₁⟩, hreturn, hfound⟩ := eq_ok_of_toOption hpath
  obtain ⟨path, rfl, hlength⟩ := Option.map_eq_some_iff.mp hfound
  have hrelative : manyChars 0 ≠ 0 ∧ manyChars 0 ≠ slash := by decide
  have hallowed : ∀ call ∈ downTwice, ∀ s : Depsh, s.Allows call := by
    simp only [downTwice, List.forall_mem_cons, List.not_mem_nil, false_implies, implies_true, and_true]
    exact ⟨fun s => ⟨fun hzero => absurd hzero (by decide), fun hslash => absurd hslash (by decide)⟩,
      fun s => ⟨fun hzero => absurd hzero (by decide), fun hslash => absurd hslash (by decide)⟩⟩
  obtain ⟨hfits, hsafe⟩ := shell_paths_fit (s := hostShell) rfl (Reach.of_execAll hallowed hrun)
  exact ⟨s', path, s₁, hrun, hdir, hfits, hsafe (.path manyChars) fun hzero => absurd hzero hrelative.1,
    hsafe (.cd _ manyChars 0) ⟨fun hzero => absurd hzero hrelative.1, fun hslash => absurd hslash hrelative.2⟩,
    hreturn, hlength⟩

def smallShell : Depsh where
  machine := smallMachine
  dir := cstr [47]
  fullPath := zero
  statBuf := zero

def longPath : Text := slash :: List.replicate 256 97

theorem length_longPath : longPath.length = 257 := by rw [longPath, List.length_cons, List.length_replicate]

theorem longPath_holds : HoldsText (cstr longPath) longPath where
  short := by
    rw [length_longPath]
    decide
  chars _ _ := rfl
  ne_zero := by
    intro c hc
    obtain rfl | hmem := List.mem_cons.mp hc
    · decide
    · rw [List.eq_of_mem_replicate hmem]
      decide

theorem lookupPath_longPath (stack : Buf) (m : Machine) :
    lookupPath stack (cstr longPath) false m = .ok (none, m) := by
  have hsplit : SplitAt longPath [slash] (List.replicate 256 97) [] :=
    ⟨(List.append_nil _).symm, fun hmem => absurd (List.eq_of_mem_replicate hmem) (by decide), .inl rfl⟩
  have hend := hsplit.componentEnd_eq longPath_holds (by rw [length_longPath]; decide)
  rw [length_longPath, List.length_singleton, List.length_replicate] at hend
  have hhead : cstr longPath 0 = slash := rfl
  rw [lookupPath, if_neg (not_not.mpr hhead), walkPasses,
    longPath_holds.scanName_eq, length_longPath, if_neg (by decide), run_bind_ok (run_get m)]
  have hwalk : walkPath false stack (cstr longPath) 257 258 1 m.rootFs rootInodeN m = .ok (.failed, m) := by
    rw [walkPath, if_pos (by decide), hend]
    rfl
  rw [run_bind_ok hwalk]
  rfl

/-- `cp /f /aaa…`, with 256 characters behind the slash. -/
def longCopy : Buf := cstr ([47, 102, 32] ++ longPath)

/-- The copy of a new path that is too long has no terminating zero. -/
theorem cp_long_path_unterminated : ∃ old new s',
    copyPaths ⟨0, zero, zero⟩ "cp" (cpPaths longCopy) zero smallShell = .ok (.ok (old, new), s') ∧
      ∀ k < dirSize, new k ≠ 0 := by
  have hend : wordEnd longCopy 512 0 = 2 := rfl
  have hpaths : cpPaths longCopy = (Function.update longCopy 2 0, cstr longPath) := by
    rw [cpPaths, if_neg (by decide), splitWord, hend, if_pos (by decide)]
    congr 1
    funext k
    rw [longCopy, cstr_append, if_neg (by simp), List.length_cons, List.length_cons, List.length_singleton,
      Nat.add_sub_cancel_left]
  have hresolve : resolveSymlinkCall ⟨0, zero, zero⟩ (cstr longPath) smallShell = .ok (syscallError, smallShell) := by
    rw [resolveSymlinkCall, run_bind_ok (onKernel_run_read (lookupPath_longPath zero _))]
    rfl
  refine ⟨Function.update longCopy 2 0, copyPath (cstr longPath) dirSize 0 zero, smallShell, ?_, fun k hk => ?_⟩
  · rw [hpaths, copyPaths, if_neg (by decide)]
    have hnew : returnPath (cstr longPath) smallShell = .ok (some (cstr longPath), smallShell) := rfl
    rw [run_bind_ok hnew]
    dsimp only
    rw [run_bind_ok hresolve, if_neg (not_not.mpr rfl)]
    rfl
  · have hne : ∀ k, 0 ≤ k → k < 0 + dirSize → cstr longPath k ≠ 0 := by
      intro k _ hk
      have hlt : k < longPath.length := by
        rw [length_longPath]
        exact lt_trans (Nat.zero_add dirSize ▸ hk) (by decide)
      rw [cstr_of_lt hlt]
      exact longPath_holds.ne_zero _ (List.getElem_mem hlt)
    rw [copyPath_full hne (Nat.zero_add dirSize ▸ hk), if_pos (Nat.zero_le k)]
    exact hne k (Nat.zero_le k) (Nat.zero_add dirSize ▸ hk)

end DeprecatOS
