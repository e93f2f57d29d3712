import Mathlib.Algebra.Ring.Nat
import IdlFront.Proofs.Command.Runs
import IdlFront.Proofs.Project.Selection

/-! # What checks count and print

The diagnostics of all targets are counted; how many of them are printed is another matter.

* `IsProject`, `Named`, `Sought` — the targets that paths stand for.
* `diagnosticsAt`, `totalErrors` — the diagnostics of a file, and the number of those of all targets.
* `errorLines`, `Target.lines` — what is printed of them under a cap.
* `Command.targets_sought` — a check finds the targets.
* `Command.checkTargets_run` — what it counts and prints, target by target.
* `Command.check_sought` — what it leads to as a whole.
-/

namespace IdlFront

open FileStore

/-! ## Targets -/

/-- The directory is that of a project with these settings and these sources. -/
structure IsProject (fs : FileStore) (directory : Path) (config : ProjectConfig)
    (sources : List Path) : Prop where
  loaded : loadConfig fs (directory.join (.ofText configFileName)) = .ok config
  found : findSources fs config directory = .ok sources

/-- The targets that a path stands for: the sources of the project in a directory, or a file. -/
inductive Named (fs : FileStore) : Path → List Target → Prop where
  | project {directory : Path} {config : ProjectConfig} {sources : List Path}
      (there : fs.hasDirectory directory = true)
      (isProject : IsProject fs directory config sources) :
      Named fs directory (sources.map fun source => ⟨source, some config⟩)
  | file {path : Path} (there : fs.hasFile path = true) : Named fs path [⟨path, none⟩]

/-- The targets that all paths of a check stand for. Without a path they are the sources of the project
    in the working directory. -/
inductive Sought (fs : FileStore) : List String → List Target → Prop where
  | here {config : ProjectConfig} {sources : List Path}
      (isProject : IsProject fs ⟨.root, fs.here⟩ config sources) :
      Sought fs [] (sources.map fun source => ⟨source, some config⟩)
  | named {paths : List String} {parts : List (List Target)} (some : paths ≠ [])
      (each : List.Forall₂ (Named fs) (paths.map Path.ofText) parts) : Sought fs paths parts.flatten

/-! ## Diagnostics -/

/-- The diagnostics of the file at a path, none if it has no text. -/
def diagnosticsAt (fs : FileStore) (p : Path) : List Diagnostic :=
  match fs.readText p with
  | .ok text => (parse text).diagnostics
  | .error _ => []

/-- How many diagnostics there are, those of a target as often as it is in the list. -/
def totalErrors (fs : FileStore) (targets : List Target) : Nat :=
  (targets.map fun t => (diagnosticsAt fs t.path).length).sum

/-- The cap for a target: that of its own project, or else that of the project given. -/
def Target.cap (own : ProjectConfig) (t : Target) : Nat := (t.config.getD own).maxDiagnostics

/-- Diagnostics line by line, no more than a cap, and behind them the number of those left out. A cap of
    zero leaves none out. -/
def errorLines (path : Path) (ds : List Diagnostic) (cap : Nat) : List String :=
  (ds.take (if cap = 0 then ds.length else min ds.length cap)).map
      (fun d => Report.text (.diagnostic path d)) ++
    if 0 < cap ∧ cap < ds.length then [s!"{path.text}: {ds.length - cap} more error(s) not shown"]
    else []

/-- What is printed of a target. -/
def Target.lines (fs : FileStore) (own : ProjectConfig) (t : Target) : List String :=
  errorLines t.path (diagnosticsAt fs t.path) (t.cap own)

theorem text_diagnosticReports (path : Path) (ds : List Diagnostic) (cap : Nat) :
    (diagnosticReports path ds cap).map Report.text = errorLines path ds cap := by
  unfold diagnosticReports errorLines
  by_cases zero : cap = 0
  · simp [zero]
  have pos : 0 < cap := Nat.pos_of_ne_zero zero
  have shown : ds.take cap = ds.take (min ds.length cap) := List.take_eq_take_iff.2 (by omega)
  have hidden : ds.length - (ds.take cap).length = ds.length - cap := by
    rw [List.length_take]
    omega
  simp only [if_neg zero, hidden, ← shown, List.map_append, List.map_map, pos, true_and,
    Nat.sub_pos_iff_lt]
  split <;> rfl

/-! ## Finding targets -/

namespace Command

variable {fs : FileStore} {s : Session} {paths : List String} {found : List Target}

theorem projectTargets_run {directory : Path} {config : ProjectConfig} {sources : List Path}
    (h : IsProject s.files directory config sources) : projectTargets directory s =
      .ok (some (sources.map fun source => ⟨source, some config⟩)) s :=
  projectTargets_ok h.loaded h.found

theorem targetsAt_run {path : Path} {part : List Target} (h : Named s.files path part) :
    targetsAt path s = .ok (some part) s := by
  unfold targetsAt
  rw [bind_lookUp rfl, bind_files]
  cases h with
  | project there isProject => rw [if_pos there, projectTargets_run isProject]
  | file there =>
    obtain ⟨c, t, found⟩ := hasFile_iff.1 there
    have notDirectory : ¬ s.files.hasDirectory path = true := fun directory =>
      Glob.not_hasFile_of_hasDirectory directory there
    rw [if_neg notDirectory, if_pos (hasEntry_iff.2 ⟨_, found⟩)]
    rfl

theorem targets_run {ps : List Path} {parts : List (List Target)}
    (each : List.Forall₂ (Named s.files) ps parts) :
    targets ps s = .ok (some parts.flatten) s := by
  induction each with
  | nil => rfl
  | cons first _ ih =>
    unfold targets
    rw [bind_ok (targetsAt_run first)]
    show (targets _ >>= _) s = _
    rw [bind_ok ih]
    rfl

/-- A check finds the targets that its paths stand for. -/
theorem targets_sought (h : Sought s.files paths found) :
    (if paths.isEmpty then here >>= projectTargets else targets (paths.map Path.ofText)) s =
      .ok (some found) s := by
  cases h with
  | here isProject => exact projectTargets_run isProject
  | named some each =>
    rw [if_neg (by simpa using some)]
    exact targets_run each

/-! ## Going through targets -/

theorem parseFile_of_text {p : Path} (read : ∃ text, fs.readText p = .ok text) :
    ∃ result, parseFile fs p = .ok result ∧ result.diagnostics = diagnosticsAt fs p := by
  obtain ⟨text, read⟩ := read
  exact ⟨parse text, by simp [parseFile, FileStore.refuses_of_readText read, read],
    by rw [diagnosticsAt, read]⟩

/-- The settings of the working directory are at hand: they have been loaded, or can be if a target
    without settings of its own has diagnostics. -/
structure AtHand (fs : FileStore) (own : Option ProjectConfig) (config : ProjectConfig)
    (targets : List Target) : Prop where
  kept : ∀ loaded, own = some loaded → loaded = config
  loads : (∃ t ∈ targets, t.config = none ∧ diagnosticsAt fs t.path ≠ []) →
    loadConfig fs (Path.join ⟨.root, fs.here⟩ (.ofText configFileName)) = .ok config

theorem AtHand.tail {own : Option ProjectConfig} {config : ProjectConfig} {t : Target}
    (h : AtHand fs own config (t :: found)) : AtHand fs own config found :=
  ⟨h.kept, fun ⟨t, mem, faulty⟩ => h.loads ⟨t, List.mem_cons_of_mem _ mem, faulty⟩⟩

/-- Behind a target with diagnostics its settings are kept unless they are its own. -/
theorem AtHand.keep {own : Option ProjectConfig} {config : ProjectConfig} {t : Target}
    (h : AtHand fs own config found) :
    AtHand fs (if t.config.isSome then own else some (t.config.getD config)) config found := by
  refine ⟨fun loaded eq => ?_, h.loads⟩
  cases given : t.config with
  | some c =>
    rw [given] at eq
    exact h.kept loaded eq
  | none =>
    rw [given] at eq
    exact (Option.some.inj eq).symm

theorem configFor_run {own : Option ProjectConfig} {config : ProjectConfig} {t : Target}
    (h : AtHand s.files own config (t :: found)) (faulty : diagnosticsAt s.files t.path ≠ []) :
    configFor t own s = .ok (some (t.config.getD config)) s := by
  unfold configFor
  cases given : t.config with
  | some c => rfl
  | none =>
    cases known : own with
    | some loaded =>
      obtain rfl := h.kept loaded known
      rfl
    | none => exact loadProject_ok (h.loads ⟨t, List.mem_cons_self, given, faulty⟩)

/-- Every target adds its diagnostics to the total, and prints as many of them as its cap allows. -/
theorem checkTargets_run {own : Option ProjectConfig} {config : ProjectConfig} {total : Nat}
    {output : List String} {reports : List Report}
    (read : ∀ t ∈ found, ∃ text, fs.readText t.path = .ok text) (h : AtHand fs own config found) :
    checkTargets own total found ⟨fs, output, reports⟩ =
      .ok (some (total + totalErrors fs found)) ⟨fs, output, reports ++ found.flatMap fun t =>
        diagnosticReports t.path (diagnosticsAt fs t.path) (t.cap config)⟩ := by
  -- On the targets; once a diagnostic has asked for the settings, these stay at hand.
  induction found generalizing own total reports with
  | nil => simp [checkTargets, totalErrors, pure, EStateM.pure]
  | cons t rest ih =>
    obtain ⟨first, others⟩ := List.forall_mem_cons.1 read
    obtain ⟨result, parsed, diagnostics⟩ := parseFile_of_text first
    have sum : totalErrors fs (t :: rest) = result.errorCount + totalErrors fs rest := by
      rw [totalErrors, List.map_cons, List.sum_cons, ← diagnostics]
      rfl
    unfold checkTargets
    rw [bind_files, parsed, List.flatMap_cons, ← diagnostics]
    simp only
    split
    · next clean =>
      have none : result.diagnostics = [] := List.length_eq_zero_iff.1 clean
      rw [ih others h.tail, sum, clean, none]
      simp [diagnosticReports]
    · next faulty =>
      have some : diagnosticsAt fs t.path ≠ [] := by
        rw [← diagnostics]
        exact fun none => faulty (List.length_eq_zero_iff.2 none)
      rw [bind_ok (configFor_run (s := ⟨fs, output, reports⟩) h some)]
      simp only [bind_reportAll]
      rw [ih others h.tail.keep, sum, Nat.add_assoc, List.append_assoc]
      rfl

/-! ## Whole checks -/

/-- The lines on the output of a check. -/
def tally (count total : Nat) : List String :=
  if count = 0 then ["No IDL files found."]
  else s!"Checking {count} IDL file(s)..." :: if total = 0 then ["No issues found."] else []

theorem checkFound_run {config : ProjectConfig}
    (read : ∀ t ∈ found, ∃ text, fs.readText t.path = .ok text) (h : AtHand fs none config found) :
    checkFound (some found) ⟨fs, [], []⟩ = .ok (if totalErrors fs found = 0 then 0 else 1)
      ⟨fs, tally found.length (totalErrors fs found), (found.flatMap fun t =>
        diagnosticReports t.path (diagnosticsAt fs t.path) (t.cap config)) ++
          if totalErrors fs found = 0 then [] else [.totalErrors (totalErrors fs found)]⟩ := by
  cases found with
  | nil => rfl
  | cons t rest =>
    unfold checkFound
    simp only [bind_say]
    rw [bind_ok (checkTargets_run read h), Nat.zero_add]
    cases totalErrors fs (t :: rest) with
    | zero => simp [bind_say, tally, pure, EStateM.pure]
    | succ n => simp [bind_reportAll, tally, pure, EStateM.pure]

/-- What a check of readable targets leads to. -/
theorem check_sought {config : ProjectConfig} (sought : Sought fs paths found)
    (read : ∀ t ∈ found, ∃ text, fs.readText t.path = .ok text) (h : AtHand fs none config found) :
    ((check paths).outcome fs).ending = .ok (if totalErrors fs found = 0 then 0 else 1) ∧
      ((check paths).outcome fs).output = tally found.length (totalErrors fs found) ∧
      ((check paths).outcome fs).reports.map Report.text =
        found.flatMap (Target.lines fs config) ++
          if totalErrors fs found = 0 then [] else [s!"Found {totalErrors fs found} error(s)."] := by
  have run := checkFound_run read h
  have ended := (bind_ok (targets_sought (s := ⟨fs, [], []⟩) sought)).trans run
  rw [← check_eq] at ended
  unfold Command.outcome
  rw [ended]
  refine ⟨rfl, rfl, ?_⟩
  rw [List.map_append, List.map_flatMap]
  congr 1
  · simp only [text_diagnosticReports]
    rfl
  · split <;> rfl

end Command

end IdlFront
