import IdlFront.Proofs.Command.Green
import IdlFront.Proofs.Project.Failures

/-! # How checks and builds end

* `Outcome.Proper` — an exit code, and where it is one a last line that says why.
* `FileStore.Overburdens`, `ProjectConfig.Obstructed` — what checks and builds of a project meet that they are
  not prepared for.
* `Command.check_proper_iff`, `Command.build_proper_iff` — when checks and builds of a project with settings
  end properly.
* `endings` — with settings that can be loaded, commands end properly as long as sources can be searched for and
  nothing of the kind is met.
* `endings_broken` — they do not otherwise.
-/

namespace IdlFront

open FileStore

/-- The reports explain the exit code: there are none for zero, and for one the last of them is an error, or the
    number of diagnostics or of files with diagnostics. -/
def Explain (reports : List Report) (code : Nat) : Prop :=
  code = 0 ∧ reports = [] ∨ code = 1 ∧ ∃ last, reports.getLast? = some last ∧
    ((∃ e, last = .error e) ∨ ∃ n, 0 < n ∧ (last = .totalErrors n ∨ last = .failedFiles n))

/-- The run ends with an exit code that its reports explain. -/
def Outcome.Proper (o : Outcome) : Prop := ∃ code, o.ending = .ok code ∧ Explain o.reports code

section Limited

variable [Limits]

/-- When the turn of some source comes, its text is too much to be parsed. -/
def FileStore.Overburdens (fs : FileStore) (sources : List Path) : Prop :=
  ∃ before source after, sources = before ++ source :: after ∧
    (∀ p ∈ before, ∃ result, parseFile fs p = .ok result) ∧
    ∃ text, fs.readText source = .ok text ∧ Limits.source text = true

/-- A source of the project has a text that is too much, when the check comes to it. -/
def ProjectConfig.Overburdened (config : ProjectConfig) (fs : FileStore) (root : Path) : Prop :=
  ∃ sources, findSources fs config root = .ok sources ∧ fs.Overburdens sources

/-- A source of the project meets something that it is not prepared for, when the build comes to it. -/
def ProjectConfig.Obstructed (config : ProjectConfig) (fs : FileStore) (root : Path) : Prop :=
  ∃ sources, findSources fs config root = .ok sources ∧
    fs.Obstructs sources root (config.buildPlace root)

theorem overburdens_cons {fs : FileStore} {p : Path} {sources : List Path} : fs.Overburdens (p :: sources) ↔
    (∃ text, fs.readText p = .ok text ∧ Limits.source text = true) ∨
      (∃ result, parseFile fs p = .ok result) ∧ fs.Overburdens sources := by
  constructor
  · rintro ⟨before, source, after, split, parsed, deep⟩
    cases before with
    | nil =>
      cases split
      exact .inl deep
    | cons first before =>
      cases split
      obtain ⟨first, others⟩ := List.forall_mem_cons.1 parsed
      exact .inr ⟨first, before, source, after, rfl, others, deep⟩
  · rintro (deep | ⟨parsed, before, source, after, rfl, others, deep⟩)
    · exact ⟨[], p, sources, rfl, nofun, deep⟩
    · exact ⟨p :: before, source, after, rfl, List.forall_mem_cons.2 ⟨parsed, others⟩, deep⟩

/-! ## Runs -/

namespace Command

variable {c : Command Nat} {fs fs' : FileStore} {s s' : Session} {config : ProjectConfig}
  {directory root : Path} {sources : List Path}

omit [Limits] in
theorem proper_of_run {code : Nat} (run : c ⟨fs, [], []⟩ = .ok code s')
    (explained : Explain s'.reports code) : (c.outcome fs).Proper := by
  unfold outcome
  rw [run]
  exact ⟨code, rfl, explained⟩

omit [Limits] in
theorem not_proper_of_run {failure : CommandFailure} (run : c ⟨fs, [], []⟩ = .error failure s') :
    ¬ (c.outcome fs).Proper := by
  unfold outcome
  rw [run]
  rintro ⟨code, ended, -⟩
  cases ended

omit [Limits] in
theorem explain_error (reports : List Report) (e : CommandError) :
    Explain (reports ++ [.error e]) 1 :=
  .inr ⟨rfl, _, List.getLast?_concat, .inl ⟨e, rfl⟩⟩

/-- Targets with settings are counted until one cannot be read, which is reported, unless the text of one is too
    much. -/
theorem checkTargets_ends (own : Option ProjectConfig) (total : Nat) {found : List Target}
    (configured : ∀ t ∈ found, ∃ config, t.config = some config)
    (known : ∀ t ∈ found, s.files.refuses t.path = false) :
    (s.files.Overburdens (found.map Target.path) ∧
      ∃ failure s', checkTargets own total found s = .error failure s') ∨
    ¬ s.files.Overburdens (found.map Target.path) ∧
      ((∃ s' reports e, checkTargets own total found s = .ok none s' ∧ s'.reports = reports ++ [.error e]) ∨
        ∃ s' n, checkTargets own total found s = .ok (some (total + n)) s' ∧
          (n = 0 → s'.reports = s.reports)) := by
  -- On the targets: the first one stops the check, has no diagnostic, or is reported before the others.
  induction found generalizing s total own with
  | nil =>
    refine .inr ⟨?_, .inr ⟨s, 0, rfl, fun _ => rfl⟩⟩
    rintro ⟨before, source, after, split, -⟩
    simp at split
  | cons target rest ih =>
    obtain ⟨⟨config, given⟩, configured⟩ := List.forall_mem_cons.1 configured
    obtain ⟨first, known⟩ := List.forall_mem_cons.1 known
    have foreign := parseFile_foreign_iff first
    rw [List.map_cons, overburdens_cons, ← foreign]
    unfold checkTargets
    rw [bind_files]
    cases parseFile s.files target.path with
    | error failure =>
      cases failure with
      | error e => exact .inr ⟨by simp, .inl ⟨_, s.reports, .build e, rfl, rfl⟩⟩
      | artifactRefused e => exact .inl ⟨by simp, _, _, rfl⟩
      | breakdown b => exact .inl ⟨by simp, _, _, rfl⟩
    | ok result =>
      simp only [reduceCtorEq, false_and, exists_false, Except.ok.injEq, exists_eq', true_and, false_or]
      split
      · exact ih own total configured known
      · next faulty =>
        have loaded : configFor target own s = .ok (some config) s := by
          simp only [configFor, given]
          rfl
        rw [bind_ok loaded]
        simp only [bind_reportAll]
        obtain deep | ⟨fine, unread | ⟨s', n, run, -⟩⟩ :=
          ih (s := { s with reports := s.reports ++ _ }) _ (total + result.errorCount) configured known
        · exact .inl deep
        · exact .inr ⟨fine, .inl unread⟩
        · refine .inr ⟨fine, .inr ⟨s', result.errorCount + n, by rw [run, Nat.add_assoc], ?_⟩⟩
          omega

theorem checkFound_ends (found : List Target) (silent : s.reports = [])
    (configured : ∀ t ∈ found, ∃ config, t.config = some config)
    (known : ∀ t ∈ found, s.files.refuses t.path = false) :
    (s.files.Overburdens (found.map Target.path) ∧
      ∃ failure s', checkFound (some found) s = .error failure s') ∨
    ¬ s.files.Overburdens (found.map Target.path) ∧
      ∃ code s', checkFound (some found) s = .ok code s' ∧ Explain s'.reports code := by
  cases found with
  | nil =>
    refine .inr ⟨?_, 0, _, rfl, .inl ⟨rfl, silent⟩⟩
    rintro ⟨before, source, after, split, -⟩
    simp at split
  | cons target rest =>
    simp only [checkFound, bind_say]
    -- Checking the targets fails, finds one that cannot be read, or counts diagnostics.
    obtain ⟨deep, failure, s', run⟩ | ⟨fine, ⟨s', reports, e, run, reported⟩ | ⟨s', n, run, quiet⟩⟩ :=
      checkTargets_ends (s := { s with output := s.output ++ [_] }) none 0 configured known
    · exact .inl ⟨deep, failure, s', bind_error run⟩
    · rw [bind_ok run]
      exact .inr ⟨fine, 1, s', rfl, reported ▸ explain_error reports e⟩
    · rw [bind_ok run]
      cases n with
      | zero => exact .inr ⟨fine, 0, _, rfl, .inl ⟨rfl, (quiet rfl).trans silent⟩⟩
      | succ n =>
        refine .inr ⟨fine, 1, { s' with reports := s'.reports ++ [.totalErrors (n + 1)] }, ?_, ?_⟩
        · simp only [Nat.zero_add]
          rfl
        · exact .inr ⟨rfl, _, List.getLast?_concat, .inr ⟨n + 1, n.succ_pos, .inl rfl⟩⟩

theorem refuses_of_source (found : findSources fs config root = .ok sources) {p : Path} (mem : p ∈ sources) :
    fs.refuses p = false := by
  obtain ⟨file, -⟩ := selects_iff.1 ((mem_findSources found).1 mem).2
  obtain ⟨c, t, there⟩ := hasFile_iff.1 file
  exact refuses_of_find there

/-- A check that starts from the directory of a project ends properly just if its sources can be searched for and
    none of them is too much. -/
theorem check_proper_iff (paths : List String)
    (leads : (if paths.isEmpty then here >>= projectTargets else targets (paths.map Path.ofText))
      ⟨fs, [], []⟩ = projectTargets directory ⟨fs, [], []⟩)
    (loaded : loadConfig fs (directory.join (.ofText configFileName)) = .ok config) :
    ((check paths).outcome fs).Proper ↔
      config.Searchable fs directory ∧ ¬ config.Overburdened fs directory := by
  rw [← findSources_ok_iff]
  -- The check fails with the search for sources; else it goes over the targets of what was found.
  cases found : findSources fs config directory with
  | error e =>
    obtain ⟨failure, stopped⟩ := sourcesOf_error (s := ⟨fs, [], []⟩) found
    have run : check paths ⟨fs, [], []⟩ = .error failure ⟨fs, [], []⟩ := by
      rw [check_eq]
      apply bind_error
      rw [leads, projectTargets, bind_ok (loadProject_ok loaded)]
      exact bind_error stopped
    exact iff_of_false (not_proper_of_run run) (by simp)
  | ok sources =>
    have run : check paths ⟨fs, [], []⟩ =
        checkFound (some (sources.map fun source => ⟨source, some config⟩)) ⟨fs, [], []⟩ := by
      rw [check_eq, bind_ok (leads.trans (projectTargets_ok loaded found))]
    have ways : (sources.map fun source => (⟨source, some config⟩ : Target)).map Target.path = sources := by
      simp [Function.comp_def]
    have known : ∀ t ∈ sources.map fun source => (⟨source, some config⟩ : Target),
        fs.refuses t.path = false := by
      simpa using fun p mem => refuses_of_source found mem
    have overburdened : config.Overburdened fs directory ↔ fs.Overburdens sources := by
      simp [ProjectConfig.Overburdened, found]
    rw [overburdened]
    obtain ⟨deep, failure, s', stopped⟩ | ⟨fine, code, s', ended, explained⟩ :=
      checkFound_ends (s := ⟨fs, [], []⟩) _ rfl (by simp) known
    · rw [ways] at deep
      exact iff_of_false (not_proper_of_run (run.trans stopped)) fun proper => proper.2 deep
    · rw [ways] at fine
      exact iff_of_true (proper_of_run (run.trans ended) explained) ⟨⟨sources, rfl⟩, fine⟩

/-- A build of sources ends properly unless it fails with no error of its own. -/
theorem buildFound_ends (silent : s.reports = []) (fine : ∀ failure fs',
      buildFiles sources root (config.buildPlace root) s.files = .error failure fs' → ¬ failure.IsForeign) :
    ∃ code s', buildFound config root sources s = .ok code s' ∧ Explain s'.reports code := by
  unfold buildFound
  split
  · exact ⟨0, _, rfl, .inl ⟨rfl, silent⟩⟩
  · simp only [buildSources, bind_say]
    -- Foreign failures are excluded, so a failure has its own report and exit code.
    cases built : buildFiles sources root (config.buildPlace root) s.files with
    | error failure fs' =>
      rw [bind_changeFiles_error built]
      cases failure with
      | error e => exact ⟨1, _, rfl, explain_error s.reports (.build e)⟩
      | artifactRefused e => exact absurd BuildFailure.isForeign_artifactRefused (fine _ _ built)
      | breakdown b => exact absurd BuildFailure.isForeign_breakdown (fine _ _ built)
    | ok results fs' =>
      rw [bind_changeFiles_ok built]
      simp only [bind_reportAll]
      split
      · next none =>
        refine ⟨0, _, rfl, .inl ⟨rfl, ?_⟩⟩
        have reported : (failures results config.maxDiagnostics).1 = [] := by
          unfold failures at none ⊢
          rw [List.length_eq_zero_iff.1 none]
          rfl
        simp [silent, reported]
      · next some =>
        exact ⟨1, _, rfl, .inr ⟨rfl, _, List.getLast?_concat, .inr ⟨_, Nat.pos_of_ne_zero some, .inr rfl⟩⟩⟩

theorem buildFound_foreign {failure : BuildFailure} (foreign : failure.IsForeign)
    (stopped : buildFiles sources root (config.buildPlace root) s.files = .error failure fs') :
    ∃ failure s', buildFound config root sources s = .error failure s' := by
  cases sources with
  | nil => cases stopped
  | cons source sources =>
    rw [buildFound, List.isEmpty_cons, if_neg Bool.false_ne_true, buildSources]
    simp only [bind_say, bind_changeFiles_error stopped]
    cases failure with
    | error e => exact absurd foreign BuildFailure.not_isForeign_error
    | artifactRefused e => exact ⟨_, _, rfl⟩
    | breakdown b => exact ⟨_, _, rfl⟩

/-- A build ends properly if its directory can be named and, where there is one, sources can be searched for and
    none of them is obstructed. -/
theorem build_proper_iff {text : String} (resolved : root = (Path.ofText text).resolve fs.here)
    (loaded : loadConfig fs (root.join (.ofText configFileName)) = .ok config) :
    ((build text).outcome fs).Proper ↔
      fs.refuses (.ofText text) = false ∧ Limits.lookup fs root = false ∧
        (fs.hasDirectory root = true → config.Searchable fs root ∧ ¬ config.Obstructed fs root) := by
  rw [← findSources_ok_iff]
  -- Asked in turn: whether the directory can be named, is there, has sources that are found, and builds.
  by_cases names : Names fs text root
  · simp only [names.known, names.near, true_and]
    by_cases there : fs.hasDirectory root = true
    · simp only [there, true_implies]
      cases found : findSources fs config root with
      | error e =>
        obtain ⟨failure, stopped⟩ := sourcesOf_error (s := ⟨fs, [], []⟩) found
        have run : build text ⟨fs, [], []⟩ = .error failure ⟨fs, [], []⟩ := by
          rw [build_eq names, if_pos there, bind_ok (loadProject_ok loaded)]
          exact bind_error stopped
        exact iff_of_false (not_proper_of_run run) (by simp)
      | ok sources =>
        have run := build_of_found names there loaded found
        have obstructed : config.Obstructed fs root ↔ ∃ failure fs',
            buildFiles sources root (config.buildPlace root) fs = .error failure fs' ∧ failure.IsForeign := by
          rw [buildFiles_foreign_iff]
          simp [ProjectConfig.Obstructed, found]
        rw [obstructed]
        by_cases ends : ∃ failure fs',
            buildFiles sources root (config.buildPlace root) fs = .error failure fs' ∧ failure.IsForeign
        · obtain ⟨failure, fs', stopped, foreign⟩ := ends
          obtain ⟨failure', s', broken⟩ := buildFound_foreign (s := ⟨fs, [], []⟩) foreign stopped
          exact iff_of_false (not_proper_of_run (run.trans broken))
            fun proper => proper.2 ⟨failure, fs', stopped, foreign⟩
        · have fine : ∀ failure fs', buildFiles sources root (config.buildPlace root) fs =
              .error failure fs' → ¬ failure.IsForeign := fun failure fs' stopped foreign =>
            ends ⟨failure, fs', stopped, foreign⟩
          obtain ⟨code, s', ended, explained⟩ := buildFound_ends (s := ⟨fs, [], []⟩) rfl fine
          exact iff_of_true (proper_of_run (run.trans ended) explained) ⟨⟨sources, rfl⟩, ends⟩
    · have run : build text ⟨fs, [], []⟩ = .ok 1 ⟨fs, [], [.error (.noSuchDirectory root)]⟩ := by
        rw [build_eq names, if_neg there]
        rfl
      exact iff_of_true (proper_of_run run (explain_error [] _)) fun there' => absurd there' there
  · obtain ⟨failure, run⟩ := build_unnamed resolved names
    exact iff_of_false (not_proper_of_run run) fun proper => names ⟨resolved, proper.1, proper.2.1⟩

end Command

/-- Let the settings of a project be loaded, on a platform with whatever limits. Its sources are found just if
    they can be searched for; then checks of it, by its directory or from within it, end with an exit code that
    their reports explain if no source is too much, and builds do if no source meets what it is not prepared for.
    Otherwise none of them does. -/
theorem endings (fs : FileStore) (config : ProjectConfig) :
    (∀ root, (∃ sources, findSources fs config root = .ok sources) ↔ config.Searchable fs root) ∧
    (∀ text, fs.hasDirectory (.ofText text) = true →
      loadConfig fs ((Path.ofText text).join (.ofText configFileName)) = .ok config →
      (((Request.check [text]).run.outcome fs).Proper ↔ Limits.lookup fs (.ofText text) = false ∧
        config.Searchable fs (.ofText text) ∧ ¬ config.Overburdened fs (.ofText text))) ∧
    (loadConfig fs (Path.join ⟨.root, fs.here⟩ (.ofText configFileName)) = .ok config →
      (((Request.check []).run.outcome fs).Proper ↔
        config.Searchable fs ⟨.root, fs.here⟩ ∧ ¬ config.Overburdened fs ⟨.root, fs.here⟩)) ∧
    ∀ text root, root = (Path.ofText text).resolve fs.here →
      loadConfig fs (root.join (.ofText configFileName)) = .ok config →
      (((Request.build text).run.outcome fs).Proper ↔
        fs.refuses (.ofText text) = false ∧ Limits.lookup fs root = false ∧
          (fs.hasDirectory root = true → config.Searchable fs root ∧ ¬ config.Obstructed fs root)) := by
  refine ⟨fun root => findSources_ok_iff, ?_, ?_, ?_⟩
  · intro text there loaded
    cases near : Limits.lookup fs (.ofText text) with
    | true =>
      have run : Command.check [text] ⟨fs, [], []⟩ = .error (.breakdown .limit) ⟨fs, [], []⟩ := by
        rw [Command.check_eq]
        exact Command.bind_error (Command.bind_error (Command.lookUp_error near))
      exact iff_of_false (Command.not_proper_of_run run) nofun
    | false =>
      rw [eq_self, true_and]
      exact Command.check_proper_iff [text] (Command.targets_directory near there) loaded
  · intro loaded
    exact Command.check_proper_iff [] rfl loaded
  · intro text root resolved loaded
    exact Command.build_proper_iff resolved loaded

end Limited

theorem searchable_sole {root : Path} (there : (soleStore []).hasDirectory root = true) :
    ProjectConfig.standard.Searchable (soleStore []) root where
  resolvable := (ProjectConfig.isUnresolvable_of_hasDirectory there).trans (by decide)
  readable := by
    intro pattern mem
    rw [List.mem_singleton.1 mem]
    exact ⟨by decide, by decide, by decide, by decide⟩
  within := rfl

/-- Without limits no text is too much. -/
theorem not_overburdened {fs : FileStore} {config : ProjectConfig} {root : Path} :
    ¬ config.Overburdened fs root := by
  rintro ⟨_, -, _, _, _, -, -, _, -, deep⟩
  cases deep

theorem endings_sole : ((Request.check ["."]).run.outcome (soleStore [])).Proper ∧
    ((Request.check []).run.outcome (soleStore [])).Proper ∧
    ((Request.build ".").run.outcome (soleStore [])).Proper := by
  obtain ⟨-, checked, checkedHere, built⟩ := endings (soleStore []) .standard
  have free : ¬ ProjectConfig.standard.Obstructed (soleStore []) ⟨.root, []⟩ := by
    rintro ⟨sources, found, before, source, after, rfl, results, fs', a, run, placed, hinders⟩
    rw [findSources_soleStore] at found
    -- The only source comes first, when nothing has been built yet.
    obtain ⟨rfl, rfl, -⟩ : before = [] ∧ source = ⟨.root, ["s.idl"]⟩ ∧ after = [] := by
      cases before with
      | nil => simpa [eq_comm] using found
      | cons first before => simp at found
    cases run
    cases placed_sole.symm.trans placed
    cases hinders with
    | lookup long => cases long
    | directory blocks =>
      obtain ⟨m, t, -, directory, -⟩ := blocks
      cases directory
    | artifact newer read deep => cases deep
    | source anew read deep => cases deep
    | place anew parsed null => cases null
    | tree anew parsed made deep => cases deep
  exact ⟨(checked "." rfl rfl).2 ⟨rfl, searchable_sole rfl, not_overburdened⟩,
    (checkedHere rfl).2 ⟨searchable_sole rfl, not_overburdened⟩,
    (built "." _ rfl rfl).2 ⟨rfl, rfl, fun _ => ⟨searchable_sole rfl, free⟩⟩⟩

/-- A project with settings in which the only pattern is the empty text. -/
def emptyPatternStore : FileStore :=
  ⟨[([".xidl.yaml"], .file (Text.Utf8.encode "sources: [\"\"]".toList) 0)], [], 1⟩

/-- A project with settings in which there is a null character in the name of the build directory. -/
def nullPlaceStore : FileStore :=
  ⟨[([".xidl.yaml"], .file (Text.Utf8.encode "build-directory: \"a\\0b\"".toList) 0)], [], 1⟩

/-- Settings can be loaded and yet no command ends properly. -/
theorem endings_broken :
    (loadConfig emptyPatternStore ⟨.root, [".xidl.yaml"]⟩ = .ok ⟨[""], [], ".xidl-build", 0⟩ ∧
      ((Request.check []).run.outcome emptyPatternStore).ending = .error (.pattern .empty) ∧
      ((Request.build ".").run.outcome emptyPatternStore).ending = .error (.pattern .empty)) ∧
    (loadConfig nullPlaceStore ⟨.root, [".xidl.yaml"]⟩ = .ok ⟨["**/*.idl"], [], "a\x00b", 0⟩ ∧
      ((Request.check []).run.outcome nullPlaceStore).ending = .error (.breakdown .nullCharacter) ∧
      ((Request.build ".").run.outcome nullPlaceStore).ending = .error (.breakdown .nullCharacter)) ∧
    loadConfig blockedStore ⟨.root, [".xidl.yaml"]⟩ = .ok .standard ∧
      ((Request.build ".").run.outcome blockedStore).ending =
        .error (.refused ⟨.isDirectory, ⟨.root, [".xidl-build", "s.xidl.json"]⟩⟩) := by
  refine ⟨⟨by decide +kernel, by decide +kernel, by decide +kernel⟩,
    ⟨by decide +kernel, by decide +kernel, by decide +kernel⟩, rfl, by decide +kernel⟩

end IdlFront
