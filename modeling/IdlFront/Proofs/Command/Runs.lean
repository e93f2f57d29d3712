import IdlFront.Command
import IdlFront.Proofs.Files.Growth

/-! # What runs lead to

* `Command.Quiet` — the command leaves all files as they are. Checking does.
* `Command.check_of_clean`, `Command.check_here_of_clean` — a project without diagnostics is checked
  without reports.
* `Command.dump_files` — a dump writes the tree of its source, and nothing else.
* `Command.build_cases` — a build either stops before it touches files, or is a build of the sources of the
  project; it succeeds just if none of them has a diagnostic.
-/

namespace IdlFront

open FileStore

namespace Command

variable {α β : Type} {fs fs' : FileStore} {s s' : Session}

theorem bind_ok {x : Command α} {f : α → Command β} {a : α} (h : x s = .ok a s') :
    (x >>= f) s = f a s' := by
  simp only [bind, EStateM.bind, h]

theorem bind_error {x : Command α} {f : α → Command β} {e : CommandFailure} (h : x s = .error e s') :
    (x >>= f) s = .error e s' := by
  simp only [bind, EStateM.bind, h]

theorem bind_files {f : FileStore → Command β} : (files >>= f) s = f s.files s := rfl

theorem bind_say {line : String} {f : Unit → Command β} :
    (say line >>= f) s = f () { s with output := s.output ++ [line] } := rfl

theorem bind_reportAll {reports : List Report} {f : Unit → Command β} :
    (reportAll reports >>= f) s = f () { s with reports := s.reports ++ reports } := rfl

theorem bind_changeFiles_ok {ε : Type} {action : EStateM ε FileStore α} {f : Except ε α → Command β} {a : α}
    {output : List String} {reports : List Report} (run : action fs = .ok a fs') :
    (changeFiles action >>= f) ⟨fs, output, reports⟩ = f (.ok a) ⟨fs', output, reports⟩ := by
  simp only [bind, EStateM.bind, changeFiles, run]

theorem bind_changeFiles_error {ε : Type} {action : EStateM ε FileStore α} {f : Except ε α → Command β} {e : ε}
    {output : List String} {reports : List Report} (run : action fs = .error e fs') :
    (changeFiles action >>= f) ⟨fs, output, reports⟩ = f (.error e) ⟨fs', output, reports⟩ := by
  simp only [bind, EStateM.bind, changeFiles, run]

/-! ## Files after commands -/

/-- The files that a command leaves, whatever it ends with. -/
def leaves (c : Command α) (s : Session) : FileStore :=
  match c s with
  | .ok _ s' => s'.files
  | .error _ s' => s'.files

theorem leaves_bind {x : Command α} {f : α → Command β} {a : α} (h : x s = .ok a s') :
    leaves (x >>= f) s = leaves (f a) s' := by
  unfold leaves
  rw [bind_ok h]

theorem files_outcome (c : Command Nat) (fs : FileStore) :
    (c.outcome fs).files = leaves c ⟨fs, [], []⟩ := by
  unfold Command.outcome leaves
  cases c ⟨fs, [], []⟩ with
  | ok code s => rfl
  | error e s => rfl

/-- The command leaves all files as they are. -/
def Quiet (c : Command α) : Prop := ∀ s, leaves c s = s.files

theorem quiet_pure (a : α) : Quiet (pure a) := fun _ => rfl

theorem quiet_throw (e : CommandFailure) : Quiet (throw e : Command α) := fun _ => rfl

theorem quiet_files : Quiet files := fun _ => rfl

theorem quiet_say (line : String) : Quiet (say line) := fun _ => rfl

theorem quiet_reportAll (reports : List Report) : Quiet (reportAll reports) := fun _ => rfl

theorem Quiet.bind {x : Command α} {f : α → Command β} (first : Quiet x) (next : ∀ a, Quiet (f a)) :
    Quiet (x >>= f) := by
  intro s
  have same := first s
  unfold leaves at same
  cases run : x s with
  | error e s' =>
    rw [run] at same
    unfold leaves
    rw [bind_error run]
    exact same
  | ok a s' =>
    rw [run] at same
    rw [leaves_bind run]
    exact (next a s').trans same

theorem quiet_here : Quiet here := quiet_files.bind fun _ => quiet_pure _

theorem quiet_buildError (failure : BuildFailure) : Quiet (buildError failure) := by
  cases failure with
  | error e => exact quiet_pure _
  | artifactRefused e => exact quiet_throw _
  | breakdown b => exact quiet_throw _

theorem quiet_fail (e : CommandError) : Quiet (fail e) := (quiet_reportAll _).bind fun _ => quiet_pure _

/-- The files that an action changes are what is left, also where it is refused. -/
theorem changeFiles_leaves {ε : Type} {action : EStateM ε FileStore α} {f : Except ε α → Command β}
    (next : ∀ result, Quiet (f result)) :
    leaves (changeFiles action >>= f) s = stateAfter action s.files := by
  cases run : action s.files with
  | ok a fs =>
    unfold leaves
    rw [bind_changeFiles_ok run, stateAfter_ok run]
    exact next _ _
  | error e fs =>
    unfold leaves
    rw [bind_changeFiles_error run, stateAfter_error run]
    exact next _ _

variable [Limits]

theorem bind_lookUp {p : Path} {f : Unit → Command β} (known : Limits.lookup s.files p = false) :
    (lookUp p >>= f) s = f () s := by
  apply bind_ok
  unfold lookUp
  rw [bind_files, known]
  rfl

theorem lookUp_error {p : Path} {f : Unit → Command β} (long : Limits.lookup s.files p = true) :
    (lookUp p >>= f) s = .error (.breakdown .limit) s := by
  apply bind_error
  unfold lookUp
  rw [bind_files, long]
  rfl

theorem quiet_lookUp (p : Path) : Quiet (lookUp p) := by
  apply quiet_files.bind
  intro fs
  split
  · exact quiet_throw _
  · exact quiet_pure _

theorem quiet_loadProject (directory : Path) : Quiet (loadProject directory) := by
  apply quiet_files.bind
  intro fs
  split
  · exact quiet_pure _
  · exact (quiet_reportAll _).bind fun _ => quiet_pure _
  · exact quiet_throw _
  · exact quiet_throw _
  · exact quiet_throw _

theorem quiet_configFor (target : Target) (own : Option ProjectConfig) :
    Quiet (configFor target own) := by
  unfold configFor
  split
  · exact quiet_pure _
  · exact quiet_pure _
  · exact quiet_here.bind fun _ => quiet_loadProject _

theorem loadProject_ok {config : ProjectConfig} {directory : Path}
    (loaded : loadConfig s.files (directory.join (.ofText configFileName)) = .ok config) :
    loadProject directory s = .ok (some config) s := by
  show (files >>= _) s = _
  rw [bind_files, loaded]
  rfl

theorem loadProject_error {directory : Path} {e : LoadError}
    (refused : loadConfig s.files (directory.join (.ofText configFileName)) = .error e) :
    (∃ report, loadProject directory s = .ok none { s with reports := s.reports ++ [report] }) ∨
      ∃ failure, loadProject directory s = .error failure s := by
  unfold loadProject
  rw [bind_files, refused]
  cases e with
  | config e => exact .inl ⟨_, rfl⟩
  | notUtf8 e => exact .inr ⟨_, rfl⟩
  | foreign cause => exact .inr ⟨_, rfl⟩
  | breakdown b => exact .inr ⟨_, rfl⟩

theorem quiet_help (interface : Interface) : Quiet (Request.help interface).run := by
  have quiet_forM : ∀ lines : List String, Quiet (lines.forM say) := by
    intro lines
    induction lines with
    | nil => exact quiet_pure _
    | cons line lines ih => exact (quiet_say line).bind fun _ => ih
  exact (quiet_forM interface.help).bind fun _ => quiet_pure _

theorem quiet_sourcesOf (config : ProjectConfig) (directory : Path) :
    Quiet (sourcesOf config directory) := by
  apply quiet_files.bind
  intro fs
  split
  · exact quiet_pure _
  · exact quiet_throw _
  · exact quiet_throw _

theorem quiet_projectTargets (directory : Path) : Quiet (projectTargets directory) := by
  apply (quiet_loadProject directory).bind
  intro loaded
  cases loaded with
  | none => exact quiet_pure _
  | some config => exact (quiet_sourcesOf config directory).bind fun _ => quiet_pure _

theorem quiet_targetsAt (path : Path) : Quiet (targetsAt path) := by
  apply (quiet_lookUp path).bind
  intro _
  apply quiet_files.bind
  intro fs
  split
  · exact quiet_projectTargets path
  · split
    · exact quiet_pure _
    · exact (quiet_reportAll _).bind fun _ => quiet_pure _

theorem quiet_targets (paths : List Path) : Quiet (targets paths) := by
  induction paths with
  | nil => exact quiet_pure _
  | cons path paths ih =>
    apply (quiet_targetsAt path).bind
    intro found
    cases found with
    | none => exact quiet_pure _
    | some found =>
      apply ih.bind
      intro more
      cases more with
      | none => exact quiet_pure _
      | some more => exact quiet_pure _

theorem quiet_checkTargets (own : Option ProjectConfig) (total : Nat) (found : List Target) :
    Quiet (checkTargets own total found) := by
  induction found generalizing own total with
  | nil => exact quiet_pure _
  | cons target rest ih =>
    apply quiet_files.bind
    intro fs
    split
    · apply (quiet_buildError _).bind
      intro e
      exact (quiet_reportAll _).bind fun _ => quiet_pure _
    · split
      · exact ih _ _
      · apply (quiet_configFor target own).bind
        intro config
        cases config with
        | none => exact quiet_pure _
        | some config => exact (quiet_reportAll _).bind fun _ => ih _ _

/-- What checking does with the targets it has found. -/
def checkFound : Option (List Target) → Command Nat
  | none => return 1
  | some [] => do
    say "No IDL files found."
    return 0
  | some found => do
    say s!"Checking {found.length} IDL file(s)..."
    match ← checkTargets none 0 found with
    | none => return 1
    | some 0 =>
      say "No issues found."
      return 0
    | some total =>
      reportAll [.totalErrors total]
      return 1

theorem check_eq (paths : List String) : check paths =
    (if paths.isEmpty then here >>= projectTargets else targets (paths.map Path.ofText)) >>= checkFound := by
  unfold check
  split
  · rw [bind_assoc]
    rfl
  · rfl

theorem quiet_checkFound (found : Option (List Target)) : Quiet (checkFound found) := by
  unfold checkFound
  split
  · exact quiet_pure _
  · exact (quiet_say _).bind fun _ => quiet_pure _
  · apply (quiet_say _).bind
    intro _
    apply (quiet_checkTargets _ _ _).bind
    intro total
    split
    · exact quiet_pure _
    · exact (quiet_say _).bind fun _ => quiet_pure _
    · exact (quiet_reportAll _).bind fun _ => quiet_pure _

theorem quiet_check (paths : List String) : Quiet (check paths) := by
  rw [check_eq]
  apply Quiet.bind
  · split
    · exact quiet_here.bind quiet_projectTargets
    · exact quiet_targets _
  · exact quiet_checkFound

/-! ## Checks without reports -/

section Clean

variable {config : ProjectConfig} {directory : Path} {sources : List Path} {targets : List Target}

theorem sourcesOf_ok (found : findSources s.files config directory = .ok sources) :
    sourcesOf config directory s = .ok sources s := by
  show (files >>= _) s = _
  rw [bind_files, found]
  rfl

theorem sourcesOf_error {e : SourcesError} (unfound : findSources s.files config directory = .error e) :
    ∃ failure, sourcesOf config directory s = .error failure s := by
  unfold sourcesOf
  rw [bind_files, unfound]
  cases e with
  | pattern e => exact ⟨_, rfl⟩
  | breakdown b => exact ⟨_, rfl⟩

theorem projectTargets_ok
    (loaded : loadConfig s.files (directory.join (.ofText configFileName)) = .ok config)
    (found : findSources s.files config directory = .ok sources) :
    projectTargets directory s = .ok (some (sources.map fun source => ⟨source, some config⟩)) s := by
  unfold projectTargets
  rw [bind_ok (loadProject_ok loaded)]
  show (sourcesOf config directory >>= _) s = _
  rw [bind_ok (sourcesOf_ok found)]
  rfl

/-- To name a directory is to name the project in it. -/
theorem targets_directory (known : Limits.lookup s.files directory = false)
    (there : s.files.hasDirectory directory = true) :
    Command.targets [directory] s = projectTargets directory s := by
  have one : targetsAt directory s = projectTargets directory s := by
    simp only [targetsAt, bind_lookUp known, bind_files, there, if_true]
  unfold Command.targets
  cases run : projectTargets directory s with
  | error e s' => rw [bind_error (one.trans run)]
  | ok found s' =>
    rw [bind_ok (one.trans run)]
    cases found with
    | none => rfl
    | some found => simp [Command.targets, pure, EStateM.pure, bind, EStateM.bind]

theorem checkTargets_clean {own : Option ProjectConfig} {total : Nat}
    (clean : ∀ t ∈ targets, ∃ tree, parseFile s.files t.path = .ok ⟨tree, []⟩) :
    checkTargets own total targets s = .ok (some total) s := by
  induction targets with
  | nil => rfl
  | cons target rest ih =>
    obtain ⟨⟨tree, parsed⟩, others⟩ := List.forall_mem_cons.1 clean
    show (files >>= _) s = _
    rw [bind_files, parsed]
    exact ih others

theorem checkFound_clean
    (clean : ∀ t ∈ targets, ∃ tree, parseFile s.files t.path = .ok ⟨tree, []⟩) :
    ∃ s', checkFound (some targets) s = .ok 0 s' ∧ s'.reports = s.reports := by
  cases targets with
  | nil => exact ⟨_, rfl, rfl⟩
  | cons target rest =>
    have counted : ∀ line, checkTargets none 0 (target :: rest) { s with output := s.output ++ [line] } =
        .ok (some 0) { s with output := s.output ++ [line] } := fun _ => checkTargets_clean clean
    simp only [checkFound, bind_say, bind_ok (counted _)]
    exact ⟨_, rfl, rfl⟩

/-- Targets of projects that can be read are all counted. -/
theorem checkTargets_count {own : Option ProjectConfig} {total : Nat}
    (read : ∀ t ∈ targets, (∃ config, t.config = some config) ∧ ∃ r, parseFile s.files t.path = .ok r) :
    ∃ count s', checkTargets own total targets s = .ok (some (total + count)) s' ∧
      ∀ t ∈ targets, ∀ r, parseFile s.files t.path = .ok r → r.errorCount ≤ count := by
  -- On the targets: one without diagnostics leaves the total as it is, another one adds its own number.
  induction targets generalizing s total own with
  | nil => exact ⟨0, s, rfl, nofun⟩
  | cons target rest ih =>
    obtain ⟨⟨⟨config, given⟩, result, parsed⟩, others⟩ := List.forall_mem_cons.1 read
    unfold checkTargets
    rw [bind_files, parsed]
    simp only
    split
    · next clean =>
      obtain ⟨count, s', run, counted⟩ := ih others
      refine ⟨count, s', run, List.forall_mem_cons.2 ⟨?_, counted⟩⟩
      intro r again
      cases parsed.symm.trans again
      omega
    · have configured : configFor target own s = .ok (some config) s := by
        simp only [configFor, given]
        rfl
      rw [bind_ok configured]
      simp only [bind_reportAll]
      have next : ∀ own reports, ∃ count s', checkTargets own (total + result.errorCount) rest
          { s with reports := reports } = .ok (some (total + result.errorCount + count)) s' ∧
            ∀ t ∈ rest, ∀ r, parseFile s.files t.path = .ok r → r.errorCount ≤ count :=
        fun _ _ => ih others
      obtain ⟨count, s', run, counted⟩ := next _ _
      rw [Nat.add_assoc] at run
      refine ⟨result.errorCount + count, s', run, List.forall_mem_cons.2 ⟨?_, ?_⟩⟩
      · intro r again
        cases parsed.symm.trans again
        omega
      · intro t mem r again
        have := counted t mem r again
        omega

/-- A check of targets that can be read fails if one of them has a diagnostic. -/
theorem checkFound_faulty {t : Target} {result : ParseResult}
    (read : ∀ t ∈ targets, (∃ config, t.config = some config) ∧ ∃ r, parseFile s.files t.path = .ok r)
    (mem : t ∈ targets) (parsed : parseFile s.files t.path = .ok result)
    (faulty : result.errorCount ≠ 0) : ∃ s', checkFound (some targets) s = .ok 1 s' := by
  cases targets with
  | nil => cases mem
  | cons target rest =>
    have counts : ∀ line, ∃ count s', checkTargets none 0 (target :: rest)
        { s with output := s.output ++ [line] } = .ok (some (0 + count)) s' ∧
          ∀ t ∈ target :: rest, ∀ r, parseFile s.files t.path = .ok r → r.errorCount ≤ count :=
      fun line => checkTargets_count read
    simp only [checkFound, bind_say]
    obtain ⟨count, s', run, counted⟩ := counts _
    have some := counted t mem result parsed
    rw [bind_ok run]
    cases count with
    | zero => omega
    | succ count =>
      rw [Nat.zero_add]
      exact ⟨_, rfl⟩

theorem check_of_targets {paths : List String}
    (found : (if paths.isEmpty then here >>= projectTargets else Command.targets (paths.map Path.ofText))
      ⟨fs, [], []⟩ = .ok (some targets) ⟨fs, [], []⟩)
    (clean : ∀ t ∈ targets, ∃ tree, parseFile fs t.path = .ok ⟨tree, []⟩) :
    ((check paths).outcome fs).ending = .ok 0 ∧ ((check paths).outcome fs).reports = [] := by
  obtain ⟨s', run, silent⟩ := checkFound_clean (s := ⟨fs, [], []⟩) clean
  have ended : check paths ⟨fs, [], []⟩ = .ok 0 s' := by rw [check_eq, bind_ok found, run]
  unfold Command.outcome
  rw [ended]
  exact ⟨rfl, silent⟩

variable (loaded : loadConfig fs (directory.join (.ofText configFileName)) = .ok config)
  (found : findSources fs config directory = .ok sources)
  (clean : ∀ p ∈ sources, ∃ tree, parseFile fs p = .ok ⟨tree, []⟩)

include loaded found

theorem targets_of_directory (near : Limits.lookup fs directory = false)
    (there : fs.hasDirectory directory = true) :
    Command.targets [directory] ⟨fs, [], []⟩ =
      .ok (some (sources.map fun source => ⟨source, some config⟩)) ⟨fs, [], []⟩ := by
  rw [targets_directory near there]
  exact projectTargets_ok loaded found

/-- Checking a project fails if a source has a diagnostic and all can be read. -/
theorem check_of_faulty {text : String} {p : Path} {result : ParseResult}
    (named : directory = .ofText text) (near : Limits.lookup fs directory = false)
    (there : fs.hasDirectory directory = true)
    (read : ∀ p ∈ sources, ∃ r, parseFile fs p = .ok r) (mem : p ∈ sources)
    (parsed : parseFile fs p = .ok result) (faulty : result.errorCount ≠ 0) :
    ((check [text]).outcome fs).ending = .ok 1 := by
  have target : (⟨p, some config⟩ : Target) ∈ sources.map fun source => ⟨source, some config⟩ :=
    List.mem_map_of_mem mem
  have all : ∀ t ∈ sources.map fun source => (⟨source, some config⟩ : Target),
      (∃ config, t.config = some config) ∧ ∃ r, parseFile fs t.path = .ok r := by
    simpa using read
  obtain ⟨s', run⟩ := checkFound_faulty (s := ⟨fs, [], []⟩) all target parsed faulty
  have ended : check [text] ⟨fs, [], []⟩ = .ok 1 s' := by
    rw [check_eq, if_neg (by simp), List.map_singleton, ← named,
      bind_ok (targets_of_directory loaded found near there), run]
  unfold Command.outcome
  rw [ended]

include clean

/-- Checking a project without diagnostics reports nothing. -/
theorem check_of_clean {text : String} (named : directory = .ofText text)
    (near : Limits.lookup fs directory = false) (there : fs.hasDirectory directory = true) :
    ((check [text]).outcome fs).ending = .ok 0 ∧ ((check [text]).outcome fs).reports = [] := by
  apply check_of_targets
  · rw [if_neg (by simp), List.map_singleton, ← named]
    exact targets_of_directory loaded found near there
  · simpa using clean

theorem check_here_of_clean (named : directory = ⟨.root, fs.here⟩) :
    ((check []).outcome fs).ending = .ok 0 ∧ ((check []).outcome fs).reports = [] := by
  have project := projectTargets_ok (s := ⟨fs, [], []⟩) loaded found
  apply check_of_targets
  · have this : here ⟨fs, [], []⟩ = .ok directory ⟨fs, [], []⟩ := by rw [named]; rfl
    show (here >>= projectTargets) ⟨fs, [], []⟩ = _
    rw [bind_ok this, project]
  · simpa using clean

end Clean

/-! ## Dumps -/

/-- The tree is written whether or not there are diagnostics. -/
theorem dump_files_of_parsed {source text : String} {result : ParseResult} (nonempty : text ≠ "")
    (parsed : parseFile fs (.ofText source) = .ok result) :
    ((dump source (some text)).outcome fs).files =
      stateAfter (writeArtifact result.tree (.ofText text)) fs := by
  rw [files_outcome]
  unfold dump
  rw [leaves_bind (show files ⟨fs, [], []⟩ = .ok fs ⟨fs, [], []⟩ from rfl)]
  simp only [parsed]
  rw [leaves_bind (show reportAll _ ⟨fs, [], []⟩ = .ok () ⟨fs, [], _⟩ from rfl)]
  simp only [Option.getD_some, writeOutput, bind_assoc]
  -- Behind the write nothing but printing is left.
  apply changeFiles_leaves
  intro written
  apply Quiet.bind
  · split
    · exact quiet_pure _
    · exact quiet_pure _
    · exact quiet_throw _
  · intro failed
    cases failed with
    | some e => exact quiet_fail e
    | none => exact (quiet_say _).bind fun _ => quiet_pure _

/-- A dump changes nothing but the file that is named for the tree, and the directories on the way to it. -/
theorem dump_files (source : String) (output : Option String) (fs : FileStore) :
    ((dump source output).outcome fs).files = fs ∨
      ∃ text result, output = some text ∧ text ≠ "" ∧ parseFile fs (.ofText source) = .ok result ∧
        ((dump source output).outcome fs).files =
          stateAfter (writeArtifact result.tree (.ofText text)) fs := by
  cases parsed : parseFile fs (.ofText source) with
  | error e =>
    left
    rw [files_outcome]
    unfold dump
    rw [leaves_bind (show files ⟨fs, [], []⟩ = .ok fs ⟨fs, [], []⟩ from rfl)]
    simp only [parsed]
    exact (quiet_buildError e).bind quiet_fail _
  | ok result =>
    by_cases given : output.getD "" = ""
    · left
      rw [files_outcome]
      unfold dump
      rw [leaves_bind (show files ⟨fs, [], []⟩ = .ok fs ⟨fs, [], []⟩ from rfl)]
      simp only [parsed, given]
      rw [leaves_bind (show reportAll _ ⟨fs, [], []⟩ = .ok () ⟨fs, [], _⟩ from rfl)]
      split
      · exact quiet_throw _ _
      · exact (quiet_say _).bind (fun _ => quiet_pure _) _
    · right
      cases output with
      | none => exact absurd rfl given
      | some text => exact ⟨text, result, rfl, given, rfl, dump_files_of_parsed given parsed⟩

/-! ## Builds -/

section Builds

variable {config : ProjectConfig} {root : Path} {sources : List Path}

theorem buildSources_leaves : leaves (buildSources config root sources) s =
    stateAfter (buildFiles sources root (config.buildPlace root)) s.files := by
  unfold buildSources
  simp only
  rw [leaves_bind (show say _ s = .ok () _ from rfl)]
  apply changeFiles_leaves
  intro built
  split
  · exact (quiet_buildError _).bind quiet_fail
  · apply (quiet_reportAll _).bind
    intro _
    split
    · exact (quiet_say _).bind fun _ => quiet_pure _
    · exact (quiet_reportAll _).bind fun _ => quiet_pure _

omit [Limits] in
theorem failures_eq_zero {results : FileResults} {cap : Nat} (none : (failures results cap).2 = 0) :
    ∀ r ∈ results, r.2.errorCount = 0 := by
  intro r mem
  have empty : results.filter (fun r => r.2.errorCount ≠ 0) = [] := List.length_eq_zero_iff.1 none
  simpa using List.filter_eq_nil_iff.1 empty r mem

/-- A build of sources succeeds just if there is no diagnostic. -/
theorem buildSources_ok (run : buildSources config root sources s = .ok 0 s') : ∃ results fs',
    buildFiles sources root (config.buildPlace root) s.files = .ok results fs' ∧
      ∀ r ∈ results, r.2.errorCount = 0 := by
  simp only [buildSources, bind_say] at run
  cases built : buildFiles sources root (config.buildPlace root) s.files with
  | error e fs' =>
    rw [bind_changeFiles_error built] at run
    cases e with
    | error e => cases run
    | artifactRefused e => cases run
    | breakdown b => cases run
  | ok results fs' =>
    rw [bind_changeFiles_ok built] at run
    refine ⟨results, fs', rfl, ?_⟩
    simp only [bind_reportAll] at run
    split at run
    · next none => exact failures_eq_zero none
    · cases run

theorem buildSources_of_clean {results : FileResults}
    (run : buildFiles sources root (config.buildPlace root) s.files = .ok results fs')
    (clean : ∀ r ∈ results, r.2.errorCount = 0) :
    ∃ s', buildSources config root sources s = .ok 0 s' ∧ s'.files = fs' := by
  have none : (failures results config.maxDiagnostics).2 = 0 := by
    simpa [failures] using fun p r mem => clean (p, r) mem
  simp only [buildSources, bind_say, bind_changeFiles_ok run, bind_reportAll, none, if_true]
  exact ⟨_, rfl, rfl⟩

/-- The text names a directory, and the platform can be asked about it. -/
structure Names (fs : FileStore) (text : String) (root : Path) : Prop where
  resolved : root = (Path.ofText text).resolve fs.here
  known : fs.refuses (.ofText text) = false
  near : Limits.lookup fs root = false

theorem build_eq {text : String} (names : Names fs text root) :
    build text ⟨fs, [], []⟩ = (if fs.hasDirectory root then do
      match ← loadProject root with
      | none => return 1
      | some config =>
        match ← sourcesOf config root with
        | [] =>
          say "No IDL files found."
          return 0
        | sources => buildSources config root sources
    else fail (.noSuchDirectory root)) ⟨fs, [], []⟩ := by
  unfold build
  rw [bind_files]
  simp only [names.known, ← names.resolved]
  exact bind_lookUp names.near

/-- A directory that the platform cannot even be asked about ends a build at once. -/
theorem build_unnamed {text : String} (resolved : root = (Path.ofText text).resolve fs.here)
    (unnamed : ¬ Names fs text root) : ∃ failure, build text ⟨fs, [], []⟩ = .error failure ⟨fs, [], []⟩ := by
  unfold build
  rw [bind_files]
  cases known : fs.refuses (.ofText text) with
  | true => exact ⟨_, rfl⟩
  | false =>
    cases near : Limits.lookup fs root with
    | false => exact absurd ⟨resolved, known, near⟩ unnamed
    | true =>
      simp only [← resolved]
      exact ⟨_, lookUp_error near⟩

/-- What a build does with the sources it has found. -/
def buildFound (config : ProjectConfig) (root : Path) (sources : List Path) : Command Nat :=
  if sources.isEmpty then do
    say "No IDL files found."
    return 0
  else buildSources config root sources

theorem buildFound_leaves : leaves (buildFound config root sources) s =
    stateAfter (buildFiles sources root (config.buildPlace root)) s.files := by
  cases sources with
  | nil => rfl
  | cons source sources => exact buildSources_leaves

theorem buildFound_ok (run : buildFound config root sources s = .ok 0 s') : ∃ results fs',
    buildFiles sources root (config.buildPlace root) s.files = .ok results fs' ∧
      ∀ r ∈ results, r.2.errorCount = 0 := by
  cases sources with
  | nil => exact ⟨[], s.files, rfl, nofun⟩
  | cons source sources => exact buildSources_ok run

theorem buildFound_of_clean {results : FileResults}
    (run : buildFiles sources root (config.buildPlace root) s.files = .ok results fs')
    (clean : ∀ r ∈ results, r.2.errorCount = 0) :
    ∃ s', buildFound config root sources s = .ok 0 s' ∧ s'.files = fs' := by
  cases sources with
  | nil =>
    cases run
    exact ⟨_, rfl, rfl⟩
  | cons source sources => exact buildSources_of_clean run clean

theorem build_of_found {text : String} (names : Names fs text root)
    (there : fs.hasDirectory root = true)
    (loaded : loadConfig fs (root.join (.ofText configFileName)) = .ok config)
    (found : findSources fs config root = .ok sources) :
    build text ⟨fs, [], []⟩ = buildFound config root sources ⟨fs, [], []⟩ := by
  rw [build_eq names, if_pos there, bind_ok (loadProject_ok loaded)]
  simp only
  rw [bind_ok (sourcesOf_ok found)]
  cases sources with
  | nil => rfl
  | cons source sources => rfl

/-- Without a directory, settings that can be read or sources that can be found, nothing is built. -/
theorem build_refused {text : String} (named : root = (Path.ofText text).resolve fs.here)
    (refused : ∀ config sources, Names fs text root → fs.hasDirectory root = true →
      loadConfig fs (root.join (.ofText configFileName)) = .ok config →
      findSources fs config root ≠ .ok sources) :
    ((build text).outcome fs).files = fs ∧ ((build text).outcome fs).ending ≠ .ok 0 := by
  unfold Command.outcome
  obtain unnamed | names := Classical.em (¬ Names fs text root)
  · obtain ⟨failure, run⟩ := build_unnamed named unnamed
    rw [run]
    exact ⟨rfl, nofun⟩
  have names := Classical.not_not.1 names
  rw [build_eq names]
  -- Whichever step fails, it comes before anything is written.
  by_cases there : fs.hasDirectory root = true
  · rw [if_pos there]
    cases loaded : loadConfig fs (root.join (.ofText configFileName)) with
    | error e =>
      obtain ⟨report, run⟩ | ⟨failure, run⟩ := loadProject_error (s := ⟨fs, [], []⟩) loaded
      · rw [bind_ok run]
        exact ⟨rfl, nofun⟩
      · rw [bind_error run]
        exact ⟨rfl, nofun⟩
    | ok config =>
      cases found : findSources fs config root with
      | ok sources => exact absurd found (refused config sources names there loaded)
      | error e =>
        obtain ⟨failure, run⟩ := sourcesOf_error (s := ⟨fs, [], []⟩) found
        rw [bind_ok (loadProject_ok loaded)]
        simp only
        rw [bind_error run]
        exact ⟨rfl, nofun⟩
  · rw [if_neg there]
    exact ⟨rfl, nofun⟩

/-- A build of a project without diagnostics succeeds. -/
theorem build_of_clean {text : String} {results : FileResults}
    (names : Names fs text root) (there : fs.hasDirectory root = true)
    (loaded : loadConfig fs (root.join (.ofText configFileName)) = .ok config)
    (found : findSources fs config root = .ok sources)
    (run : buildFiles sources root (config.buildPlace root) fs = .ok results fs')
    (clean : ∀ r ∈ results, r.2.errorCount = 0) :
    ((build text).outcome fs).ending = .ok 0 ∧ ((build text).outcome fs).files = fs' := by
  obtain ⟨s', built, files⟩ := buildFound_of_clean (s := ⟨fs, [], []⟩) run clean
  unfold Command.outcome
  rw [build_of_found names there loaded found, built]
  exact ⟨rfl, files⟩

/-- A build either stops before it touches files, or builds the sources of the project. -/
theorem build_cases {text : String} (named : root = (Path.ofText text).resolve fs.here) :
    ((build text).outcome fs).files = fs ∧ ((build text).outcome fs).ending ≠ .ok 0 ∨
    ∃ config sources, fs.hasDirectory root = true ∧
      loadConfig fs (root.join (.ofText configFileName)) = .ok config ∧
      findSources fs config root = .ok sources ∧
      ((build text).outcome fs).files =
        stateAfter (buildFiles sources root (config.buildPlace root)) fs ∧
      (((build text).outcome fs).ending = .ok 0 → ∃ results fs',
        buildFiles sources root (config.buildPlace root) fs = .ok results fs' ∧
          ∀ r ∈ results, r.2.errorCount = 0) := by
  -- Either the build gets as far as building sources, or it is refused before.
  by_cases begun : ∃ config sources, Names fs text root ∧
      fs.hasDirectory root = true ∧
      loadConfig fs (root.join (.ofText configFileName)) = .ok config ∧
      findSources fs config root = .ok sources
  · obtain ⟨config, sources, names, there, loaded, found⟩ := begun
    refine .inr ⟨config, sources, there, loaded, found, ?_, ?_⟩
    · rw [files_outcome]
      unfold leaves
      rw [build_of_found names there loaded found]
      exact buildFound_leaves
    · unfold Command.outcome
      rw [build_of_found names there loaded found]
      cases run : buildFound config root sources ⟨fs, [], []⟩ with
      | error e s => exact nofun
      | ok code s =>
        intro zero
        cases zero
        exact buildFound_ok run
  · exact .inl (build_refused named fun config sources names there loaded found =>
      begun ⟨config, sources, names, there, loaded, found⟩)

end Builds

end Command

end IdlFront
