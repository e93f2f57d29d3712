import IdlFront.Proofs.Command.Runs
import IdlFront.Proofs.Project.Upkeep

/-! # Builds that succeed

* `Project.Event`, `Project.Reached` — what happens to a project, and the stores it leads to.
* `Project.Allowed` — events that do not put a tree where it would be taken for another one.
* `Project.Sound.after_event`, `Project.sound_of_reached` — artifacts stay trustworthy.
* `Project.Green` — every check of the project succeeds, and no source of it has a diagnostic.
* `green_of_build` — a build that succeeds leaves a green project.
* `dump_then_build` — not so if the tree of a file with diagnostics has been dumped over its artifact.
-/

namespace IdlFront

open FileStore

namespace Project

variable {P : Project} {start fs fs' : FileStore}

/-! ## Histories -/

/-- What can happen to a project: time passes, the working directory is left for another one, files are
    edited, a command is run, or the sources are built with some time passing before each of them. -/
inductive Event where
  | wait (d : Nat)
  | enter (path : String)
  | makeDirectories (path : String)
  | write (path : String) (content : List UInt8)
  | remove (path : String)
  | run (request : Request)
  | slowBuild (timed : List (Nat × Path))

/-- The store seen from a directory, if that is there. -/
def entered (fs : FileStore) (p : Path) : FileStore :=
  if fs.hasDirectory p then { fs with here := route fs.here p } else fs

/-- The store after an event, also where it is refused or ends early. -/
def after (P : Project) (fs : FileStore) : Event → FileStore
  | .wait d => fs.waited d
  | .enter path => entered fs (.ofText path)
  | .makeDirectories path => stateAfter (FileStore.makeDirectories (.ofText path)) fs
  | .write path content => stateAfter (writeBytes (.ofText path) content) fs
  | .remove path => stateAfter (FileStore.remove (.ofText path)) fs
  | .run request => (request.run.outcome fs).files
  | .slowBuild timed => stateAfter (buildTimed P.directory P.buildPlace [] timed) fs

/-- A dump into the artifact of a source is one of that very source, and of a tree without diagnostics. -/
def Honest (P : Project) (fs : FileStore) (source output : Path) : Prop :=
  ∀ names c m, P.Takes names → route fs.here output = P.place ++ artifactWay names →
    fs.entry? (P.root ++ names) = some (.file c m) → route fs.here source = P.root ++ names ∧
      ∀ result, parseFile fs source = .ok result → result.errorCount = 0

/-- The settings stay as they are, and files in the build directory are written by commands only: by dumps,
    and by builds when no two sources share an artifact. -/
def Allowed (P : Project) (fs : FileStore) : Event → Prop
  | .wait _ => True
  | .enter _ => True
  | .makeDirectories _ => True
  | .write path _ => route fs.here (.ofText path) ≠ P.settings ∧
      ∀ more, more ≠ [] → route fs.here (.ofText path) ≠ P.place ++ more
  | .remove path => route fs.here (.ofText path) ≠ P.settings
  | .run (.help _) => True
  | .run (.check _) => True
  | .run (.dump source output) => ∀ text, output = some text → text ≠ "" →
      route fs.here (.ofText text) ≠ P.settings ∧ P.Honest fs (.ofText source) (.ofText text)
  | .run (.build text) => route fs.here (.ofText text) = P.root ∧ P.Unshared fs
  | .slowBuild timed => fs.hasDirectory P.directory = true ∧ P.Unshared fs ∧
      findSources fs P.config P.directory = .ok (timed.map Prod.snd)

/-- The stores that allowed events lead to. -/
inductive Reached (P : Project) (start : FileStore) : FileStore → Prop where
  | start : P.Reached start start
  | after {fs : FileStore} {event : Event} :
      P.Reached start fs → P.Allowed fs event → P.Reached start (P.after fs event)

theorem resolve_eq {text : String} (same : route fs.here (.ofText text) = P.root) :
    P.directory = (Path.ofText text).resolve fs.here := by
  rw [directory, ← same]
  rfl

theorem buildFiles_eq (sources : List Path) : buildFiles sources P.directory P.buildPlace =
    buildTimed P.directory P.buildPlace [] (sources.map ((0 : Nat), ·)) :=
  buildTimed_zero.symm

theorem map_snd_zero (sources : List Path) : (sources.map ((0 : Nat), ·)).map Prod.snd = sources := by
  rw [List.map_map]
  exact List.map_id sources

theorem isSource_zero {sources : List Path} : ∀ s ∈ sources.map ((0 : Nat), ·), s.2 ∈ sources := by
  intro s mem
  have among := List.mem_map_of_mem (f := Prod.snd) mem
  rwa [map_snd_zero] at among

/-- The settings that a build of the project loads are those of the project. -/
theorem Sound.config_eq {config : ProjectConfig} (sound : P.Sound fs)
    (there : fs.hasDirectory P.directory = true)
    (loaded : loadConfig fs (P.directory.join (.ofText configFileName)) = .ok config) :
    config = P.config := by
  rw [loadConfig_eq_ok_iff sound.tree there, route_directory] at loaded
  exact sound.settled.eq loaded

theorem Sound.after_enter (sound : P.Sound fs) (p : Path) : P.Sound (entered fs p) := by
  unfold entered
  split
  · next there =>
    obtain ⟨-, t, entry⟩ := locate_of_hasDirectory there
    exact sound.frame (fun _ => False) ⟨⟨t, entry⟩, sound.tree.parent⟩
      ⟨sound.listed.once, sound.listed.below, sound.listed.names, sound.listed.names_of_entry entry⟩
      (Int.le_refl _) (fun _ _ _ _ => Iff.rfl) id fun _ _ _ none => none.elim
  · exact sound

theorem Sound.after_dump (sound : P.Sound fs) {source : String} {output : Option String}
    (allowed : P.Allowed fs (.run (.dump source output))) :
    P.Sound (P.after fs (.run (.dump source output))) := by
  show P.Sound ((Command.dump source output).outcome fs).files
  obtain same | ⟨text, result, given, nonempty, parsed, same⟩ := Command.dump_files source output fs
  · rwa [same]
  · obtain ⟨kept, honest⟩ := allowed text given nonempty
    rw [same]
    apply sound.after_writeArtifact (Path.written_ofText text) parsed kept
    intro names c m takes place file
    obtain ⟨own, clean⟩ := honest names c m takes place file
    exact ⟨own, clean result parsed⟩

theorem Sound.after_build (sound : P.Sound fs) {text : String}
    (allowed : P.Allowed fs (.run (.build text))) : P.Sound (P.after fs (.run (.build text))) := by
  obtain ⟨named, unshared⟩ := allowed
  show P.Sound ((Command.build text).outcome fs).files
  obtain ⟨same, -⟩ | ⟨config, sources, there, loaded, found, files, -⟩ :=
    Command.build_cases (resolve_eq named)
  · rwa [same]
  -- A plain build is one in which no time passes.
  · obtain rfl := sound.config_eq there loaded
    rw [files]
    exact buildFiles_eq sources ▸ after_buildTimed sound there found unshared isSource_zero

theorem Sound.after_event (sound : P.Sound fs) {event : Event} (allowed : P.Allowed fs event) :
    P.Sound (P.after fs event) := by
  -- Requests that write nothing leave the store as it is; the others have a lemma each.
  cases event with
  | wait d => exact sound.after_wait d
  | enter path => exact sound.after_enter (.ofText path)
  | makeDirectories path => exact sound.after_makeDirectories (Path.written_ofText path)
  | write path content =>
    apply sound.after_writeBytes (Path.written_ofText path) allowed.1
    intro names c m _ place
    exact absurd place (allowed.2 _ artifactWay_ne_nil)
  | remove path => exact sound.after_remove allowed
  | run request =>
    cases request with
    | help interface =>
      show P.Sound ((Request.help interface).run.outcome fs).files
      rw [Command.files_outcome, Command.quiet_help]
      exact sound
    | check paths =>
      show P.Sound ((Command.check paths).outcome fs).files
      rw [Command.files_outcome, Command.quiet_check]
      exact sound
    | dump source output => exact sound.after_dump allowed
    | build text => exact sound.after_build allowed
  | slowBuild timed =>
    obtain ⟨there, unshared, found⟩ := allowed
    exact after_buildTimed sound there found unshared fun s mem => List.mem_map_of_mem mem

theorem sound_of_reached (sound : P.Sound start) (reached : P.Reached start fs) : P.Sound fs := by
  induction reached with
  | start => exact sound
  | after _ allowed ih => exact ih.after_event allowed

/-- Where there are no artifacts yet, none is wrong. -/
theorem sound_of_bare (tree : start.IsTree) (listed : start.Listed)
    (there : start.hasDirectory P.directory = true)
    (loaded : loadConfig start (P.directory.join (.ofText configFileName)) = .ok P.config)
    (bare : start.Bare P.place) : P.Sound start where
  tree := tree
  listed := listed
  settled := by
    rw [loadConfig_eq_ok_iff tree there, route_directory] at loaded
    obtain file | ⟨free, standard⟩ := loaded
    · exact .inl file
    · exact .inr ⟨fun c t file => (by cases free.symm.trans file), standard⟩
  past some file := absurd file (bare _ _ _ some)
  stands _ _ artifact := absurd artifact (bare _ _ _ artifactWay_ne_nil)

/-! ## Green projects -/

/-- From whatever path to the project and from within it, no source has a diagnostic, and checks succeed
    without reports. -/
structure Green (P : Project) (fs : FileStore) : Prop where
  clean : ∀ d sources, fs.hasDirectory d = true → route fs.here d = P.root →
    findSources fs P.config d = .ok sources → ∀ p ∈ sources, ∃ tree, parseFile fs p = .ok ⟨tree, []⟩
  check : ∀ text, fs.hasDirectory (.ofText text) = true → route fs.here (.ofText text) = P.root →
    ((Request.check [text]).run.outcome fs).ending = .ok 0 ∧
      ((Request.check [text]).run.outcome fs).reports = []
  checkHere : fs.here = P.root → ((Request.check []).run.outcome fs).ending = .ok 0 ∧
    ((Request.check []).run.outcome fs).reports = []

/-- A build without diagnostics leaves a green project. -/
theorem green_of_buildTimed {sources : List Path} {timed : List (Nat × Path)} {results : FileResults}
    (sound : P.Sound fs) (there : fs.hasDirectory P.directory = true) (unshared : P.Unshared fs)
    (loaded : loadConfig fs (P.directory.join (.ofText configFileName)) = .ok P.config)
    (found : findSources fs P.config P.directory = .ok sources) (all : timed.map Prod.snd = sources)
    (run : buildTimed P.directory P.buildPlace [] timed fs = .ok results fs')
    (clean : ∀ r ∈ results, r.2.errorCount = 0) : P.Green fs' := by
  have isSource : ∀ s ∈ timed, s.2 ∈ sources := fun s mem => all ▸ List.mem_map_of_mem mem
  have sound' : P.Sound (stateAfter (buildTimed P.directory P.buildPlace [] timed) fs) :=
    after_buildTimed sound there found unshared isSource
  rw [stateAfter_ok run] at sound'
  have checks := fun {d : Path} => checks_of_built (d := d) sound there found unshared loaded all run clean
  refine ⟨?_, ?_, ?_⟩
  · intro d sources' there' same found'
    obtain ⟨-, other, found'', clean⟩ := checks there' same
    cases found'.symm.trans found''
    exact clean
  · intro text there' same
    obtain ⟨loaded', other, found', clean⟩ := checks there' same
    exact Command.check_of_clean loaded' found' clean rfl rfl there'
  · intro inside
    -- The working directory is the one of the project.
    have there' : fs'.hasDirectory P.directory = true := by
      obtain ⟨t, home⟩ := sound'.tree.home
      rw [inside] at home
      have located : fs'.locate ⟨.root, []⟩ = .ok [] := rfl
      exact hasDirectory_iff.2 ⟨t, (find_below sound'.tree located (down_of_names P.names)).2 home⟩
    obtain ⟨loaded', other, found', clean⟩ := checks there' route_directory
    exact Command.check_here_of_clean loaded' found' clean (by rw [directory, inside])

end Project

/-- Let a project start with nothing in its build directory, and let anything happen that is allowed. A build
    that exits with zero leaves a green project if no two sources share an artifact, and so does one that
    takes time. -/
theorem green_of_build (P : Project) {start fs : FileStore} (tree : start.IsTree)
    (listed : start.Listed) (there : start.hasDirectory P.directory = true)
    (loaded : loadConfig start (P.directory.join (.ofText configFileName)) = .ok P.config)
    (bare : start.Bare P.place) (reached : P.Reached start fs) (unshared : P.Unshared fs) :
    (∀ text, route fs.here (.ofText text) = P.root →
      ((Request.build text).run.outcome fs).ending = .ok 0 →
        P.Green ((Request.build text).run.outcome fs).files) ∧
    ∀ timed results fs', fs.hasDirectory P.directory = true →
      loadConfig fs (P.directory.join (.ofText configFileName)) = .ok P.config →
      findSources fs P.config P.directory = .ok (timed.map Prod.snd) →
      buildTimed P.directory P.buildPlace [] timed fs = .ok results fs' →
      (∀ r ∈ results, r.2.errorCount = 0) → P.Green fs' := by
  have sound := Project.sound_of_reached (Project.sound_of_bare tree listed there loaded bare) reached
  constructor
  · intro text named ended
    show P.Green ((Command.build text).outcome fs).files
    obtain ⟨-, other⟩ | ⟨config, sources, there, loaded, found, files, succeeded⟩ :=
      Command.build_cases (Project.resolve_eq named)
    · exact absurd ended other
    · obtain rfl := sound.config_eq there loaded
      obtain ⟨results, fs', run, clean⟩ := succeeded ended
      rw [files, stateAfter_ok run]
      rw [← Project.buildPlace, Project.buildFiles_eq] at run
      exact Project.green_of_buildTimed sound there unshared loaded found (Project.map_snd_zero sources)
        run clean
  · intro timed results fs' there loaded found run clean
    exact Project.green_of_buildTimed sound there unshared loaded found rfl run clean

/-! ## A project of one source -/

/-- The project in the root, with the settings of one that states none. -/
def rootProject : Project where
  root := []
  config := .standard
  names := nofun
  inward := by
    intro pattern mem
    rw [List.mem_singleton.1 mem]
    decide

/-- Its store when one source has been written and some time has passed. -/
def soleStore (content : List UInt8) : FileStore := ⟨[(["s.idl"], .file content 0)], [], 1⟩

/-- Its store when the empty tree is in the artifact of the source. -/
def soleBuilt (content : List UInt8) : FileStore :=
  { soleStore content with
    entries := (soleStore content).entries ++ [([".xidl-build"], .directory 1),
      ([".xidl-build", "s.xidl.json"], .file (Text.Utf8.encode (Artifact.serialize .empty).toList) 1)] }

section Sole

variable {content : List UInt8} {anchor : Anchor}

theorem parse_standard : Glob.parse "**/*.idl" = .ok ⟨[.anyDepth, .like ⟨[.anyText, .character '.',
    .character 'i', .character 'd', .character 'l']⟩], false⟩ := by
  simp [Glob.parse, Path.ofText, Path.namesOf, Path.pieces, Path.anchorOf, Path.isAbsolute, Glob.step,
    Glob.hasDoubleStar, Wildcard.isSpecial, Wildcard.ofText, Wildcard.itemsOf]
  rfl

theorem findSources_soleStore :
    findSources (soleStore content) .standard ⟨.root, []⟩ = .ok [⟨.root, ["s.idl"]⟩] := by
  simp only [findSources, ProjectConfig.standard, List.mapM_cons, List.mapM_nil, parse_standard]
  rfl

theorem findSources_soleBuilt :
    findSources (soleBuilt content) .standard ⟨anchor, []⟩ = .ok [⟨anchor, ["s.idl"]⟩] := by
  simp only [findSources, ProjectConfig.standard, List.mapM_cons, List.mapM_nil, parse_standard]
  cases anchor <;> rfl

theorem writeArtifact_sole :
    writeArtifact .empty ⟨anchor, [".xidl-build", "s.xidl.json"]⟩ (soleStore content) =
      .ok () (soleBuilt content) := by
  have made : makeDirectories ⟨anchor, [".xidl-build"]⟩ (soleStore content) = .ok ()
      { soleStore content with
        entries := (soleStore content).entries ++ [([".xidl-build"], .directory 1)] } := by
    rw [makeDirectories]
    cases anchor <;> rfl
  exact writeArtifact_of_steps rfl made (by cases anchor <;> rfl)

theorem placed_sole : artifactPath [] ⟨.root, ["s.idl"]⟩ ⟨.root, []⟩ ⟨.root, [".xidl-build"]⟩ =
    .ok ⟨.root, [".xidl-build", "s.xidl.json"]⟩ := by decide

/-- The artifact is newer than the source, so a build takes it, whatever the source is. -/
theorem buildFiles_soleBuilt :
    buildFiles [⟨.root, ["s.idl"]⟩] ⟨.root, []⟩ ⟨.root, [".xidl-build"]⟩ (soleBuilt content) =
      .ok [(⟨.root, ["s.idl"]⟩, ⟨.empty, []⟩)] (soleBuilt content) := by
  have placed : artifactPath (soleBuilt content).here ⟨.root, ["s.idl"]⟩ ⟨.root, []⟩
      ⟨.root, [".xidl-build"]⟩ = .ok ⟨.root, [".xidl-build", "s.xidl.json"]⟩ := placed_sole
  have newer : isUpToDate (soleBuilt content) ⟨.root, ["s.idl"]⟩
      ⟨.root, [".xidl-build", "s.xidl.json"]⟩ = .ok true := rfl
  have read : readArtifact (soleBuilt content) ⟨.root, [".xidl-build", "s.xidl.json"]⟩ = .ok .empty :=
    readArtifact_of_bytes (integral_of_parse parse_nothing) rfl
  have built : buildFile ⟨.root, []⟩ ⟨.root, [".xidl-build"]⟩ ⟨.root, ["s.idl"]⟩ (soleBuilt content) =
      .ok ⟨.empty, []⟩ (soleBuilt content) := by
    simp only [buildFile, placed, cachedResult, newer, read]
    rfl
  simp only [buildFiles, buildFilesFrom, built]
  rfl

/-- Builds of the project in the root, seen from there. -/
theorem build_root {results : FileResults} {fs fs' : FileStore} {sources : List Path}
    (here : fs.here = []) (loaded : loadConfig fs ⟨.root, [".xidl.yaml"]⟩ = .ok .standard)
    (found : findSources fs .standard ⟨.root, []⟩ = .ok sources)
    (run : buildFiles sources ⟨.root, []⟩ ⟨.root, [".xidl-build"]⟩ fs = .ok results fs')
    (clean : ∀ r ∈ results, r.2.errorCount = 0) :
    ((Request.build ".").run.outcome fs).ending = .ok 0 ∧
      ((Request.build ".").run.outcome fs).files = fs' := by
  have named : (⟨.root, []⟩ : Path) = (Path.ofText ".").resolve fs.here := by
    rw [here]
    rfl
  exact Command.build_of_clean ⟨named, rfl, rfl⟩ rfl loaded found run clean

theorem build_soleBuilt : ((Request.build ".").run.outcome (soleBuilt content)).ending = .ok 0 ∧
    ((Request.build ".").run.outcome (soleBuilt content)).files = soleBuilt content :=
  build_root rfl rfl findSources_soleBuilt buildFiles_soleBuilt (by simp [ParseResult.errorCount])

end Sole

/-- The first build writes the artifact of a source in which nothing stands. -/
theorem build_soleStore :
    ((Request.build ".").run.outcome (soleStore [])).files = soleBuilt [] := by
  have placed : artifactPath (soleStore []).here ⟨.root, ["s.idl"]⟩ ⟨.root, []⟩
      ⟨.root, [".xidl-build"]⟩ = .ok ⟨.root, [".xidl-build", "s.xidl.json"]⟩ := placed_sole
  have none : cachedResult (soleStore []) ⟨.root, ["s.idl"]⟩
      ⟨.root, [".xidl-build", "s.xidl.json"]⟩ = .ok none := rfl
  have parsed : parseFile (soleStore []) ⟨.root, ["s.idl"]⟩ = .ok ⟨.empty, []⟩ :=
    parseFile_eq_ok_iff.2 ⟨[], 0, [], rfl, rfl, parse_nothing⟩
  have built : buildFile ⟨.root, []⟩ ⟨.root, [".xidl-build"]⟩ ⟨.root, ["s.idl"]⟩ (soleStore []) =
      .ok ⟨.empty, []⟩ (soleBuilt []) := by
    simp only [buildFile, placed, none, rebuildFile, parsed, writeArtifact_sole]
    rfl
  have all : buildFiles [⟨.root, ["s.idl"]⟩] ⟨.root, []⟩ ⟨.root, [".xidl-build"]⟩ (soleStore []) =
      .ok [(⟨.root, ["s.idl"]⟩, ⟨.empty, []⟩)] (soleBuilt []) := by
    simp only [buildFiles, buildFilesFrom, built]
    rfl
  exact (build_root rfl rfl findSources_soleStore all (by simp [ParseResult.errorCount])).2

theorem place_rootProject : rootProject.place = [".xidl-build"] := by decide

theorem route_sole : route [] (.ofText "s.idl") = ["s.idl"] := by decide

/-- There is one source, whether or not its artifact is there. -/
theorem unshared_sole {fs : FileStore} (only : ∀ e ∈ fs.entries,
    e.1 = ["s.idl"] ∨ e.1 = [".xidl-build"] ∨ e.1 = [".xidl-build", "s.xidl.json"]) :
    rootProject.Unshared fs := by
  have one : ∀ {names c m}, rootProject.Takes names →
      fs.entry? (rootProject.root ++ names) = some (.file c m) →
        names = ["s.idl"] ∨ names = [".xidl-build"] := by
    intro names c m takes file
    have outside := takes.outside (List.cons_ne_nil "s.xidl.json" [])
    rw [place_rootProject] at outside
    have file : fs.entry? names = some (.file c m) := file
    have some : names ≠ [] := by
      rintro rfl
      cases file
    obtain source | directory | artifact := only _ (mem_of_entry some file)
    · exact .inl source
    · exact .inr directory
    · exact absurd artifact outside
  intro names names' c c' m m' takes takes' file file' same
  obtain rfl | rfl := one takes file <;> obtain rfl | rfl := one takes' file'
  · rfl
  · exact absurd same (by decide)
  · exact absurd same (by decide)
  · rfl

theorem reached_soleBuilt : rootProject.Reached ⟨[], [], 0⟩ (soleBuilt []) := by
  have written : rootProject.Reached ⟨[], [], 0⟩ ⟨[(["s.idl"], .file [] 0)], [], 0⟩ := by
    have allowed : rootProject.Allowed ⟨[], [], 0⟩ (.write "s.idl" []) := by
      constructor
      · show route [] (.ofText "s.idl") ≠ [".xidl.yaml"]
        rw [route_sole]
        decide
      · intro more _
        show route [] (.ofText "s.idl") ≠ rootProject.place ++ more
        rw [route_sole, place_rootProject]
        intro same
        exact absurd (List.cons.inj same).1 (by decide)
    exact .after .start allowed
  have waited : rootProject.Reached ⟨[], [], 0⟩ (soleStore []) := by
    have allowed : rootProject.Allowed ⟨[(["s.idl"], .file [] 0)], [], 0⟩ (.wait 1) := trivial
    exact .after written allowed
  have allowed : rootProject.Allowed (soleStore []) (.run (.build ".")) := by
    refine ⟨rfl, unshared_sole ?_⟩
    intro e mem
    rw [List.mem_singleton.1 mem]
    exact .inl rfl
  have built := Project.Reached.after waited allowed
  have files : rootProject.after (soleStore []) (.run (.build ".")) = soleBuilt [] := build_soleStore
  rwa [files] at built

theorem green_of_build_cached : ((Request.build ".").run.outcome (soleBuilt [])).ending = .ok 0 ∧
    rootProject.Green ((Request.build ".").run.outcome (soleBuilt [])).files := by
  have noEntry : ∀ r e, FileStore.entry? ⟨[], [], 0⟩ r = some e → r = [] := by
    intro r e found
    by_contra below
    exact absurd (mem_of_entry below found) List.not_mem_nil
  have tree : IsTree ⟨[], [], 0⟩ := by
    refine ⟨⟨0, rfl⟩, fun r e found => ?_⟩
    rw [noEntry r e found]
    exact ⟨0, rfl⟩
  have listed : Listed ⟨[], [], 0⟩ := ⟨List.nodup_nil, nofun, nofun, nofun⟩
  have bare : Bare ⟨[], [], 0⟩ rootProject.place := by
    intro more c t some found
    exact some (List.append_eq_nil_iff.1 (noEntry _ _ found)).2
  have unshared : rootProject.Unshared (soleBuilt []) := by
    apply unshared_sole
    simp [soleBuilt, soleStore]
  exact ⟨build_soleBuilt.1, (green_of_build rootProject tree listed rfl rfl bare reached_soleBuilt
    unshared).1 "." rfl build_soleBuilt.1⟩

/-! ## A dump over an artifact -/

theorem parse_rejected : parse "?" = ⟨.empty, [⟨1, 1, .unexpectedCharacter '?'⟩]⟩ := by
  have first : Lexeme.first '?' [] = ⟨.rejected, ['?'], some (.unexpectedCharacter '?')⟩ := rfl
  have split : Lexeme.split ['?'] = [⟨.rejected, ['?'], some (.unexpectedCharacter '?')⟩] := by
    simp [Lexeme.split, first]
  have stream : TokenStream.ofSource "?" =
      .ofArrivals [⟨[⟨1, 1, .unexpectedCharacter '?'⟩], ⟨.eof, "", 1, 2, 1⟩⟩] := by
    show TokenStream.ofArrivals (arrivalsFrom .start [] (Lexeme.split ['?'])) = _
    rw [split]
    rfl
  -- There is nothing but the end of input, so the tree is empty.
  unfold parse parseStream Parser.file
  rw [stream, Parser.iterate_end Bool.false_ne_true]
  rfl

/-- The tree of a file with diagnostics is written like any other. -/
theorem dump_rejected :
    ((Request.dump "s.idl" (some ".xidl-build/s.xidl.json")).run.outcome (soleStore [63])).files =
      soleBuilt [63] := by
  have source : Path.ofText "s.idl" = ⟨.here, ["s.idl"]⟩ := by decide
  have output : Path.ofText ".xidl-build/s.xidl.json" = ⟨.here, [".xidl-build", "s.xidl.json"]⟩ := by
    decide
  have parsed : parseFile (soleStore [63]) (.ofText "s.idl") =
      .ok ⟨.empty, [⟨1, 1, .unexpectedCharacter '?'⟩]⟩ := by
    rw [source]
    exact parseFile_eq_ok_iff.2 ⟨[63], 0, ['?'], rfl, rfl, parse_rejected⟩
  show ((Command.dump "s.idl" (some ".xidl-build/s.xidl.json")).outcome (soleStore [63])).files = _
  rw [Command.dump_files_of_parsed (by decide) parsed, output]
  exact stateAfter_ok writeArtifact_sole

theorem check_rejected :
    ((Request.check ["."]).run.outcome (soleBuilt [63])).ending = .ok 1 := by
  have parsed : parseFile (soleBuilt [63]) ⟨.here, ["s.idl"]⟩ =
      .ok ⟨.empty, [⟨1, 1, .unexpectedCharacter '?'⟩]⟩ :=
    parseFile_eq_ok_iff.2 ⟨[63], 0, ['?'], rfl, rfl, parse_rejected⟩
  have read : ∀ p ∈ [(⟨.here, ["s.idl"]⟩ : Path)], ∃ r, parseFile (soleBuilt [63]) p = .ok r := by
    intro p mem
    rw [List.mem_singleton.1 mem]
    exact ⟨_, parsed⟩
  exact Command.check_of_faulty rfl findSources_soleBuilt rfl rfl rfl read (List.mem_singleton_self _)
    parsed (by simp [ParseResult.errorCount])

/-- A build takes the dumped tree for that of the source and succeeds, but a check right after it fails. -/
theorem dump_then_build :
    ∃ dumped built, ((Request.dump "s.idl" (some ".xidl-build/s.xidl.json")).run.outcome
        (soleStore [63])).files = dumped ∧
      (Request.build ".").run.outcome dumped = built ∧ built.ending = .ok 0 ∧
      ((Request.check ["."]).run.outcome built.files).ending = .ok 1 := by
  refine ⟨_, _, dump_rejected, rfl, build_soleBuilt.1, ?_⟩
  rw [build_soleBuilt.2]
  exact check_rejected

end IdlFront
