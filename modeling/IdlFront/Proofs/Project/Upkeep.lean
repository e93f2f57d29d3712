import IdlFront.Proofs.Project.Slots

/-! # Upkeep of a project

Whether an artifact can be trusted depends on everything that has happened before.

* `Project` — where a project is, and its settings.
* `Project.Settled` — the settings are those in the file, or the standard ones if there is none.
* `Project.Sound` — the invariant: an artifact that is newer than the source it would be taken for stands for
  it, even if it has been written for another one.
* `Project.Sound.frame` — what a change has to keep for that.
* `Project.Sound.after_write`, `after_remove`, `after_writeArtifact`, `after_buildTimed` — changes that do.
* `Project.Sound.clean_of_built` — after a build without diagnostics no source has any.
-/

namespace IdlFront

open FileStore

/-- The place of a project and its settings, in which no pattern goes up. -/
structure Project where
  root : Route
  config : ProjectConfig
  names : ∀ name ∈ root, IsName name
  inward : config.Inward

namespace Project

variable {P : Project} {fs fs' : FileStore} {here : Route} {p q a : Path} {names way : List String}
  {c content : List UInt8} {m t : Int} {sources : List Path} {changed : Route → Prop}

/-! ## Places -/

def directory (P : Project) : Path := ⟨.root, P.root⟩

/-- The place of the file with the settings. -/
def settings (P : Project) : Route := P.root ++ [configFileName]

def buildPlace (P : Project) : Path := P.config.buildPlace P.directory

/-- The place of the build directory. -/
def place (P : Project) : Route := route [] P.buildPlace

/-- The ways to files that the settings stand for. -/
def Takes (P : Project) (names : List String) : Prop := P.config.Takes [] P.directory names

theorem route_of_isAbsolute {here' : Route} (absolute : p.isAbsolute = true) :
    route here p = route here' p := by
  rw [route, route, Path.resolve, Path.resolve, if_pos absolute, if_pos absolute]

theorem route_root (down : ".." ∉ names) : route here ⟨.root, names⟩ = names := by
  have walked : route here ⟨.root, names⟩ = Path.walkNames [] names := rfl
  rw [walked, Path.walkNames_down down, List.nil_append]

@[simp] theorem route_directory : route here P.directory = P.root := route_root (down_of_names P.names)

@[simp] theorem route_buildPlace : route here P.buildPlace = P.place := by
  apply route_of_isAbsolute
  unfold buildPlace ProjectConfig.buildPlace Path.join
  split
  · next absolute => exact absolute
  · rfl

/-- What a project takes does not depend on where one is. -/
theorem takes_iff : P.config.Takes here P.directory names ↔ P.Takes names := by
  have root : route here P.directory = route [] P.directory := by
    rw [route_directory, route_directory]
  have built : route here (P.config.buildPlace P.directory) = route [] (P.config.buildPlace P.directory) :=
    route_buildPlace.trans route_buildPlace.symm
  constructor
  · rintro ⟨covered, outside, included⟩
    exact ⟨covered, by rwa [root, built] at outside, included⟩
  · rintro ⟨covered, outside, included⟩
    exact ⟨covered, by rwa [root, built], included⟩

/-- Sources are not in the build directory. -/
theorem Takes.outside (takes : P.Takes names) {more : List String} (some : more ≠ []) :
    P.root ++ names ≠ P.place ++ more := by
  have apart := ProjectConfig.Takes.outside takes more some
  rw [route_directory] at apart
  exact apart

theorem artifactWay_ne_nil : artifactWay way ≠ [] := by simp [artifactWay]

/-- No source is where an artifact could be. -/
theorem Takes.not_artifact (takes : P.Takes names) : ¬ ∃ way, P.root ++ names = P.place ++ artifactWay way :=
  fun ⟨_, same⟩ => takes.outside artifactWay_ne_nil same

/-- No artifact is where the settings are. -/
theorem settings_ne_artifact : P.settings ≠ P.place ++ artifactWay way := by
  intro same
  have last := congrArg List.getLast? same
  rw [settings, artifactWay, ← List.append_assoc, List.getLast?_concat, List.getLast?_concat] at last
  have letters := congrArg String.toList (Option.some.inj last)
  have back : (artifactName (way.getLast?.getD "")).toList =
      Path.stemOf (way.getLast?.getD "").toList ++ artifactSuffix.toList := by simp [artifactName]
  rw [back] at letters
  have ends := congrArg List.getLast? letters
  rw [List.getLast?_append_of_ne_nil _ (by decide)] at ends
  exact absurd ends (by decide)

/-! ## Settings -/

theorem checkConfig_of_path {reader : SettingsReader} {m : reader.Mapping} {config : ProjectConfig}
    (h : reader.checkConfig p m = .ok config) : reader.checkConfig q m = .ok config := by
  unfold SettingsReader.checkConfig at h ⊢
  cases checked : reader.check m with
  | ok config' => simpa only [checked] using h
  | error failure =>
    rw [checked] at h
    cases failure with
    | invalid faults => cases h
    | foreign cause => cases h

/-- The settings in a file do not depend on what it is called. -/
theorem readConfig_of_path {reader : SettingsReader} {text : String} {config : ProjectConfig}
    (h : reader.readConfig p text = .ok config) : reader.readConfig q text = .ok config := by
  unfold SettingsReader.readConfig at h ⊢
  cases read : reader.read text with
  | error failure =>
    rw [read] at h
    cases failure with
    | yaml cause => cases h
    | foreign cause => cases h
  | ok document =>
    rw [read] at h
    cases document with
    | nothing => exact checkConfig_of_path h
    | mapping m => exact checkConfig_of_path h
    | other => cases h

/-- There is a file with these settings. -/
def Holds (fs : FileStore) (r : Route) (config : ProjectConfig) : Prop :=
  ∃ content t cs, fs.entry? r = some (.file content t) ∧ Text.Utf8.decode content = .ok cs ∧
    ∀ path, SettingsReader.standard.readConfig path (String.ofList (Text.withLineFeeds cs)) = .ok config

theorem loadConfig_eq_ok_iff {config : ProjectConfig} (tree : fs.IsTree)
    (there : fs.hasDirectory p = true) : loadConfig fs (p.join (.ofText configFileName)) = .ok config ↔
      Holds fs (route fs.here p ++ [configFileName]) config ∨
        fs.entry? (route fs.here p ++ [configFileName]) = none ∧ config = .standard := by
  obtain ⟨located, -⟩ := locate_of_hasDirectory there
  have path : p.join (.ofText configFileName) = ⟨p.anchor, p.names ++ [configFileName]⟩ :=
    p.join_name isName_configFileName
  have below : ∀ e, fs.find ⟨p.anchor, p.names ++ [configFileName]⟩ = .ok e ↔
      fs.entry? (route fs.here p ++ [configFileName]) = some e :=
    fun e => find_below tree located (by decide)
  rw [path]
  unfold loadConfig SettingsReader.loadConfig Holds
  simp only [Limits.lookup_unlimited, Bool.false_eq_true, if_false]
  -- Without an entry the standard settings hold; a directory there and a text that is no UTF-8 give
  -- none.
  cases entry : fs.entry? (route fs.here p ++ [configFileName]) with
  | none =>
    have absent : fs.hasEntry ⟨p.anchor, p.names ++ [configFileName]⟩ = false := by
      rw [Bool.eq_false_iff, ne_eq, hasEntry_iff]
      rintro ⟨e, found⟩
      simp [below, entry] at found
    simp [absent, eq_comm]
  | some e =>
    have found := (below e).2 entry
    rw [if_pos (hasEntry_iff.2 ⟨e, found⟩)]
    unfold readText readBytes
    rw [found]
    cases e with
    | directory t => simp
    | file content t =>
      cases decoded : Text.Utf8.decode content with
      | error e => simp [decoded]
      | ok cs =>
        simp only [decoded]
        constructor
        · intro read
          exact .inl ⟨content, t, cs, rfl, decoded, fun path => readConfig_of_path read⟩
        · rintro (⟨content', t', cs', same, decoded', read⟩ | ⟨none, -⟩)
          · cases same
            rw [decoded] at decoded'
            cases decoded'
            exact read _
          · cases none

/-- The settings are those in the file, or the standard ones if there is none. -/
def Settled (P : Project) (fs : FileStore) : Prop :=
  Holds fs P.settings P.config ∨
    (∀ content t, fs.entry? P.settings ≠ some (.file content t)) ∧ P.config = .standard

/-- What is loaded are the settings of the project. -/
theorem Settled.eq {config : ProjectConfig} (settled : P.Settled fs)
    (loaded : Holds fs P.settings config ∨ fs.entry? P.settings = none ∧ config = .standard) :
    config = P.config := by
  obtain ⟨content, t, cs, file, decoded, read⟩ | ⟨noFile, standard⟩ := settled
  · obtain ⟨content', t', cs', file', decoded', read'⟩ | ⟨none, -⟩ := loaded
    · rw [file] at file'
      cases file'
      rw [decoded] at decoded'
      cases decoded'
      have same := read ⟨.here, []⟩
      rw [read' ⟨.here, []⟩] at same
      exact Except.ok.inj same
    · rw [none] at file
      cases file
  · obtain ⟨content', t', cs', file', -⟩ | ⟨-, standard'⟩ := loaded
    · exact absurd file' (noFile _ _)
    · rw [standard, standard']

theorem Settled.of_files (settled : P.Settled fs)
    (same : ∀ c t, fs'.entry? P.settings = some (.file c t) ↔ fs.entry? P.settings = some (.file c t)) :
    P.Settled fs' := by
  obtain ⟨content, t, cs, file, decoded, read⟩ | ⟨noFile, standard⟩ := settled
  · exact .inl ⟨content, t, cs, (same _ _).2 file, decoded, read⟩
  · exact .inr ⟨fun content t file => noFile content t ((same _ _).1 file), standard⟩

/-! ## The invariant -/

/-- Nothing in the build directory is from the future, and an artifact that is newer than a source whose
    artifact it would be stands for that source. -/
structure Sound (P : Project) (fs : FileStore) : Prop where
  tree : fs.IsTree
  listed : fs.Listed
  settled : P.Settled fs
  past : ∀ {more c t}, more ≠ [] → fs.entry? (P.place ++ more) = some (.file c t) → t ≤ fs.clock
  stands : ∀ {names c m content t}, P.Takes names →
    fs.entry? (P.root ++ names) = some (.file c m) →
    fs.entry? (P.place ++ artifactWay names) = some (.file content t) → m < t → StandsFor content c

/-- Files may change where the settings are not. What is written into the build directory is from now, or as
    good as what was there; what is written as a source is not older than that. -/
theorem Sound.frame (sound : P.Sound fs) (changed : Route → Prop) (tree : fs'.IsTree)
    (listed : fs'.Listed) (clock : fs.clock ≤ fs'.clock)
    (other : ∀ r c t, ¬ changed r →
      (fs'.entry? r = some (.file c t) ↔ fs.entry? r = some (.file c t)))
    (kept : ¬ changed P.settings)
    (written : ∀ r content t, changed r → fs'.entry? r = some (.file content t) → t ≤ fs'.clock ∧
      (∀ names, P.Takes names → r = P.root ++ names → fs.clock ≤ t) ∧
      ∀ names c m, P.Takes names → r = P.place ++ artifactWay names →
        fs'.entry? (P.root ++ names) = some (.file c m) → m < t → StandsFor content c) :
    P.Sound fs' := by
  refine ⟨tree, listed, sound.settled.of_files fun c t => other _ c t kept, ?_, ?_⟩
  · intro more c t some file
    by_cases new : changed (P.place ++ more)
    · exact (written _ _ _ new file).1
    · exact Int.le_trans (sound.past some ((other _ _ _ new).1 file)) clock
  · intro names c m content t takes source artifact newer
    by_cases new : changed (P.place ++ artifactWay names)
    · exact (written _ _ _ new artifact).2.2 names c m takes rfl source newer
    · have old := (other _ _ _ new).1 artifact
      by_cases edited : changed (P.root ++ names)
      · -- A source that has just been written is not older than any artifact.
        have now := (written _ _ _ edited source).2.1 names takes rfl
        have past := sound.past artifactWay_ne_nil old
        omega
      · exact sound.stands takes ((other _ _ _ edited).1 source) old newer

/-! ## Changes of single files -/

/-- Files stay as they are. -/
theorem Sound.of_grows (sound : P.Sound fs) (grows : fs.Grows (fun _ => False) fs')
    (listed : fs'.Listed) : P.Sound fs' :=
  sound.frame _ grows.tree listed grows.clock grows.file id fun _ _ _ none => none.elim

theorem Sound.after_wait (sound : P.Sound fs) (d : Nat) : P.Sound (fs.waited d) :=
  sound.of_grows (grows_waited d sound.tree) ⟨sound.listed.once, sound.listed.below,
    sound.listed.names, sound.listed.here⟩

theorem Sound.after_makeDirectories (sound : P.Sound fs) (written : p.Written) :
    P.Sound (stateAfter (makeDirectories p) fs) :=
  sound.of_grows (grows_makeDirectories sound.tree) (sound.listed.after_makeDirectories written)

/-- A file may be written if it is not the one with the settings. If it is the artifact of sources, it has to
    stand for them. -/
theorem Sound.after_writeBytes (sound : P.Sound fs) (written : p.Written)
    (kept : route fs.here p ≠ P.settings)
    (stands : ∀ names c m, P.Takes names → route fs.here p = P.place ++ artifactWay names →
      fs.entry? (P.root ++ names) = some (.file c m) → StandsFor content c) :
    P.Sound (stateAfter (writeBytes p content) fs) := by
  have listed : (stateAfter (writeBytes p content) fs).Listed := sound.listed.after_writeBytes written
  have grows : fs.Grows (· = route fs.here p) (stateAfter (writeBytes p content) fs) :=
    grows_writeBytes sound.tree
  cases run : writeBytes p content fs with
  | error e fs' =>
    rw [stateAfter_error run, writeBytes_eq_error run]
    exact sound
  | ok _ fs' =>
    rw [stateAfter_ok run] at listed grows ⊢
    obtain ⟨r, located, -, entry, -⟩ := writeBytes_eq_ok run
    obtain rfl := locate_eq located
    apply sound.frame _ grows.tree listed grows.clock grows.file kept.symm
    rintro r content' t rfl file
    rw [entry] at file
    cases file
    refine ⟨grows.clock, fun _ _ _ => Int.le_refl _, ?_⟩
    intro names c m takes same source _
    have old := (grows.file _ c m fun here => takes.outside artifactWay_ne_nil (here.trans same)).1 source
    exact stands names c m takes same old

theorem Sound.after_remove (sound : P.Sound fs) (kept : route fs.here p ≠ P.settings) :
    P.Sound (stateAfter (remove p) fs) := by
  obtain same | ⟨c, t, located, file, taken⟩ := remove_cases p fs
  · rwa [same]
  · rw [taken]
    have ne : route fs.here p ≠ [] := by
      intro root
      rw [root] at file
      cases file
    have grows : fs.Grows (fun _ => False) (fs.touchParent (route fs.here p)) :=
      grows_touchParent sound.tree (sound.tree.parent _ _ file)
    have still := (grows.file _ c t id).2 file
    refine sound.frame (· = route fs.here p) (grows.tree.erase still)
      ((sound.listed.touchParent _).erase _) grows.clock ?_ kept.symm ?_
    · intro r c t other
      rw [entry?_erase_of_ne other, grows.file _ _ _ id]
    · rintro r c t rfl there
      rw [entry?_erase ne] at there
      cases there

/-! ## Dumps -/

/-- The tree of a file may be written anywhere but into the settings. If it becomes the artifact of sources,
    it has to be the tree of each of them, and without diagnostics. -/
theorem Sound.after_writeArtifact {result : ParseResult} (sound : P.Sound fs) (written : a.Written)
    (parsed : parseFile fs p = .ok result) (kept : route fs.here a ≠ P.settings)
    (own : ∀ names c m, P.Takes names → route fs.here a = P.place ++ artifactWay names →
      fs.entry? (P.root ++ names) = some (.file c m) →
      route fs.here p = P.root ++ names ∧ result.errorCount = 0) :
    P.Sound (stateAfter (writeArtifact result.tree a) fs) := by
  have made := sound.after_makeDirectories written.parent
  have grows : fs.Grows (fun _ => False) (stateAfter (makeDirectories a.parent) fs) :=
    grows_makeDirectories sound.tree
  apply writeArtifact_induction (Q := P.Sound) sound made
  apply made.after_writeBytes written
  · rwa [grows.here]
  · intro names c m takes place source
    rw [grows.here] at place
    have source := (grows.file _ _ _ id).1 source
    obtain ⟨eq, clean⟩ := own names c m takes place source
    obtain ⟨c', m', cs, found, decoded, rfl⟩ := parseFile_eq_ok_iff.1 parsed
    have entry := entry?_of_find found
    rw [eq, source] at entry
    cases entry
    refine ⟨cs, _, decoded, ?_, rfl⟩
    rw [ParseResult.mk.injEq]
    exact ⟨rfl, List.length_eq_zero_iff.1 clean⟩

/-! ## Builds -/

theorem buildFile_cases (root buildDirectory p : Path) (fs : FileStore) :
    stateAfter (buildFile root buildDirectory p) fs = fs ∨
      ∃ a tree, artifactPath fs.here p root buildDirectory = .ok a ∧
        stateAfter (buildFile root buildDirectory p) fs = stateAfter (writeArtifact tree a) fs := by
  -- Only a clean result that was not cached is written.
  unfold stateAfter buildFile
  cases placed : artifactPath fs.here p root buildDirectory with
  | error e => exact .inl rfl
  | ok a =>
    simp only
    cases cachedResult fs p a with
    | error e => exact .inl rfl
    | ok cached =>
      cases cached with
      | some result => exact .inl rfl
      | none =>
        unfold rebuildFile
        cases parseFile fs p with
        | error e => exact .inl rfl
        | ok result =>
          simp only
          by_cases clean : result.errorCount = 0
          · rw [if_pos clean]
            refine .inr ⟨a, result.tree, rfl, ?_⟩
            cases writeArtifact result.tree a fs with
            | ok _ fs' => rfl
            | error e fs' =>
              cases e with
              | refused e => rfl
              | breakdown b => rfl
          · rw [if_neg clean]
            exact .inl rfl

/-- What passing time and written artifacts keep, builds keep. -/
theorem fresh_buildTimed_induction {l : Layout} {timed : List (Nat × Path)} {results : FileResults}
    {Q : FileStore → Prop} (wait : ∀ fs d, Q fs → Q (fs.waited d))
    (write : ∀ fs p a tree, l.Fresh fs → l.HasArtifact p a → Q fs →
      Q (stateAfter (writeArtifact tree a) fs))
    (fresh : l.Fresh fs) (isSource : ∀ s ∈ timed, l.IsSource s.2) (start : Q fs) :
    Q (stateAfter (buildTimed l.root l.buildDirectory results timed) fs) := by
  refine (buildTimed_induction (Q := fun fs => l.Fresh fs ∧ Q fs) ?_ ?_ ⟨fresh, start⟩).2
  · rintro fs d ⟨fresh, holds⟩
    exact ⟨(fresh.after_waited d).1, wait fs d holds⟩
  · rintro fs ⟨d, source⟩ mem ⟨fresh, holds⟩
    refine ⟨(fresh.after_buildFile (isSource _ mem)).1, ?_⟩
    obtain same | ⟨a, tree, placed, same⟩ := buildFile_cases l.root l.buildDirectory source fs
    · rwa [same]
    · rw [same]
      exact write fs source a tree fresh ⟨isSource _ mem, fresh.here ▸ placed⟩ holds

/-- No two sources that are there would have one artifact. -/
def Unshared (P : Project) (fs : FileStore) : Prop :=
  ∀ {names names' c c' m m'}, P.Takes names → P.Takes names' →
    fs.entry? (P.root ++ names) = some (.file c m) →
    fs.entry? (P.root ++ names') = some (.file c' m') →
    artifactWay names = artifactWay names' → names = names'

/-- The artifact for a way to a source. -/
def artifact (P : Project) (names : List String) : Path :=
  ⟨P.buildPlace.anchor, P.buildPlace.names ++ artifactWay names⟩

theorem route_artifact_of_way (isNames : ∀ name ∈ names, IsName name) :
    route here (P.artifact names) = P.place ++ artifactWay names := by
  have place : route here P.buildPlace = P.place := route_buildPlace
  rw [← place]
  exact route_names here P.buildPlace (down_of_names (isName_artifactWay isNames))

theorem written_artifact (isNames : ∀ name ∈ names, IsName name) : (P.artifact names).Written := by
  intro name mem
  obtain mem | mem := List.mem_append.1 mem
  · unfold buildPlace ProjectConfig.buildPlace Path.join at mem
    split at mem
    · exact Path.written_ofText _ name mem
    · obtain mem | mem := List.mem_append.1 mem
      · exact .inr (P.names name mem)
      · exact Path.written_ofText _ name mem
  · exact .inr (isName_artifactWay isNames name mem)

/-- With standard settings the build directory is called something else than the file with settings: none of
    the directories that are made for an artifact is where that file would be. -/
theorem settings_apart (standard : P.config = .standard) (isNames : ∀ name ∈ names, IsName name) :
    ∀ front, front <+: (P.artifact names).parent.names →
      P.settings ≠ route here ⟨(P.artifact names).parent.anchor, front⟩ := by
  have place : P.buildPlace = ⟨.root, P.root ++ [".xidl-build"]⟩ := by
    have isName : IsName ".xidl-build" := ⟨by decide, by decide, by decide, by decide⟩
    have built : P.config.buildDirectory = ".xidl-build" := by rw [standard]; rfl
    rw [buildPlace, ProjectConfig.buildPlace, built, Path.ofText_name isName]
    rfl
  intro front behind same
  have within : front <+: P.root ++ ".xidl-build" :: artifactWay names := by
    apply behind.trans
    rw [Path.parent, artifact, place, List.append_assoc]
    exact List.dropLast_prefix _
  have down : ".." ∉ front := by
    intro mem
    obtain mem | mem := List.mem_append.1 (within.subset mem)
    · exact down_of_names P.names mem
    · obtain up | mem := List.mem_cons.1 mem
      · exact absurd up (by decide)
      · exact down_of_names (isName_artifactWay isNames) mem
  have anchor : (P.artifact names).parent.anchor = .root := by rw [Path.parent, artifact, place]
  rw [anchor, route_root down] at same
  rw [← same, settings, List.prefix_append_right_inj] at within
  exact absurd (List.cons_prefix_cons.1 within).1 (by decide)

/-- The path is the way over these names to a source that is there. -/
structure IsSource (P : Project) (fs : FileStore) (p : Path) (names : List String) : Prop where
  path : p = ⟨.root, P.root ++ names⟩
  takes : P.Takes names
  isNames : ∀ name ∈ names, IsName name
  file : ∃ c m, fs.entry? (P.root ++ names) = some (.file c m)

theorem Takes.isSource (takes : P.Takes names) (listed : fs.Listed)
    (file : fs.entry? (P.root ++ names) = some (.file c m)) :
    P.IsSource fs ⟨.root, P.root ++ names⟩ names :=
  ⟨rfl, takes, fun name mem => listed.names_of_entry file name (List.mem_append_right _ mem), c, m, file⟩

theorem IsSource.route_eq (source : P.IsSource fs p names) : route here p = P.root ++ names := by
  have below := route_names here P.directory (down_of_names source.isNames)
  rw [route_directory] at below
  rw [source.path]
  exact below

theorem IsSource.artifact_eq (source : P.IsSource fs p names)
    (placed : artifactPath here p P.directory P.buildPlace = .ok a) :
    a = P.artifact names ∧ route here a = P.place ++ artifactWay names := by
  have isNames : ∀ name ∈ route here p, IsName name := by
    rw [source.route_eq]
    exact List.forall_mem_append.2 ⟨P.names, source.isNames⟩
  obtain ⟨way, below, rfl, -⟩ := route_artifact isNames placed
  rw [source.route_eq, route_directory] at below
  rw [← List.append_cancel_left below]
  exact ⟨rfl, route_artifact_of_way source.isNames⟩

section Built

variable (sound : P.Sound fs) (there : fs.hasDirectory P.directory = true)
  (found : findSources fs P.config P.directory = .ok sources)

include sound there found

theorem mem_sources_iff : p ∈ sources ↔ ∃ names, P.IsSource fs p names := by
  rw [mem_findSources_iff sound.tree sound.listed P.inward there found]
  simp only [takes_iff, route_directory]
  constructor
  · rintro ⟨names, rfl, takes, c, m, file⟩
    exact ⟨names, takes.isSource sound.listed file⟩
  · rintro ⟨names, path, takes, -, file⟩
    exact ⟨names, path, takes, file⟩

/-- The sources that are there are a layout with fresh artifacts. -/
theorem exists_layout (unshared : P.Unshared fs) : ∃ distinct apart,
    (P.config.layout fs.here P.directory sources distinct apart).Fresh fs := by
  have distinct : ∀ {p q a b}, p ∈ sources → q ∈ sources →
      artifactPath fs.here p P.directory (P.config.buildPlace P.directory) = .ok a →
      artifactPath fs.here q P.directory (P.config.buildPlace P.directory) = .ok b →
      route fs.here a = route fs.here b → route fs.here p = route fs.here q := by
    intro p q a b mem mem' placed placed' same
    obtain ⟨names, source⟩ := (mem_sources_iff sound there found).1 mem
    obtain ⟨names', source'⟩ := (mem_sources_iff sound there found).1 mem'
    rw [(source.artifact_eq placed).2, (source'.artifact_eq placed').2, List.append_right_inj] at same
    obtain ⟨c, m, file⟩ := source.file
    obtain ⟨c', m', file'⟩ := source'.file
    rw [source.route_eq, source'.route_eq, unshared source.takes source'.takes file file' same]
  have apart : ∀ {p q a}, p ∈ sources → q ∈ sources →
      artifactPath fs.here p P.directory (P.config.buildPlace P.directory) = .ok a →
      route fs.here a ≠ route fs.here q := apart_of_sources sound.listed found
  -- An artifact newer than its source stands for it, which is what a fresh layout asks.
  refine ⟨distinct, apart, rfl, sound.tree, ?_⟩
  intro p a content t has artifact
  obtain ⟨names, source⟩ := (mem_sources_iff sound there found).1 has.1
  obtain ⟨c, m, file⟩ := source.file
  have placed : artifactPath fs.here p P.directory P.buildPlace = .ok a := has.2
  have artifact : fs.entry? (route fs.here a) = some (.file content t) := artifact
  rw [(source.artifact_eq placed).2] at artifact
  refine ⟨sound.past artifactWay_ne_nil artifact, c, m, ?_, sound.stands source.takes file artifact⟩
  have place : route fs.here p = P.root ++ names := source.route_eq
  rw [← place] at file
  exact file

/-- A build changes nothing but artifacts. -/
theorem grows_buildTimed {timed : List (Nat × Path)} {results : FileResults}
    (unshared : P.Unshared fs) (isSource : ∀ s ∈ timed, s.2 ∈ sources) :
    fs.Grows (fun r => ∃ way, r = P.place ++ artifactWay way)
      (stateAfter (buildTimed P.directory P.buildPlace results timed) fs) := by
  obtain ⟨distinct, apart, fresh⟩ := exists_layout sound there found unshared
  have built : (P.config.layout fs.here P.directory sources distinct apart).Built fs
      (stateAfter (buildTimed P.directory P.buildPlace results timed) fs) :=
    fresh.after_buildTimed isSource
  apply built.2.weaken
  rintro r ⟨p, a, has, eq⟩
  obtain ⟨names, source⟩ := (mem_sources_iff sound there found).1 has.1
  exact ⟨names, eq.trans (source.artifact_eq has.2).2⟩

theorem listed_buildTimed {timed : List (Nat × Path)} {results : FileResults}
    (unshared : P.Unshared fs) (isSource : ∀ s ∈ timed, s.2 ∈ sources) :
    (stateAfter (buildTimed P.directory P.buildPlace results timed) fs).Listed := by
  obtain ⟨distinct, apart, fresh⟩ := exists_layout sound there found unshared
  apply fresh_buildTimed_induction (Q := Listed) _ _ fresh isSource sound.listed
  · intro fs d listed
    exact ⟨listed.once, listed.below, listed.names, listed.here⟩
  · intro fs' p a tree _ has listed
    obtain ⟨names, source⟩ := (mem_sources_iff sound there found).1 has.1
    have written : a.Written := (source.artifact_eq has.2).1 ▸ written_artifact source.isNames
    have made := listed.after_makeDirectories written.parent
    exact writeArtifact_induction (Q := Listed) listed made (made.after_writeBytes written)

/-- An artifact that is there after a build, where the one for a source belongs, stands for it. -/
theorem stands_buildTimed {timed : List (Nat × Path)} {results : FileResults} {content : List UInt8}
    (unshared : P.Unshared fs) (isSource : ∀ s ∈ timed, s.2 ∈ sources) (takes : P.Takes names)
    (file : entry? (stateAfter (buildTimed P.directory P.buildPlace results timed) fs) (P.root ++ names) =
      some (.file c m))
    (artifact : entry? (stateAfter (buildTimed P.directory P.buildPlace results timed) fs)
      (P.place ++ artifactWay names) = some (.file content t)) :
    t ≤ (stateAfter (buildTimed P.directory P.buildPlace results timed) fs).clock ∧
      (m < t → StandsFor content c) := by
  obtain ⟨distinct, apart, fresh⟩ := exists_layout sound there found unshared
  have built : (P.config.layout fs.here P.directory sources distinct apart).Fresh
      (stateAfter (buildTimed P.directory P.buildPlace results timed) fs) :=
    (fresh.after_buildTimed isSource).1
  -- The source was there before the build.
  have old := ((grows_buildTimed sound there found unshared isSource).file _ _ _ takes.not_artifact).1 file
  have grows : fs.Grows
      (P.config.layout fs.here P.directory sources distinct apart).IsArtifact
      (stateAfter (buildTimed P.directory P.buildPlace results timed) fs) :=
    (fresh.after_buildTimed isSource).2
  by_cases placed : (P.config.layout fs.here P.directory sources distinct apart).IsArtifact
      (P.place ++ artifactWay names)
  · -- The artifact is one of the layout, so it is the one of this source.
    obtain ⟨p, a, has, place⟩ := placed
    obtain ⟨names', source⟩ := (mem_sources_iff sound there found).1 has.1
    obtain ⟨c₀, m₀, file₀⟩ := source.file
    have same := place.trans (source.artifact_eq has.2).2
    obtain rfl := unshared takes source.takes old file₀ (List.append_cancel_left same)
    rw [place] at artifact
    obtain ⟨past, c', m', file', stands⟩ := built.sound has artifact
    have file' : entry? (stateAfter (buildTimed P.directory P.buildPlace results timed) fs)
        (route fs.here p) = some (.file c' m') := file'
    rw [source.route_eq, file] at file'
    cases file'
    exact ⟨past, stands⟩
  · -- Otherwise it is as it was before the build.
    have kept := (grows.file _ _ _ placed).1 artifact
    exact ⟨Int.le_trans (sound.past artifactWay_ne_nil kept) grows.clock,
      sound.stands takes old kept⟩

/-- The artifacts that a build leaves stand for their sources. -/
theorem after_buildTimed {timed : List (Nat × Path)} {results : FileResults}
    (unshared : P.Unshared fs) (isSource : ∀ s ∈ timed, s.2 ∈ sources) :
    P.Sound (stateAfter (buildTimed P.directory P.buildPlace results timed) fs) := by
  obtain ⟨distinct, apart, fresh⟩ := exists_layout sound there found unshared
  have sourceOf := fun {p} => (mem_sources_iff (p := p) sound there found).1
  have built : (P.config.layout fs.here P.directory sources distinct apart).Built fs
      (stateAfter (buildTimed P.directory P.buildPlace results timed) fs) :=
    fresh.after_buildTimed isSource
  have grows : fs.Grows (fun r => ∃ way, r = P.place ++ artifactWay way)
      (stateAfter (buildTimed P.directory P.buildPlace results timed) fs) :=
    grows_buildTimed sound there found unshared isSource
  -- What the build changes are artifacts of sources, so neither settings nor sources.
  refine sound.frame _ built.2.tree (listed_buildTimed sound there found unshared isSource) built.2.clock built.2.file ?_ ?_
  · rintro ⟨p, a, has, eq⟩
    obtain ⟨names, source⟩ := sourceOf has.1
    exact settings_ne_artifact (eq.trans (source.artifact_eq has.2).2)
  · rintro r content t ⟨p, a, has, place⟩ artifact
    obtain ⟨names, source⟩ := sourceOf has.1
    obtain rfl : r = P.place ++ artifactWay names := place.trans (source.artifact_eq has.2).2
    obtain ⟨c, m, file⟩ := source.file
    have still := (grows.file _ _ _ source.takes.not_artifact).2 file
    refine ⟨?_, ?_, ?_⟩
    · exact (stands_buildTimed sound there found unshared isSource source.takes still artifact).1
    · intro names' takes' same
      exact absurd same.symm (takes'.outside artifactWay_ne_nil)
    · intro names' c' m' takes' same file' newer
      rw [same] at artifact
      exact (stands_buildTimed sound there found unshared isSource takes' file' artifact).2 newer

/-- After a build without diagnostics every file that the settings stand for is without diagnostics. -/
theorem clean_of_built {timed : List (Nat × Path)} {results : FileResults} (unshared : P.Unshared fs)
    (all : timed.map Prod.snd = sources)
    (run : buildTimed P.directory P.buildPlace [] timed fs = .ok results fs')
    (clean : ∀ r ∈ results, r.2.errorCount = 0) (takes : P.Takes names)
    (file : fs'.entry? (P.root ++ names) = some (.file c m)) :
    ∃ tree, parseFile fs' ⟨.root, P.root ++ names⟩ = .ok ⟨tree, []⟩ := by
  obtain ⟨distinct, apart, fresh⟩ := exists_layout sound there found unshared
  have isSource : ∀ s ∈ timed, s.2 ∈ sources := fun s mem => all ▸ List.mem_map_of_mem mem
  have transparent := fresh.transparent isSource run
  have grows : fs.Grows _ (stateAfter (buildTimed P.directory P.buildPlace [] timed) fs) :=
    grows_buildTimed sound there found unshared isSource
  rw [stateAfter_ok run] at grows
  have old := (grows.file _ _ _ takes.not_artifact).1 file
  have mem : ⟨.root, P.root ++ names⟩ ∈ sources :=
    (mem_sources_iff sound there found).2 ⟨names, takes.isSource sound.listed old⟩
  obtain ⟨⟨tree, diagnostics⟩, looked, parsed⟩ := transparent.file _ (all.symm ▸ mem)
  obtain ⟨_, _, rfl, -⟩ := List.lookup_eq_some_iff.1 looked
  obtain rfl : diagnostics = [] := List.length_eq_zero_iff.1
    (clean (⟨.root, P.root ++ names⟩, ⟨tree, diagnostics⟩) (by simp))
  exact ⟨tree, parsed⟩

/-- Where there is no file with settings, a build makes none and no directory of that name. -/
theorem free_settings {timed : List (Nat × Path)} {results : FileResults} (unshared : P.Unshared fs)
    (isSource : ∀ s ∈ timed, s.2 ∈ sources) (standard : P.config = .standard)
    (free : fs.entry? P.settings = none) :
    entry? (stateAfter (buildTimed P.directory P.buildPlace results timed) fs) P.settings = none := by
  obtain ⟨distinct, apart, fresh⟩ := exists_layout sound there found unshared
  apply fresh_buildTimed_induction (Q := fun fs => fs.entry? P.settings = none) _ _ fresh isSource free
  · exact fun _ _ free => free
  · intro fs' p a tree fresh' has free
    obtain ⟨names, source⟩ := (mem_sources_iff sound there found).1 has.1
    obtain ⟨rfl, eq⟩ := source.artifact_eq has.2
    have made := free_makeDirectories fresh'.tree free (settings_apart standard source.isNames)
    apply writeArtifact_induction (Q := fun fs => fs.entry? P.settings = none) free made
    apply free_writeBytes made
    rw [route_artifact_of_way source.isNames]
    exact settings_ne_artifact

/-- After a build the settings that are loaded are the same, from any path to the project. -/
theorem loads_buildTimed {timed : List (Nat × Path)} {results : FileResults} (unshared : P.Unshared fs)
    (isSource : ∀ s ∈ timed, s.2 ∈ sources)
    (loaded : loadConfig fs (P.directory.join (.ofText configFileName)) = .ok P.config)
    (built : stateAfter (buildTimed P.directory P.buildPlace results timed) fs = fs') {d : Path}
    (there' : fs'.hasDirectory d = true) (same : route fs'.here d = P.root) :
    loadConfig fs' (d.join (.ofText configFileName)) = .ok P.config := by
  subst built
  have grows : fs.Grows (fun r => ∃ way, r = P.place ++ artifactWay way)
      (stateAfter (buildTimed P.directory P.buildPlace results timed) fs) :=
    grows_buildTimed sound there found unshared isSource
  rw [loadConfig_eq_ok_iff grows.tree there', same]
  rw [loadConfig_eq_ok_iff sound.tree there, route_directory] at loaded
  obtain ⟨content, t, cs, file, read⟩ | ⟨free, standard⟩ := loaded
  · have quiet : ¬ ∃ way, P.settings = P.place ++ artifactWay way := by
      rintro ⟨way, same⟩
      exact settings_ne_artifact same
    exact .inl ⟨content, t, cs, (grows.file _ _ _ quiet).2 file, read⟩
  · exact .inr ⟨free_settings sound there found unshared isSource standard free, standard⟩

/-- After a build without diagnostics the project can be checked from any path to it, and what is found is
    without diagnostics. -/
theorem checks_of_built {timed : List (Nat × Path)} {results : FileResults} (unshared : P.Unshared fs)
    (loaded : loadConfig fs (P.directory.join (.ofText configFileName)) = .ok P.config)
    (all : timed.map Prod.snd = sources)
    (run : buildTimed P.directory P.buildPlace [] timed fs = .ok results fs')
    (clean : ∀ r ∈ results, r.2.errorCount = 0) {d : Path} (there' : fs'.hasDirectory d = true)
    (same : route fs'.here d = P.root) :
    loadConfig fs' (d.join (.ofText configFileName)) = .ok P.config ∧
      ∃ found', findSources fs' P.config d = .ok found' ∧
        ∀ q ∈ found', ∃ tree, parseFile fs' q = .ok ⟨tree, []⟩ := by
  have isSource : ∀ s ∈ timed, s.2 ∈ sources := fun s mem => all ▸ List.mem_map_of_mem mem
  have sound' : P.Sound (stateAfter (buildTimed P.directory P.buildPlace [] timed) fs) :=
    after_buildTimed sound there found unshared isSource
  rw [stateAfter_ok run] at sound'
  obtain ⟨located, -⟩ := locate_of_hasDirectory there'
  obtain ⟨found', listed'⟩ : ∃ found', findSources fs' P.config d = .ok found' := by
    have searchable := findSources_ok_iff.1 ⟨sources, found⟩
    have resolvable := ProjectConfig.isUnresolvable_of_hasDirectory there ▸ searchable.resolvable
    exact findSources_ok_iff.2 ⟨(ProjectConfig.isUnresolvable_of_hasDirectory there').trans resolvable,
      searchable.readable, rfl⟩
  refine ⟨loads_buildTimed sound there found unshared isSource loaded (stateAfter_ok run) there' same,
    found', listed', fun q mem => ?_⟩
  obtain ⟨names, rfl, takes, c, t, file⟩ :=
    (mem_findSources_iff sound'.tree sound'.listed P.inward there' listed').1 mem
  have foundHere := (find_below sound'.tree located takes.down).2 file
  have takes := takes_iff.1 (takes.of_route (same.trans route_directory.symm))
  rw [same] at file
  obtain ⟨tree, parsed⟩ := clean_of_built sound there found unshared all run clean takes file
  -- Both paths lead to one file, and only its bytes are parsed.
  obtain ⟨c', t', cs, found, decoded, parsed⟩ := parseFile_eq_ok_iff.1 parsed
  have entry := entry?_of_find found
  rw [route_root (down_of_names (sound'.listed.names_of_entry file)), file] at entry
  cases entry
  exact ⟨tree, parseFile_eq_ok_iff.2 ⟨c, t, cs, foundHere, decoded, parsed⟩⟩

end Built

end Project

end IdlFront
