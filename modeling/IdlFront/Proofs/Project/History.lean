import IdlFront.Proofs.Project.Cache

/-! # Histories of projects

Artifacts never show: over all that can happen to a project, a build gives what parsing its sources gives.

* `buildTimed` — builds during which time passes.
* `Layout.Event`, `Layout.history` — what can happen to a project, and the store it leads to.
* `Layout.Fresh.after_history` — artifacts are fresh after every history.
* `builds_transparent` — what builds give at the end of every history.
-/

namespace IdlFront

open FileStore

/-! ## Results by path -/

section Results

variable {fs : FileStore} {sources : List Path} {results results' : FileResults} {p q : Path}

theorem lookup_put {r : ParseResult} :
    (results.put p r).lookup q = if q = p then some r else results.lookup q := by
  induction results with
  | nil =>
    by_cases same : q = p
    · simp [FileResults.put, same]
    · have skip : (q == p) = false := by simp [same]
      simp [FileResults.put, List.lookup_cons, same, skip]
  | cons head rest ih =>
    obtain ⟨k, old⟩ := head
    unfold FileResults.put
    by_cases first : k = p
    · subst first
      rw [if_pos rfl]
      by_cases same : q = k
      · simp [same]
      · have skip : (q == k) = false := by simp [same]
        simp [List.lookup_cons, same, skip]
    · rw [if_neg first]
      by_cases found : q = k
      · subst found
        rw [if_neg first]
        simp
      · have skip : (q == k) = false := by simp [found]
        rw [List.lookup_cons, List.lookup_cons, skip]
        exact ih

/-- The results that parsing sources adds to others are the results of parsing them. -/
theorem lookup_of_foldlM
    (h : sources.foldlM (fun results source => return results.put source (← parseFile fs source))
      results = .ok results')
    (parsed : ∀ q r, results.lookup q = some r → parseFile fs q = .ok r)
    (mem : p ∈ sources ∨ ∃ r, results.lookup p = some r) :
    ∃ r, results'.lookup p = some r ∧ parseFile fs p = .ok r := by
  induction sources generalizing results with
  | nil =>
    cases h
    obtain absurd | ⟨r, found⟩ := mem
    · cases absurd
    · exact ⟨r, found, parsed p r found⟩
  | cons source sources ih =>
    rw [List.foldlM_cons] at h
    cases first : parseFile fs source with
    | error e =>
      rw [first] at h
      cases h
    | ok result =>
      rw [first] at h
      apply ih h
      · intro q r found
        rw [lookup_put] at found
        by_cases same : q = source
        · rw [if_pos same] at found
          cases found
          rw [same]
          exact first
        · rw [if_neg same] at found
          exact parsed q r found
      · -- The path is the one just parsed, or one of the others, or there already.
        by_cases same : p = source
        · exact .inr ⟨result, by rw [lookup_put, if_pos same]⟩
        · rw [List.mem_cons, or_iff_right same] at mem
          rw [lookup_put, if_neg same]
          exact mem

theorem lookup_of_parseFiles (h : parseFiles fs sources = .ok results) (mem : p ∈ sources) :
    ∃ r, results.lookup p = some r ∧ parseFile fs p = .ok r :=
  lookup_of_foldlM h (fun _ _ => nofun) (.inl mem)

end Results

/-! ## Time -/

/-- The store some time later. -/
def FileStore.waited (d : Nat) (fs : FileStore) : FileStore := { fs with clock := fs.clock + d }

theorem FileStore.grows_waited {changed : Route → Prop} {fs : FileStore} (d : Nat)
    (tree : fs.IsTree) : fs.Grows changed (fs.waited d) where
  here := rfl
  directory _ isDirectory := isDirectory
  clock := by
    unfold waited
    simp only
    omega
  tree := ⟨tree.home, tree.parent⟩
  file _ _ _ _ := Iff.rfl

/-- The results for the sources of a list, added to results there are. Before each source, some time
    passes. -/
def buildTimed (root buildDirectory : Path) :
    FileResults → List (Nat × Path) → BuildAction FileResults
  | results, [] => fun fs => .ok results fs
  | results, (d, source) :: sources => fun fs =>
    match buildFile root buildDirectory source (fs.waited d) with
    | .error e fs' => .error e fs'
    | .ok result fs' => buildTimed root buildDirectory (results.put source result) sources fs'

section Timed

variable {root buildDirectory source : Path} {d : Nat} {sources : List (Nat × Path)}
  {results : FileResults} {result : ParseResult} {failure : BuildFailure} {fs fs' : FileStore}

theorem buildTimed_cons_ok
    (run : buildFile root buildDirectory source (fs.waited d) = .ok result fs') :
    buildTimed root buildDirectory results ((d, source) :: sources) fs =
      buildTimed root buildDirectory (results.put source result) sources fs' := by
  simp only [buildTimed, run]

theorem buildTimed_cons_error
    (run : buildFile root buildDirectory source (fs.waited d) = .error failure fs') :
    buildTimed root buildDirectory results ((d, source) :: sources) fs = .error failure fs' := by
  simp only [buildTimed, run]

/-- What passing time and builds of single files keep, builds keep. -/
theorem buildTimed_induction {Q : FileStore → Prop} (wait : ∀ fs d, Q fs → Q (fs.waited d))
    (build : ∀ fs, ∀ s ∈ sources, Q fs → Q (stateAfter (buildFile root buildDirectory s.2) fs))
    (start : Q fs) : Q (stateAfter (buildTimed root buildDirectory results sources) fs) := by
  induction sources generalizing fs results with
  | nil => exact start
  | cons s sources ih =>
    obtain ⟨d, source⟩ := s
    obtain ⟨first, others⟩ := List.forall_mem_cons.1 fun s mem fs => build fs s mem
    have one := first (fs.waited d) (wait fs d start)
    unfold stateAfter
    cases run : buildFile root buildDirectory source (fs.waited d) with
    | error e fs' =>
      rw [stateAfter_error run] at one
      rwa [buildTimed_cons_error run]
    | ok result fs' =>
      rw [stateAfter_ok run] at one
      rw [buildTimed_cons_ok run]
      exact ih (fun fs s mem => others s mem fs) one

/-- A build in no time. -/
theorem buildTimed_zero {sources : List Path} :
    buildTimed root buildDirectory results (sources.map (0, ·)) =
      buildFilesFrom root buildDirectory results sources := by
  induction sources generalizing results with
  | nil => rfl
  | cons source sources ih =>
    funext fs
    -- No time passes, so the source is built in the store as it is.
    have now : fs.waited 0 = fs := by simp [waited]
    rw [List.map_cons]
    cases run : buildFile root buildDirectory source fs with
    | error e fs' =>
      rw [buildTimed_cons_error (now.symm ▸ run)]
      simp only [buildFilesFrom, run]
    | ok result fs' =>
      rw [buildTimed_cons_ok (now.symm ▸ run), ih]
      simp only [buildFilesFrom, run]

end Timed

namespace Layout

variable {l : Layout} {fs fs' : FileStore} {sources : List (Nat × Path)} {results results' : FileResults}

theorem Fresh.after_waited (fresh : l.Fresh fs) (d : Nat) : l.Built fs (fs.waited d) :=
  ⟨fresh.grow (grows_waited d fresh.tree), grows_waited d fresh.tree⟩

theorem Fresh.after_buildTimed (fresh : l.Fresh fs) (isSource : ∀ s ∈ sources, l.IsSource s.2) :
    l.Built fs (stateAfter (buildTimed l.root l.buildDirectory results sources) fs) := by
  apply buildTimed_induction (Q := l.Built fs) _ _ fresh.built
  · intro fs' d built
    obtain ⟨later, waits⟩ := built.1.after_waited d
    exact ⟨later, built.2.trans waits⟩
  · intro fs' s mem built
    obtain ⟨later, grows⟩ := built.1.after_buildFile (isSource s mem)
    exact ⟨later, built.2.trans grows⟩

/-- A build that returns adds what parsing the sources adds. -/
theorem Fresh.foldlM_eq (fresh : l.Fresh fs) (isSource : ∀ s ∈ sources, l.IsSource s.2)
    (h : buildTimed l.root l.buildDirectory results sources fs = .ok results' fs') :
    (sources.map Prod.snd).foldlM
      (fun results source => return results.put source (← parseFile fs' source)) results =
        .ok results' := by
  induction sources generalizing fs results with
  | nil =>
    cases h
    rfl
  | cons s sources ih =>
    obtain ⟨d, source⟩ := s
    obtain ⟨first, others⟩ := List.forall_mem_cons.1 isSource
    obtain ⟨later, -⟩ := fresh.after_waited d
    have built := later.after_buildFile first
    cases run : buildFile l.root l.buildDirectory source (fs.waited d) with
    | error e fs₁ =>
      rw [buildTimed_cons_error run] at h
      cases h
    | ok result fs₁ =>
      rw [buildTimed_cons_ok run] at h
      rw [stateAfter_ok run] at built
      -- The source is parsed before the rest is built, but the rest leaves it as it is.
      have rest : l.Built fs₁ (stateAfter (buildTimed _ _ (results.put source result) sources) fs₁) :=
        built.1.after_buildTimed others
      rw [stateAfter_ok h] at rest
      have early := parseFile_of_grows later.here first built.2 (later.parseFile_eq first run)
      have parsed := parseFile_of_grows built.1.here first rest.2 early
      rw [List.map_cons, List.foldlM_cons, parsed]
      exact ih built.1 others h

/-! ## Histories -/

/-- What can happen to a project: time passes, directories are made, a source is written, or sources
    are built, with some time before each of them. -/
inductive Event where
  | wait (d : Nat)
  | makeDirectories (p : Path)
  | write (source : Path) (content : List UInt8)
  | build (sources : List (Nat × Path))

/-- Only sources are written and built. -/
def Allowed (l : Layout) : Event → Prop
  | .wait _ => True
  | .makeDirectories _ => True
  | .write source _ => l.IsSource source
  | .build sources => ∀ s ∈ sources, l.IsSource s.2

/-- The store after an event, also where it is refused or ends early. -/
def after (l : Layout) (fs : FileStore) : Event → FileStore
  | .wait d => fs.waited d
  | .makeDirectories p => stateAfter (FileStore.makeDirectories p) fs
  | .write source content => stateAfter (writeBytes source content) fs
  | .build sources => stateAfter (buildTimed l.root l.buildDirectory [] sources) fs

/-- The store after events one after the other. -/
def history (l : Layout) (events : List Event) (fs : FileStore) : FileStore := events.foldl l.after fs

theorem Fresh.after_event (fresh : l.Fresh fs) {event : Event} (allowed : l.Allowed event) :
    l.Fresh (l.after fs event) := by
  cases event with
  | wait d => exact (fresh.after_waited d).1
  | makeDirectories p => exact fresh.grow (grows_makeDirectories fresh.tree)
  | write source content => exact fresh.after_writeBytes allowed
  | build sources => exact (fresh.after_buildTimed allowed).1

theorem Fresh.after_history (fresh : l.Fresh fs) {events : List Event}
    (allowed : ∀ event ∈ events, l.Allowed event) : l.Fresh (l.history events fs) := by
  induction events generalizing fs with
  | nil => exact fresh
  | cons event events ih =>
    obtain ⟨first, others⟩ := List.forall_mem_cons.1 allowed
    exact ih (fresh.after_event first) others

/-- Artifacts are fresh where there are none. -/
theorem fresh_of_none (here : fs.here = l.here) (tree : fs.IsTree)
    (none : ∀ r c t, l.IsArtifact r → fs.entry? r ≠ some (.file c t)) : l.Fresh fs where
  here := here
  tree := tree
  sound := by
    intro p a content t has found
    exact absurd found (none _ _ _ ⟨p, a, has, rfl⟩)

/-! ## Transparency -/

/-- The results of a build between two stores are those of parsing its sources, and the build leaves
    every source as it was. -/
structure Transparent (l : Layout) (fs fs' : FileStore) (sources : List Path)
    (results : FileResults) : Prop where
  files : parseFiles fs' sources = .ok results
  file : ∀ p ∈ sources, ∃ result, results.lookup p = some result ∧ parseFile fs' p = .ok result
  unchanged : ∀ p c m, l.IsSource p →
    (fs'.entry? (route l.here p) = some (.file c m) ↔ fs.entry? (route l.here p) = some (.file c m))

theorem Fresh.transparent (fresh : l.Fresh fs) (isSource : ∀ s ∈ sources, l.IsSource s.2)
    (h : buildTimed l.root l.buildDirectory [] sources fs = .ok results fs') :
    l.Transparent fs fs' (sources.map Prod.snd) results := by
  have files : parseFiles fs' (sources.map Prod.snd) = .ok results := fresh.foldlM_eq isSource h
  refine ⟨files, fun p mem => lookup_of_parseFiles files mem, fun p c m source => ?_⟩
  have built : l.Built fs (stateAfter (buildTimed l.root l.buildDirectory [] sources) fs) :=
    fresh.after_buildTimed isSource
  rw [stateAfter_ok h] at built
  exact built.2.file _ c m (not_isArtifact source)

end Layout

/-- Let a project start without artifacts, and let its sources be written and built in any order, with
    time passing before and during builds. Every build that returns gives for its sources what parsing
    them gives. -/
theorem builds_transparent (l : Layout) {start : FileStore} (here : start.here = l.here)
    (tree : start.IsTree) (none : ∀ r c t, l.IsArtifact r → start.entry? r ≠ some (.file c t))
    {events : List Layout.Event} (allowed : ∀ event ∈ events, l.Allowed event) :
    (∀ {sources results fs'}, (∀ p ∈ sources, l.IsSource p) →
      buildFiles sources l.root l.buildDirectory (l.history events start) = .ok results fs' →
        l.Transparent (l.history events start) fs' sources results) ∧
    ∀ {sources results fs'}, (∀ s ∈ sources, l.IsSource s.2) →
      buildTimed l.root l.buildDirectory [] sources (l.history events start) = .ok results fs' →
        l.Transparent (l.history events start) fs' (sources.map Prod.snd) results := by
  have fresh := (Layout.fresh_of_none here tree none).after_history allowed
  constructor
  · intro sources results fs' isSource built
    rw [buildFiles, ← buildTimed_zero] at built
    have timed : ∀ s ∈ sources.map ((0 : Nat), ·), l.IsSource s.2 := by
      intro s mem
      obtain ⟨p, source, rfl⟩ := List.mem_map.1 mem
      exact isSource p source
    have transparent := fresh.transparent timed built
    rw [List.map_map] at transparent
    have same : sources.map (Prod.snd ∘ ((0 : Nat), ·)) = sources := List.map_id sources
    rw [same] at transparent
    exact transparent
  · intro sources results fs' isSource built
    exact fresh.transparent isSource built

/-- A project of one source. -/
def loneProject : Layout where
  here := []
  root := ⟨.root, []⟩
  buildDirectory := ⟨.root, ["b"]⟩
  IsSource p := p = ⟨.root, ["s"]⟩
  distinct := by
    rintro p q a b rfl rfl - - -
    rfl
  apart := by
    rintro p q a rfl rfl placed
    cases placed
    decide

/-- Its store when nothing was written into the source and some time has passed. -/
def loneStore : FileStore := loneProject.history [.write ⟨.root, ["s"]⟩ [], .wait 1] ⟨[], [], 0⟩

/-- Its store when the source was built after that. -/
def loneBuilt : FileStore :=
  { loneStore with
    entries := loneStore.entries ++ [(["b"], .directory 1),
      (["b", "s.xidl.json"], .file (Text.Utf8.encode (Artifact.serialize .empty).toList) 1)] }

theorem buildFile_lone :
    buildFile loneProject.root loneProject.buildDirectory ⟨.root, ["s"]⟩ loneStore =
      .ok ⟨.empty, []⟩ loneBuilt := by
  have parsed : parseFile loneStore ⟨.root, ["s"]⟩ = .ok ⟨.empty, []⟩ :=
    parseFile_eq_ok_iff.2 ⟨[], 0, [], rfl, rfl, parse_nothing⟩
  have made : makeDirectories ⟨.root, ["b"]⟩ loneStore =
      .ok () { loneStore with entries := loneStore.entries ++ [(["b"], .directory 1)] } := by
    rw [makeDirectories]
    rfl
  exact buildFile_of_steps (a := ⟨.root, ["b", "s.xidl.json"]⟩) rfl rfl parsed rfl made rfl

/-- The artifact is newer than the source now and is taken for it. -/
theorem buildFile_loneBuilt :
    buildFile loneProject.root loneProject.buildDirectory ⟨.root, ["s"]⟩ loneBuilt =
      .ok ⟨.empty, []⟩ loneBuilt := by
  have placed : artifactPath loneBuilt.here ⟨.root, ["s"]⟩ loneProject.root
      loneProject.buildDirectory = .ok ⟨.root, ["b", "s.xidl.json"]⟩ := rfl
  have newer : isUpToDate loneBuilt ⟨.root, ["s"]⟩ ⟨.root, ["b", "s.xidl.json"]⟩ = .ok true := rfl
  have read : readArtifact loneBuilt ⟨.root, ["b", "s.xidl.json"]⟩ = .ok .empty :=
    readArtifact_of_bytes (integral_of_parse parse_nothing) rfl
  simp only [buildFile, placed, cachedResult, newer, read]
  rfl

theorem builds_transparent_cached :
    buildFiles [⟨.root, ["s"]⟩] loneProject.root loneProject.buildDirectory loneBuilt =
        .ok [(⟨.root, ["s"]⟩, ⟨.empty, []⟩)] loneBuilt ∧
      loneProject.Transparent loneBuilt loneBuilt [⟨.root, ["s"]⟩]
        [(⟨.root, ["s"]⟩, ⟨.empty, []⟩)] := by
  -- The store is what a first build leaves behind, so the second build reads the artifact.
  have history : loneProject.history
      [.write ⟨.root, ["s"]⟩ [], .wait 1, .build [(0, ⟨.root, ["s"]⟩)]] ⟨[], [], 0⟩ = loneBuilt := by
    have now : buildFile loneProject.root loneProject.buildDirectory ⟨.root, ["s"]⟩
        (loneStore.waited 0) = .ok ⟨.empty, []⟩ loneBuilt := buildFile_lone
    show stateAfter (buildTimed _ _ [] [(0, ⟨.root, ["s"]⟩)]) loneStore = loneBuilt
    rw [stateAfter, buildTimed_cons_ok now]
    rfl
  have built : buildFiles [⟨.root, ["s"]⟩] loneProject.root loneProject.buildDirectory loneBuilt =
      .ok [(⟨.root, ["s"]⟩, ⟨.empty, []⟩)] loneBuilt := by
    simp only [buildFiles, buildFilesFrom, buildFile_loneBuilt]
    rfl
  have noEntry : ∀ r e, FileStore.entry? ⟨[], [], 0⟩ r = some e → r = [] := by
    intro r e found
    by_contra below
    unfold entry? at found
    rw [if_neg below] at found
    cases found
  have tree : IsTree ⟨[], [], 0⟩ := by
    refine ⟨⟨0, rfl⟩, fun r e found => ?_⟩
    rw [noEntry r e found]
    exact ⟨0, rfl⟩
  have none : ∀ r c t, loneProject.IsArtifact r →
      FileStore.entry? ⟨[], [], 0⟩ r ≠ some (.file c t) := by
    intro r c t _ found
    rw [noEntry r _ found] at found
    cases found
  have allowed : ∀ event ∈ [Layout.Event.write ⟨.root, ["s"]⟩ [], .wait 1,
      .build [(0, ⟨.root, ["s"]⟩)]], loneProject.Allowed event := by
    simp [Layout.Allowed, loneProject]
  have transparent := builds_transparent loneProject rfl tree none allowed
  rw [history] at transparent
  exact ⟨built, transparent.1 (fun p mem => List.mem_singleton.1 mem) built⟩

end IdlFront
