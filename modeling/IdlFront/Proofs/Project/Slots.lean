import IdlFront.Proofs.Project.History
import IdlFront.Proofs.Project.Selection

/-! # Places of artifacts

* `artifactPath_eq` — an artifact is as far below the build directory as its source is below the root,
  under the name that has only the suffix replaced.
* `Path.SameSlot` — two files of one directory that differ in the suffix only.
* `ProjectConfig.layout` — the selected sources as a layout, if their artifacts are apart.
* `artifacts_apart` — artifacts are apart just where no two sources share a slot, and then each holds
  the tree of its source.
* `twins_share_artifact` — two sources that share a slot and so an artifact.
-/

namespace IdlFront

open FileStore

/-! ## Names of artifacts -/

/-- The name of the artifact of a source with this name. -/
def artifactName (name : String) : String :=
  String.ofList (Path.stemOf name.toList) ++ artifactSuffix

theorem stemOf_subset (cs : List Char) : Path.stemOf cs ⊆ cs := by
  unfold Path.stemOf
  simp only
  split
  · exact List.take_subset _ _
  · exact List.Subset.refl cs

theorem isName_artifactName {name : String} (noSlash : '/' ∉ name.toList) :
    IsName (artifactName name) := by
  have letters : (artifactName name).toList = Path.stemOf name.toList ++ artifactSuffix.toList := by
    simp [artifactName]
  have long : 10 ≤ (artifactName name).toList.length := by
    rw [letters, List.length_append]
    exact Nat.le_add_left 10 _
  refine ⟨?_, ?_, ?_, ?_⟩
  · intro same
    simp [same] at long
  · rw [letters, List.mem_append, not_or]
    exact ⟨fun mem => noSlash (stemOf_subset _ mem), by decide⟩
  · intro same
    simp [same] at long
  · intro same
    simp [same] at long

theorem artifactName_inj {name other : String} : artifactName name = artifactName other ↔
    Path.stemOf name.toList = Path.stemOf other.toList := by
  unfold artifactName
  constructor
  · intro same
    have letters := congrArg String.toList same
    simpa using letters
  · intro same
    rw [same]

/-- The way to the artifact of a source, for the way to the source. -/
def artifactWay (way : List String) : List String :=
  way.dropLast ++ [artifactName (way.getLast?.getD "")]

section Ways

variable {way : List String}

theorem isName_artifactWay (names : ∀ name ∈ way, IsName name) :
    ∀ name ∈ artifactWay way, IsName name := by
  intro name mem
  obtain mem | mem := List.mem_append.1 mem
  · exact names name (List.dropLast_subset _ mem)
  · rw [List.mem_singleton.1 mem]
    apply isName_artifactName
    cases last : way.getLast? with
    | none => decide
    | some name => exact (names name (List.mem_of_getLast? last)).noSlash

theorem down_of_names (names : ∀ name ∈ way, IsName name) : ".." ∉ way :=
  fun mem => (names _ mem).notUp rfl

variable {here : Route} {source root place a : Path}

/-- The artifact of a source below the root. -/
theorem artifactPath_eq (plain : (source.hasNull || root.hasNull) = false)
    (below : route here source = route here root ++ way)
    (names : ∀ name ∈ way, IsName name) : artifactPath here source root place =
      .ok ⟨place.anchor, place.names ++ artifactWay way⟩ := by
  have prefixed : (root.resolve here).names <+: (source.resolve here).names := ⟨way, below.symm⟩
  have rest : (source.resolve here).names.drop (root.resolve here).names.length = way := by
    have split : (source.resolve here).names = (root.resolve here).names ++ way := below
    rw [split, List.drop_left]
  have relative : (source.resolve here).relativeTo? (root.resolve here) = some ⟨.here, way⟩ := by
    unfold Path.relativeTo?
    rw [if_pos ⟨rfl, prefixed⟩, rest]
  have suffixed : Path.ofText (Path.stem ⟨.here, way⟩ ++ artifactSuffix) =
      ⟨.here, [artifactName (way.getLast?.getD "")]⟩ :=
    Path.ofText_name (isName_artifactWay names _ (List.mem_append_right _ (List.mem_singleton_self _)))
  unfold artifactPath
  rw [plain, relative]
  simp only [suffixed]
  simp [Path.join, Path.parent, Path.isAbsolute, artifactWay]

theorem below_of_artifactPath (h : artifactPath here source root place = .ok a) :
    ∃ way, route here source = route here root ++ way := by
  obtain ⟨-, way, relative, -⟩ := artifactPath_eq_ok h
  unfold Path.relativeTo? at relative
  split at relative
  · next inside =>
    obtain ⟨way, split⟩ := inside.2
    exact ⟨way, split.symm⟩
  · cases relative

end Ways

/-- Two files of one directory with one name up to the suffix. -/
def Path.SameSlot (here : Route) (p q : Path) : Prop :=
  (p.resolve here).parent = (q.resolve here).parent ∧ (p.resolve here).stem = (q.resolve here).stem

/-- The place of an artifact is below the build directory. -/
theorem route_artifact {here : Route} {source root place a : Path}
    (names : ∀ name ∈ route here source, IsName name)
    (placed : artifactPath here source root place = .ok a) :
    ∃ way, route here source = route here root ++ way ∧
      a = ⟨place.anchor, place.names ++ artifactWay way⟩ ∧
      route here a = route here place ++ artifactWay way := by
  obtain ⟨way, below⟩ := below_of_artifactPath placed
  have names : ∀ name ∈ way, IsName name := fun name mem =>
    names name (below ▸ List.mem_append_right _ mem)
  rw [artifactPath_eq (artifactPath_eq_ok placed).1 below names] at placed
  cases placed
  exact ⟨way, below, rfl, route_names here place (down_of_names (isName_artifactWay names))⟩

/-- Two ways lead to one artifact just if their sources share a slot. -/
theorem artifactWay_inj {here : Route} {p q root : Path} {way way' : List String}
    (below : route here p = route here root ++ way) (below' : route here q = route here root ++ way')
    (some : way ≠ []) (some' : way' ≠ []) :
    artifactWay way = artifactWay way' ↔ p.SameSlot here q := by
  have parent : ∀ {p : Path} {way}, route here p = route here root ++ way → way ≠ [] →
      (p.resolve here).parent = ⟨.root, route here root ++ way.dropLast⟩ := by
    intro p way below some
    have names : (p.resolve here).names = route here root ++ way := below
    rw [Path.parent, names, List.dropLast_append_of_ne_nil some]
    rfl
  have stem : ∀ {p : Path} {way}, route here p = route here root ++ way → way ≠ [] →
      (p.resolve here).stem = String.ofList (Path.stemOf (way.getLast?.getD "").toList) := by
    intro p way below some
    have names : (p.resolve here).names = route here root ++ way := below
    rw [Path.stem, Path.name, names, List.getLast?_append_of_ne_nil _ some]
  -- The artifact keeps the directory and the stem of its source and forgets the suffix.
  unfold Path.SameSlot artifactWay
  rw [parent below some, parent below' some', stem below some, stem below' some']
  constructor
  · intro same
    obtain ⟨front, last⟩ := List.append_inj' same (by simp only [List.length_singleton])
    refine ⟨by rw [front], congrArg String.ofList ?_⟩
    exact artifactName_inj.1 (List.cons.inj last).1
  · rintro ⟨front, last⟩
    have front : route here root ++ way.dropLast = route here root ++ way'.dropLast :=
      (Path.mk.inj front).2
    rw [List.append_cancel_left front, artifactName_inj.2 (String.ofList_inj.1 last)]

/-! ## What a build without diagnostics leaves -/

section Reading

variable {fs fs' : FileStore} {p q a b : Path} {tree : IdlFile} {c : List UInt8} {t t' : Int}

/-- Only the bytes at the path of an artifact are read. -/
theorem readArtifact_of_find (found : fs.find a = .ok (.file c t))
    (found' : fs'.find b = .ok (.file c t')) (read : readArtifact fs a = .ok tree) :
    readArtifact fs' b = .ok tree := by
  unfold readArtifact readText readBytes at read ⊢
  rw [found] at read
  rw [found']
  simp only at read ⊢
  cases decoded : Text.Utf8.decode c with
  | error e => simp [decoded] at read
  | ok cs => simpa [decoded] using read

/-- Two paths to one file are parsed alike. -/
theorem parseFile_of_route {result result' : ParseResult} (same : route fs.here p = route fs.here q)
    (parsed : parseFile fs p = .ok result) (parsed' : parseFile fs q = .ok result') :
    result = result' := by
  obtain ⟨c, m, cs, found, decoded, rfl⟩ := parseFile_eq_ok_iff.1 parsed
  obtain ⟨c', m', cs', found', decoded', rfl⟩ := parseFile_eq_ok_iff.1 parsed'
  have entry := entry?_of_find found
  rw [same, entry?_of_find found'] at entry
  cases entry
  rw [decoded] at decoded'
  cases decoded'
  rfl

end Reading

namespace Layout

variable {l : Layout} {fs fs' : FileStore} {p q a : Path} {result : ParseResult}

/-- The source has no diagnostics, and its artifact holds its tree. -/
def Kept (l : Layout) (fs : FileStore) (p : Path) : Prop :=
  ∃ a tree, l.HasArtifact p a ∧ parseFile fs p = .ok ⟨tree, []⟩ ∧ readArtifact fs a = .ok tree

/-- A layout with one of its sources only. -/
def only (l : Layout) (p : Path) (isSource : l.IsSource p) : Layout where
  here := l.here
  root := l.root
  buildDirectory := l.buildDirectory
  IsSource q := q = p
  distinct := by
    rintro _ _ a b rfl rfl - - -
    rfl
  apart := by
    rintro _ _ a rfl rfl
    exact l.apart isSource isSource

theorem Fresh.only (fresh : l.Fresh fs) (isSource : l.IsSource p) : (l.only p isSource).Fresh fs where
  here := fresh.here
  tree := fresh.tree
  sound := by
    intro q a content t has
    have one : q = p := has.1
    rw [one] at has ⊢
    exact fresh.sound ⟨isSource, has.2⟩

/-- A build of a file without diagnostics leaves its tree in the artifact. -/
theorem Fresh.kept (fresh : l.Fresh fs) (isSource : l.IsSource p)
    (run : buildFile l.root l.buildDirectory p fs = .ok result fs') (clean : result.errorCount = 0) :
    l.Kept fs' p := by
  have built := fresh.after_buildFile isSource
  rw [stateAfter_ok run] at built
  obtain ⟨tree, diagnostics⟩ := result
  obtain rfl : diagnostics = [] := List.length_eq_zero_iff.1 clean
  have parsed := fresh.parseFile_eq isSource run
  have parsed' := parseFile_of_grows fresh.here isSource built.2 parsed
  unfold buildFile at run
  rw [fresh.here] at run
  cases placed : artifactPath l.here p l.root l.buildDirectory with
  | error e => simp [placed] at run
  | ok a =>
    refine ⟨a, tree, ⟨isSource, placed⟩, parsed', ?_⟩
    simp only [placed] at run
    cases cached : cachedResult fs p a with
    | error e => simp [cached] at run
    | ok cachedResult =>
      simp only [cached] at run
      cases cachedResult with
      | some result =>
        cases run
        obtain ⟨-, tree', read, eq⟩ := cachedResult_eq_ok cached
        cases eq
        exact read
      | none =>
        -- The artifact has just been written, and what has been written is read back.
        obtain ⟨c, m, cs, -, -, clean⟩ := parseFile_eq_ok_iff.1 parsed
        exact readArtifact_of_write (integral_of_parse clean) ((rebuildFile_eq_ok run).2 rfl)

theorem Kept.of_grows (kept : l.Kept fs p) (fresh : l.Fresh fs)
    (grows : fs.Grows (fun _ => False) fs') : l.Kept fs' p := by
  obtain ⟨a, tree, has, parsed, read⟩ := kept
  obtain ⟨content, t, artifact⟩ := readArtifact_eq_ok read
  exact ⟨a, tree, has, parseFile_of_grows fresh.here has.1 (grows.weaken fun _ => False.elim) parsed,
    readArtifact_of_find artifact (find_of_grows grows id artifact) read⟩

/-- Building another file without diagnostics leaves artifacts as they are. -/
theorem Kept.after_buildFile (kept : l.Kept fs p) (fresh : l.Fresh fs) (isSource : l.IsSource q)
    (run : buildFile l.root l.buildDirectory q fs = .ok result fs') (clean : result.errorCount = 0) :
    l.Kept fs' p := by
  have built := fresh.after_buildFile isSource
  -- For the project with this source only, nothing but its artifact changes.
  have alone := (fresh.only isSource).after_buildFile (p := q) rfl
  have run' : buildFile (l.only q isSource).root (l.only q isSource).buildDirectory q fs =
      .ok result fs' := run
  rw [stateAfter_ok run] at built
  rw [stateAfter_ok run'] at alone
  obtain ⟨a, tree, has, parsed, read⟩ := kept
  have parsed' := parseFile_of_grows fresh.here has.1 built.2 parsed
  obtain ⟨content, t, artifact⟩ := readArtifact_eq_ok read
  refine ⟨a, tree, has, parsed', ?_⟩
  by_cases same : (l.only q isSource).IsArtifact (route fs.here a)
  · -- The file that has been built is the source itself, under another path perhaps.
    obtain ⟨q', b, has', eq⟩ := same
    have one : q' = q := has'.1
    have placed : artifactPath l.here q l.root l.buildDirectory = .ok b := one ▸ has'.2
    have eq : route l.here a = route l.here b := fresh.here ▸ eq
    have samePlace : route fs'.here p = route fs'.here q := by
      rw [built.1.here]
      exact l.distinct has.1 isSource has.2 placed eq
    obtain ⟨b', tree', hasB, parsedB, readB⟩ := fresh.kept isSource run clean
    have sameArtifact := hasB.2.symm.trans placed
    cases sameArtifact
    cases parseFile_of_route samePlace parsed' parsedB
    obtain ⟨content', t', artifact'⟩ := readArtifact_eq_ok readB
    obtain ⟨r, located, -⟩ := find_eq_ok_iff.1 artifact
    have entry := entry?_of_find artifact'
    rw [built.1.here, ← eq, ← fresh.here, ← locate_eq located] at entry
    have found := find_eq_ok_iff.2 ⟨r, built.2.locate located, entry⟩
    exact readArtifact_of_find artifact' found readB
  · exact readArtifact_of_find artifact (find_of_grows alone.2 same artifact) read

/-- After a build without diagnostics every artifact holds the tree of its source. -/
theorem Fresh.kept_buildTimed {sources : List (Nat × Path)} {results results' : FileResults}
    (fresh : l.Fresh fs) (isSource : ∀ s ∈ sources, l.IsSource s.2)
    (run : buildTimed l.root l.buildDirectory results sources fs = .ok results' fs')
    (clean : ∀ s ∈ sources, ∀ result, parseFile fs' s.2 = .ok result → result.errorCount = 0)
    (mem : p ∈ sources.map Prod.snd ∨ l.Kept fs p) : l.Kept fs' p := by
  induction sources generalizing fs results with
  | nil =>
    cases run
    exact mem.resolve_left List.not_mem_nil
  | cons s sources ih =>
    obtain ⟨d, source⟩ := s
    obtain ⟨first, others⟩ := List.forall_mem_cons.1 isSource
    obtain ⟨cleanFirst, cleanOthers⟩ := List.forall_mem_cons.1 clean
    obtain ⟨later, -⟩ := fresh.after_waited d
    cases built : buildFile l.root l.buildDirectory source (fs.waited d) with
    | error e fs₁ =>
      rw [buildTimed_cons_error built] at run
      cases run
    | ok result fs₁ =>
      rw [buildTimed_cons_ok built] at run
      have step := later.after_buildFile first
      rw [stateAfter_ok built] at step
      have rest : l.Built fs₁ (stateAfter (buildTimed _ _ (results.put source result) sources) fs₁) :=
        step.1.after_buildTimed others
      rw [stateAfter_ok run] at rest
      -- The source is at the end what it was when it was built, so it had no diagnostics then.
      have parsed := parseFile_of_grows later.here first step.2 (later.parseFile_eq first built)
      have noErrors := cleanFirst _ (parseFile_of_grows step.1.here first rest.2 parsed)
      refine ih step.1 others run cleanOthers ?_
      rw [List.map_cons, List.mem_cons, or_assoc] at mem
      obtain rfl | mem | kept := mem
      · exact .inr (later.kept first built noErrors)
      · exact .inl mem
      · have kept := kept.of_grows fresh (grows_waited d fresh.tree)
        exact .inr (kept.after_buildFile later first built noErrors)

end Layout

/-! ## Projects -/

/-- There is no file below the route. -/
def FileStore.Bare (fs : FileStore) (r : Route) : Prop :=
  ∀ more c t, more ≠ [] → fs.entry? (r ++ more) ≠ some (.file c t)

section Projects

variable {fs fs' : FileStore} {config : ProjectConfig} {root p q a b : Path} {sources : List Path}
  (listed : fs.Listed) (found : findSources fs config root = .ok sources)

include listed found

theorem names_of_source (mem : p ∈ sources) : ∀ name ∈ route fs.here p, IsName name := by
  obtain ⟨c, t, file⟩ := hasFile_iff.1 (selects_iff.1 ((mem_findSources found).1 mem).2).1
  exact listed.names_of_entry (entry?_of_find file)

/-- Artifacts are in the build directory, where no source is. -/
theorem apart_of_sources (mem : p ∈ sources) (mem' : q ∈ sources)
    (placed : artifactPath fs.here p root (config.buildPlace root) = .ok a) :
    route fs.here a ≠ route fs.here q := by
  obtain ⟨way, -, -, eq⟩ := route_artifact (names_of_source listed found mem) placed
  rw [eq]
  obtain ⟨-, outside, -⟩ := selects_iff.1 ((mem_findSources found).1 mem').2
  exact (outside (artifactWay way) (by simp [artifactWay])).symm

theorem sameSlot_iff (mem : p ∈ sources) (mem' : q ∈ sources)
    (placed : artifactPath fs.here p root (config.buildPlace root) = .ok a)
    (placed' : artifactPath fs.here q root (config.buildPlace root) = .ok b) :
    (a = b ↔ p.SameSlot fs.here q) ∧
      (route fs.here a = route fs.here b ↔ p.SameSlot fs.here q) := by
  obtain ⟨way, below, path, eq⟩ := route_artifact (names_of_source listed found mem) placed
  obtain ⟨way', below', path', eq'⟩ := route_artifact (names_of_source listed found mem') placed'
  -- The root is a directory and the sources are files, so neither way is empty.
  have some : ∀ {p way}, p ∈ sources → route fs.here p = route fs.here root ++ way → way ≠ [] := by
    rintro p way mem below rfl
    obtain ⟨⟨-, -, g, -, selected⟩, selects⟩ := (mem_findSources found).1 mem
    obtain ⟨c, t, file⟩ := hasFile_iff.1 (selects_iff.1 selects).1
    unfold Glob.select at selected
    split at selected
    · next directory =>
      obtain ⟨-, t', isDirectory⟩ := locate_of_hasDirectory directory
      have entry := entry?_of_find file
      rw [below, List.append_nil, isDirectory] at entry
      cases entry
    · cases selected
  have inj := artifactWay_inj below below' (some mem below) (some mem' below')
  rw [eq, eq', path, path', Path.mk.injEq, List.append_right_inj, List.append_right_inj]
  simpa using inj

end Projects

/-- The sources of a project as a layout, if their artifacts are apart. -/
def ProjectConfig.layout (config : ProjectConfig) (here : Route) (root : Path) (sources : List Path)
    (distinct : ∀ {p q a b}, p ∈ sources → q ∈ sources →
      artifactPath here p root (config.buildPlace root) = .ok a →
      artifactPath here q root (config.buildPlace root) = .ok b → route here a = route here b →
      route here p = route here q)
    (apart : ∀ {p q a}, p ∈ sources → q ∈ sources →
      artifactPath here p root (config.buildPlace root) = .ok a → route here a ≠ route here q) :
    Layout where
  here := here
  root := root
  buildDirectory := config.buildPlace root
  IsSource p := p ∈ sources
  distinct := distinct
  apart := apart

/-- With a bare build directory there is no artifact that could be stale. -/
theorem layout_fresh_of_bare {fs : FileStore} {config : ProjectConfig} {root : Path} {sources : List Path}
    {distinct apart} (tree : fs.IsTree) (listed : fs.Listed)
    (found : findSources fs config root = .ok sources)
    (bare : fs.Bare (route fs.here (config.buildPlace root))) :
    (config.layout fs.here root sources distinct apart).Fresh fs := by
  apply Layout.fresh_of_none rfl tree
  rintro r c t ⟨q, a, has, rfl⟩ entry
  obtain ⟨way, -, -, eq⟩ := route_artifact (names_of_source listed found has.1) has.2
  have eq : route fs.here a = route fs.here (config.buildPlace root) ++ artifactWay way := eq
  have entry : fs.entry? (route fs.here a) = some (.file c t) := entry
  rw [eq] at entry
  exact bare _ c t (by simp [artifactWay]) entry

/-- Of two sources under the root, the artifacts are at one place just if the sources are in one
    directory and have one name up to the suffix. If no two sources are like this, a build that starts
    with a bare build directory and finds no diagnostics leaves for every source an artifact with its
    tree, however much time passes during the build. -/
theorem artifacts_apart {fs : FileStore} {config : ProjectConfig} {root : Path} {sources : List Path}
    (tree : fs.IsTree) (listed : fs.Listed) (found : findSources fs config root = .ok sources) :
    (∀ p ∈ sources, ∀ q ∈ sources, ∀ a b,
      artifactPath fs.here p root (config.buildPlace root) = .ok a →
      artifactPath fs.here q root (config.buildPlace root) = .ok b →
        (a = b ↔ p.SameSlot fs.here q) ∧
          (route fs.here a = route fs.here b ↔ p.SameSlot fs.here q)) ∧
    ((∀ p ∈ sources, ∀ q ∈ sources, p.SameSlot fs.here q → route fs.here p = route fs.here q) →
      fs.Bare (route fs.here (config.buildPlace root)) →
      ∀ timed results fs', timed.map Prod.snd = sources →
        buildTimed root (config.buildPlace root) [] timed fs = .ok results fs' →
        (∀ r ∈ results, r.2.errorCount = 0) →
        ∀ p ∈ sources, ∃ a tree, artifactPath fs.here p root (config.buildPlace root) = .ok a ∧
          parseFile fs' p = .ok ⟨tree, []⟩ ∧ readArtifact fs' a = .ok tree) := by
  have slots := fun {p q a b} => sameSlot_iff (p := p) (q := q) (a := a) (b := b) listed found
  refine ⟨fun p mem q mem' a b => slots mem mem', ?_⟩
  intro unshared bare timed results fs' all built clean p mem
  have distinct : ∀ {p q a b}, p ∈ sources → q ∈ sources →
      artifactPath fs.here p root (config.buildPlace root) = .ok a →
      artifactPath fs.here q root (config.buildPlace root) = .ok b →
      route fs.here a = route fs.here b → route fs.here p = route fs.here q :=
    fun mem mem' placed placed' same =>
      unshared _ mem _ mem' ((slots mem mem' placed placed').2.1 same)
  have apart := fun {p q a} => apart_of_sources (p := p) (q := q) (a := a) listed found
  have fresh : (config.layout fs.here root sources distinct apart).Fresh fs :=
    layout_fresh_of_bare tree listed found bare
  have isSource : ∀ s ∈ timed, s.2 ∈ sources := fun s mem => all ▸ List.mem_map_of_mem mem
  -- What the build gives is what parsing gives, so no source has a diagnostic.
  have transparent := fresh.transparent isSource built
  have silent : ∀ s ∈ timed, ∀ result, parseFile fs' s.2 = .ok result → result.errorCount = 0 := by
    intro s mem result parsed
    obtain ⟨result', found, parsed'⟩ := transparent.file s.2 (List.mem_map_of_mem mem)
    rw [parsed] at parsed'
    cases parsed'
    obtain ⟨_, _, rfl, -⟩ := List.lookup_eq_some_iff.1 found
    exact clean (s.2, result) (by simp)
  obtain ⟨a, tree, has, parsed, read⟩ := fresh.kept_buildTimed isSource built silent (.inl (all ▸ mem))
  exact ⟨a, tree, has.2, parsed, read⟩

/-- The settings of a project with two sources. -/
def pairConfig : ProjectConfig := ⟨["a.idl", "b.idl"], [], "b", 0⟩

/-- Its store when something has been written into both. -/
def pairStore : FileStore :=
  ⟨[(["a.idl"], .file (Text.Utf8.encode "import \"x\";".toList) 0),
    (["b.idl"], .file (Text.Utf8.encode "namespace n \x7b\x7d".toList) 0)], [], 1⟩

/-- The tree of the first one. -/
def pairTree : IdlFile := ⟨[⟨"x", ⟨1, 1, 0, 11⟩⟩], []⟩

/-- The tree of the second one. -/
def pairTree' : IdlFile := ⟨[], [⟨["n"], [], [], ⟨1, 1, 0, 14⟩⟩]⟩

/-- Its store when the first one has been built. -/
def pairHalf : FileStore :=
  { pairStore with
    entries := pairStore.entries ++ [(["b"], .directory 1),
      (["b", "a.xidl.json"], .file (Text.Utf8.encode (Artifact.serialize pairTree).toList) 1)] }

/-- Its store when both have been built. -/
def pairBuilt : FileStore :=
  { pairHalf with
    entries := pairHalf.entries ++
      [(["b", "b.xidl.json"], .file (Text.Utf8.encode (Artifact.serialize pairTree').toList) 1)] }

theorem buildFile_pairStore : buildFile ⟨.root, []⟩ ⟨.root, ["b"]⟩ ⟨.root, ["a.idl"]⟩ pairStore =
    .ok ⟨pairTree, []⟩ pairHalf := by
  have made : makeDirectories ⟨.root, ["b"]⟩ pairStore =
      .ok () { pairStore with entries := pairStore.entries ++ [(["b"], .directory 1)] } := by
    rw [makeDirectories]
    rfl
  exact buildFile_of_steps (a := ⟨.root, ["b", "a.xidl.json"]⟩) rfl rfl (by decide +kernel) rfl made rfl

theorem buildFile_pairHalf : buildFile ⟨.root, []⟩ ⟨.root, ["b"]⟩ ⟨.root, ["b.idl"]⟩ pairHalf =
    .ok ⟨pairTree', []⟩ pairBuilt := by
  have made : makeDirectories ⟨.root, ["b"]⟩ pairHalf = .ok () pairHalf := by
    rw [makeDirectories]
    rfl
  exact buildFile_of_steps (a := ⟨.root, ["b", "b.xidl.json"]⟩) rfl rfl (by decide +kernel) rfl made rfl

theorem artifacts_apart_pair :
    findSources pairStore pairConfig ⟨.root, []⟩ = .ok [⟨.root, ["a.idl"]⟩, ⟨.root, ["b.idl"]⟩] ∧
      ∀ p ∈ [(⟨.root, ["a.idl"]⟩ : Path), ⟨.root, ["b.idl"]⟩], ∃ a tree,
        artifactPath [] p ⟨.root, []⟩ ⟨.root, ["b"]⟩ = .ok a ∧
          parseFile pairBuilt p = .ok ⟨tree, []⟩ ∧ readArtifact pairBuilt a = .ok tree := by
  have found : findSources pairStore pairConfig ⟨.root, []⟩ =
      .ok [⟨.root, ["a.idl"]⟩, ⟨.root, ["b.idl"]⟩] := by decide +kernel
  have entry : ∀ r e, pairStore.entry? r = some e → r = [] ∨ r = ["a.idl"] ∨ r = ["b.idl"] := by
    intro r e there
    by_cases root : r = []
    · exact .inl root
    · have mem := List.mem_map_of_mem (f := Prod.fst) (mem_of_entry root there)
      simpa [pairStore, root] using mem
  have tree : pairStore.IsTree := by
    refine ⟨⟨0, rfl⟩, fun r e there => ?_⟩
    obtain rfl | rfl | rfl := entry r e there <;> exact ⟨0, rfl⟩
  have isName : ∀ name ∈ ["a.idl", "b.idl"], IsName name := by
    intro name mem
    simp only [List.mem_cons, List.not_mem_nil, or_false] at mem
    obtain rfl | rfl := mem <;> exact ⟨by decide, by decide, by decide, by decide⟩
  have listed : pairStore.Listed :=
    ⟨by decide, by simp [pairStore], by simpa [pairStore] using isName, nofun⟩
  have bare : pairStore.Bare ["b"] := by
    intro more c t _ there
    obtain root | one | two := entry _ _ there
    · exact absurd root (List.cons_ne_nil _ _)
    · exact absurd (List.cons.inj one).1 (by decide)
    · exact absurd (List.cons.inj two).1 (by decide)
  -- The stems differ, and so do the artifacts.
  have unshared : ∀ p ∈ [(⟨.root, ["a.idl"]⟩ : Path), ⟨.root, ["b.idl"]⟩],
      ∀ q ∈ [(⟨.root, ["a.idl"]⟩ : Path), ⟨.root, ["b.idl"]⟩],
        p.SameSlot pairStore.here q → route pairStore.here p = route pairStore.here q := by
    unfold Path.SameSlot
    decide +kernel
  -- The build writes one artifact after the other.
  have built : buildTimed ⟨.root, []⟩ ⟨.root, ["b"]⟩ [] [(0, ⟨.root, ["a.idl"]⟩), (0, ⟨.root, ["b.idl"]⟩)]
      pairStore = .ok [(⟨.root, ["a.idl"]⟩, ⟨pairTree, []⟩), (⟨.root, ["b.idl"]⟩, ⟨pairTree', []⟩)] pairBuilt := by
    have first : buildFile ⟨.root, []⟩ ⟨.root, ["b"]⟩ ⟨.root, ["a.idl"]⟩ (pairStore.waited 0) =
        .ok ⟨pairTree, []⟩ pairHalf := buildFile_pairStore
    have second : buildFile ⟨.root, []⟩ ⟨.root, ["b"]⟩ ⟨.root, ["b.idl"]⟩ (pairHalf.waited 0) =
        .ok ⟨pairTree', []⟩ pairBuilt := buildFile_pairHalf
    rw [buildTimed_cons_ok first, buildTimed_cons_ok second]
    rfl
  exact ⟨found, (artifacts_apart tree listed found).2 unshared bare _ _ _ rfl built
    (by simp [ParseResult.errorCount])⟩

/-- Settings that select files with two suffixes. -/
def twinConfig : ProjectConfig := ⟨["*.idl", "*.xidl"], [], ".xidl-build", 0⟩

/-- Two sources that differ in their suffixes only. -/
def twinStore : FileStore := ⟨[(["a.idl"], .file [] 0), (["a.xidl"], .file [] 0)], [], 1⟩

theorem twins_share_artifact :
    findSources twinStore twinConfig ⟨.root, []⟩ =
        .ok [⟨.root, ["a.idl"]⟩, ⟨.root, ["a.xidl"]⟩] ∧
      ∀ source ∈ ["a.idl", "a.xidl"],
        artifactPath [] ⟨.root, [source]⟩ ⟨.root, []⟩ (twinConfig.buildPlace ⟨.root, []⟩) =
          .ok ⟨.root, [".xidl-build", "a.xidl.json"]⟩ := by
  have idl : Glob.parse "*.idl" = .ok ⟨[.like ⟨[.anyText, .character '.', .character 'i',
      .character 'd', .character 'l']⟩], false⟩ := by
    simp [Glob.parse, Path.ofText, Path.namesOf, Path.pieces, Path.anchorOf, Path.isAbsolute, Glob.step,
      Glob.hasDoubleStar, Wildcard.isSpecial, Wildcard.ofText, Wildcard.itemsOf]
  have xidl : Glob.parse "*.xidl" = .ok ⟨[.like ⟨[.anyText, .character '.', .character 'x',
      .character 'i', .character 'd', .character 'l']⟩], false⟩ := by
    simp [Glob.parse, Path.ofText, Path.namesOf, Path.pieces, Path.anchorOf, Path.isAbsolute, Glob.step,
      Glob.hasDoubleStar, Wildcard.isSpecial, Wildcard.ofText, Wildcard.itemsOf]
  constructor
  · simp only [findSources, twinConfig, List.mapM_cons, List.mapM_nil, idl, xidl]
    rfl
  · decide

end IdlFront
