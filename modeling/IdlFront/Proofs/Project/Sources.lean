import IdlFront.Proofs.Project.Listing

/-! # What is selected

* `findSources_of_same` — the order of patterns, and how often one is given, do not matter.
* `ProjectConfig.Takes.resolved` — what a project without steps up takes is below its directory.
* `sources_selected` — every source is a file of the project, and comes once.
-/

namespace IdlFront

open FileStore

section Sources

variable {fs : FileStore} {config config' : ProjectConfig} {root p : Path} {sources : List Path}

/-! ## Patterns in any order -/

theorem excludes_of_same (same : ∀ s, s ∈ config'.exclude ↔ s ∈ config.exclude) (p : Path) :
    config'.excludes p = config.excludes p := by
  rw [Bool.eq_iff_iff]
  simp only [ProjectConfig.excludes, List.any_eq_true, same]

/-- The order of patterns, and how often one is given, do not matter. -/
theorem findSources_of_same (sameSources : ∀ s, s ∈ config'.sources ↔ s ∈ config.sources)
    (sameExclude : ∀ s, s ∈ config'.exclude ↔ s ∈ config.exclude)
    (samePlace : config'.buildDirectory = config.buildDirectory)
    (found : findSources fs config root = .ok sources) :
    findSources fs config' root = .ok sources := by
  have searchable := findSources_ok_iff.1 ⟨sources, found⟩
  have unresolvable : config'.isUnresolvable fs root = config.isUnresolvable fs root := by
    rw [ProjectConfig.isUnresolvable, samePlace, ProjectConfig.isUnresolvable]
  obtain ⟨sources', found'⟩ : ∃ sources', findSources fs config' root = .ok sources' :=
    findSources_ok_iff.2 ⟨unresolvable.trans searchable.resolvable,
      fun pattern mem => searchable.readable pattern ((sameSources pattern).1 mem), rfl⟩
  have place : config'.buildPlace root = config.buildPlace root := by
    rw [ProjectConfig.buildPlace, samePlace, ProjectConfig.buildPlace]
  have selects : ∀ p, config'.selects fs root p = config.selects fs root p := fun p => by
    rw [ProjectConfig.selects, place, excludes_of_same sameExclude, ProjectConfig.selects]
  rw [found']
  congr 1
  apply (inOrder_findSources found').eq_of_mem_iff (inOrder_findSources found)
  intro p
  simp only [mem_findSources found', mem_findSources found, sameSources, selects]

/-! ## Files of the project -/

theorem hasDirectory_of_source (found : findSources fs config root = .ok sources)
    (mem : p ∈ sources) : fs.hasDirectory root = true := by
  obtain ⟨⟨pattern, -, g, -, selected⟩, -⟩ := (mem_findSources found).1 mem
  unfold Glob.select at selected
  split at selected
  · assumption
  · cases selected

/-- A source is a file, and not in the build directory. -/
theorem file_of_source (found : findSources fs config root = .ok sources) (mem : p ∈ sources) :
    (∃ c t, fs.entry? (p.resolve fs.here).names = some (.file c t)) ∧
      (p.resolve fs.here).isBelow ((config.buildPlace root).resolve fs.here) = false := by
  obtain ⟨-, selects⟩ := (mem_findSources found).1 mem
  obtain ⟨file, outside, -⟩ := selects_iff.1 selects
  obtain ⟨c, t, there⟩ := hasFile_iff.1 file
  refine ⟨⟨c, t, entry?_of_find there⟩, ?_⟩
  rw [Bool.eq_false_iff, ne_eq, isBelow_resolve]
  rintro ⟨more, some, eq⟩
  exact outside more some eq

/-- Without steps up, the way to a source is the way to the root and, behind that, the names that are
    compared with patterns. -/
theorem way_of_source (tree : fs.IsTree) (listed : fs.Listed) (inward : config.Inward)
    (found : findSources fs config root = .ok sources) (mem : p ∈ sources) :
    ∃ names, names ≠ [] ∧ p = ⟨root.anchor, root.names ++ names⟩ ∧
      (p.resolve fs.here).names = (root.resolve fs.here).names ++ names ∧
      config.excludes ⟨.here, names⟩ = false := by
  have directory := hasDirectory_of_source found mem
  obtain ⟨names, rfl, takes, c, t, file⟩ :=
    (mem_findSources_iff tree listed inward directory found).1 mem
  refine ⟨names, ?_, rfl, route_names fs.here root takes.down, takes.included⟩
  rintro rfl
  obtain ⟨-, t', isDirectory⟩ := locate_of_hasDirectory directory
  rw [List.append_nil, isDirectory] at file
  cases file

end Sources

/-- The sources that are found are in order, and none comes twice. Each is a file and not in the build
    directory, and they are the same whatever the order of the patterns is and however often one is given.
    As long as no pattern goes up, no two of them are one file, and each is below the directory of the
    project and, seen from there, not left out. -/
theorem sources_selected {fs : FileStore} {config : ProjectConfig} {root : Path} {sources : List Path}
    (tree : fs.IsTree) (listed : fs.Listed) (found : findSources fs config root = .ok sources) :
    Path.InOrder root.anchor sources ∧
    (∀ p ∈ sources, (∃ c t, fs.entry? (p.resolve fs.here).names = some (.file c t)) ∧
      (p.resolve fs.here).isBelow ((config.buildPlace root).resolve fs.here) = false) ∧
    (∀ config' : ProjectConfig, (∀ s, s ∈ config'.sources ↔ s ∈ config.sources) →
      (∀ s, s ∈ config'.exclude ↔ s ∈ config.exclude) →
      config'.buildDirectory = config.buildDirectory → findSources fs config' root = .ok sources) ∧
    (config.Inward → (sources.map (Path.resolve fs.here)).Nodup ∧
      ∀ p ∈ sources, (p.resolve fs.here).isBelow (root.resolve fs.here) = true ∧
        ∃ way, (p.resolve fs.here).relativeTo? (root.resolve fs.here) = some way ∧
          config.excludes way = false) := by
  have inOrder := inOrder_findSources found
  refine ⟨inOrder, fun p mem => file_of_source found mem,
    fun config' same same' place => findSources_of_same same same' place found, fun inward => ⟨?_, ?_⟩⟩
  -- Sources below the root have different ways from there, so their places differ as well.
  · refine List.Nodup.map_on ?_ inOrder.nodup
    intro p memP q memQ eq
    obtain ⟨names, -, rfl, way, -⟩ := way_of_source tree listed inward found memP
    obtain ⟨names', -, rfl, way', -⟩ := way_of_source tree listed inward found memQ
    rw [eq, way'] at way
    rw [List.append_cancel_left way]
  · intro p mem
    obtain ⟨names, some, rfl, way, included⟩ := way_of_source tree listed inward found mem
    refine ⟨isBelow_resolve.2 ⟨names, some, way⟩, ⟨.here, names⟩, ?_, included⟩
    unfold Path.relativeTo?
    rw [way, if_pos ⟨rfl, List.prefix_append _ names⟩, List.drop_left]

/-- A project with one file, and a file beside it. -/
def nestedStore : FileStore :=
  ⟨[(["o.idl"], .file [] 0), (["p"], .directory 0), (["p", "s.idl"], .file [] 0)], [], 0⟩

theorem sources_selected_nested :
    findSources nestedStore ⟨["s.idl", "./s.idl"], [], ".xidl-build", 0⟩ ⟨.here, ["p"]⟩ =
        .ok [⟨.here, ["p", "s.idl"]⟩] ∧
      findSources nestedStore ⟨["./s.idl", "s.idl", "s.idl"], [], ".xidl-build", 0⟩ ⟨.here, ["p"]⟩ =
        .ok [⟨.here, ["p", "s.idl"]⟩] ∧
      (Path.resolve [] ⟨.here, ["p", "s.idl"]⟩).isBelow (Path.resolve [] ⟨.here, ["p"]⟩) = true := by
  -- The entries of the store, by enumeration.
  have only : ∀ r e, nestedStore.entry? r = some e →
      r = [] ∨ r = ["o.idl"] ∨ r = ["p"] ∨ r = ["p", "s.idl"] := by
    intro r e there
    by_cases root : r = []
    · exact .inl root
    · have mem := List.mem_map_of_mem (f := Prod.fst) (mem_of_entry root there)
      simpa [nestedStore, root] using mem
  have tree : nestedStore.IsTree := by
    refine ⟨⟨0, rfl⟩, fun r e there => ?_⟩
    obtain rfl | rfl | rfl | rfl := only r e there <;> exact ⟨0, rfl⟩
  have isName : ∀ name ∈ ["o.idl", "p", "s.idl"], IsName name := by
    intro name mem
    simp only [List.mem_cons, List.not_mem_nil, or_false] at mem
    obtain rfl | rfl | rfl := mem <;> exact ⟨by decide, by decide, by decide, by decide⟩
  have listed : nestedStore.Listed :=
    ⟨by decide, by simp [nestedStore], by simpa [nestedStore] using isName, nofun⟩
  have found : findSources nestedStore ⟨["s.idl", "./s.idl"], [], ".xidl-build", 0⟩ ⟨.here, ["p"]⟩ =
      .ok [⟨.here, ["p", "s.idl"]⟩] := by
    decide
  obtain ⟨-, -, same, inside⟩ := sources_selected tree listed found
  have inward : ProjectConfig.Inward ⟨["s.idl", "./s.idl"], [], ".xidl-build", 0⟩ := by
    unfold ProjectConfig.Inward
    decide
  have again := same ⟨["./s.idl", "s.idl", "s.idl"], [], ".xidl-build", 0⟩ (by simp [or_comm])
    (fun _ => Iff.rfl) rfl
  exact ⟨found, again, ((inside inward).2 _ List.mem_cons_self).1⟩

/-- Patterns that go up select one file twice, and a file that is not in the project. -/
theorem findSources_nestedStore :
    findSources nestedStore ⟨["s.idl", "../p/s.idl", "../o.idl"], [], ".xidl-build", 0⟩ ⟨.here, ["p"]⟩ =
        .ok [⟨.here, ["p", "..", "o.idl"]⟩, ⟨.here, ["p", "..", "p", "s.idl"]⟩, ⟨.here, ["p", "s.idl"]⟩] ∧
      Path.resolve nestedStore.here ⟨.here, ["p", "..", "p", "s.idl"]⟩ =
        Path.resolve nestedStore.here ⟨.here, ["p", "s.idl"]⟩ ∧
      (Path.resolve nestedStore.here ⟨.here, ["p", "..", "o.idl"]⟩).isBelow
        (Path.resolve nestedStore.here ⟨.here, ["p"]⟩) = false := by
  refine ⟨?_, ?_, ?_⟩
  · decide
  · decide
  · decide

end IdlFront
