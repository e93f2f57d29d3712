import IdlFront.Project.Build
import IdlFront.Project.Sources
import IdlFront.Proofs.Files.Names

/-! # Files with another content

* `FileStore.Rewritten` — two stores that differ only in what is in one file.
* `FileStore.Listed.rewritten` — a file that is written over is rewritten.
* `Rewritten.locate`, `Rewritten.hasEntry`, … — what is where is the same in both stores, so the same
  sources are found (`Rewritten.findSources`).
* `Rewritten.loadConfig`, `Rewritten.parseFile` — all other files are the same too.
-/

namespace IdlFront

namespace FileStore

/-- The second store is the first one but for the content of the file at a route. -/
structure Rewritten (file : Route) (fs fs' : FileStore) : Prop where
  here : fs'.here = fs.here
  children : fs'.children = fs.children
  directoriesBelow : fs'.directoriesBelow = fs.directoriesBelow
  other : ∀ r, r ≠ file → fs'.entry? r = fs.entry? r
  before : ∃ c t, fs.entry? file = some (.file c t)
  after : ∃ c t, fs'.entry? file = some (.file c t)

variable {fs fs' : FileStore} {file r : Route} {p : Path}

/-! ## Writing over files -/

/-- The entries that stand in for others at one route. -/
theorem entries_put {e old : Entry} (there : (r, old) ∈ fs.entries) :
    (fs.put r e).entries = fs.entries.map fun old => if old.1 == r then (r, e) else old := by
  have found : (fs.entries.any fun e => e.1 == r) = true :=
    List.any_eq_true.2 ⟨_, there, by simp⟩
  rw [put, if_pos found]

theorem Listed.rewritten {content content' : List UInt8} {time time' : Int} (listed : fs.Listed)
    (found : fs.entry? file = some (.file content time)) :
    Rewritten file fs (fs.put file (.file content' time')) := by
  have ne : file ≠ [] := by
    rintro rfl
    cases found
  have there := mem_of_entry ne found
  refine ⟨here_put, ?_, ?_, fun r other => entry?_put_of_ne other, ⟨_, _, found⟩,
    ⟨_, _, entry?_put ne⟩⟩
  · funext r
    rw [FileStore.children, entries_put there, List.filterMap_map]
    refine List.filterMap_congr fun e mem => ?_
    by_cases same : e.1 = file
    · simp [same]
    · simp [same]
  · funext r
    rw [FileStore.directoriesBelow, entries_put there, List.filterMap_map]
    refine congrArg _ (List.filterMap_congr fun e mem => ?_)
    by_cases same : e.1 = file
    · -- The only entry at the route is a file, before and after.
      have entry := listed.entry?_of_mem (r := e.1) (e := e.2) mem
      rw [same, found] at entry
      simp [same, ← Option.some.inj entry, Entry.isDirectory]
    · simp [same]

namespace Rewritten

variable (h : Rewritten file fs fs')

include h

/-! ## What is where -/

/-- The entry at a route is the same in both stores, or a file in both. -/
theorem entry?_cases (r : Route) : fs'.entry? r = fs.entry? r ∨
    ∃ c t c' t', fs.entry? r = some (.file c t) ∧ fs'.entry? r = some (.file c' t') := by
  by_cases same : r = file
  · obtain ⟨c, t, before⟩ := h.before
    obtain ⟨c', t', after⟩ := h.after
    exact .inr ⟨c, t, c', t', same ▸ before, same ▸ after⟩
  · exact .inl (h.other r same)

theorem follow (names : List String) (r : Route) : fs'.follow r names = fs.follow r names := by
  induction names generalizing r with
  | nil => rfl
  | cons name names ih =>
    rw [FileStore.follow, FileStore.follow]
    obtain same | ⟨c, t, c', t', before, after⟩ := h.entry?_cases r
    · simp only [same, ih]
    · rw [before, after]

theorem locate (p : Path) : fs'.locate p = fs.locate p := by
  rw [FileStore.locate, FileStore.locate, h.here, h.follow]

theorem find_cases (p : Path) : fs'.find p = fs.find p ∨
    ∃ c t c' t', fs.find p = .ok (.file c t) ∧ fs'.find p = .ok (.file c' t') := by
  unfold find
  rw [h.locate]
  cases fs.locate p with
  | error refusal => exact .inl rfl
  | ok r =>
    obtain same | ⟨c, t, c', t', before, after⟩ := h.entry?_cases r
    · exact .inl (by simp only [same])
    · exact .inr ⟨c, t, c', t', by simp only [before], by simp only [after]⟩

theorem hasEntry : fs'.hasEntry = fs.hasEntry := by
  funext p
  unfold FileStore.hasEntry
  obtain same | ⟨c, t, c', t', before, after⟩ := h.find_cases p
  · rw [same]
  · rw [before, after]

theorem hasDirectory : fs'.hasDirectory = fs.hasDirectory := by
  funext p
  unfold FileStore.hasDirectory
  obtain same | ⟨c, t, c', t', before, after⟩ := h.find_cases p
  · rw [same]
  · rw [before, after]

theorem hasFile : fs'.hasFile = fs.hasFile := by
  funext p
  unfold FileStore.hasFile
  obtain same | ⟨c, t, c', t', before, after⟩ := h.find_cases p
  · rw [same]
  · rw [before, after]

theorem refuses : fs'.refuses = fs.refuses := by
  funext p
  rw [FileStore.refuses, FileStore.refuses, h.hasEntry]

/-! ## Sources -/

theorem isThere (directory : Bool) (p : Path) :
    Glob.isThere fs' directory p = Glob.isThere fs directory p := by
  rw [Glob.isThere, Glob.isThere, h.hasDirectory, h.hasEntry]

theorem namesIn (p : Path) : Glob.namesIn fs' p = Glob.namesIn fs p := by
  rw [Glob.namesIn, Glob.namesIn, h.locate, h.children]

theorem directoriesIn (p : Path) : Glob.directoriesIn fs' p = Glob.directoriesIn fs p := by
  rw [Glob.directoriesIn, Glob.directoriesIn, h.locate, h.directoriesBelow]

theorem selectFrom (directoriesOnly : Bool) (steps : List GlobStep) (p : Path) :
    Glob.selectFrom fs' directoriesOnly steps p = Glob.selectFrom fs directoriesOnly steps p := by
  induction steps generalizing p with
  | nil => rfl
  | cons step steps ih =>
    cases step with
    | child name => rw [Glob.selectFrom, Glob.selectFrom, h.isThere, ih]
    | like names =>
      rw [Glob.selectFrom, Glob.selectFrom, h.namesIn]
      simp only [h.isThere, ih]
    | anyDepth => rw [Glob.selectFrom, Glob.selectFrom, h.directoriesIn, funext ih]

theorem select (g : Glob) (p : Path) : g.select fs' p = g.select fs p := by
  rw [Glob.select, Glob.select, h.hasDirectory, h.selectFrom]

theorem findSources (config : ProjectConfig) (root : Path) :
    IdlFront.findSources fs' config root = IdlFront.findSources fs config root := by
  have selects : config.selects fs' root = config.selects fs root := by
    funext p
    rw [ProjectConfig.selects, ProjectConfig.selects, h.hasFile, h.here]
  have unresolvable : config.isUnresolvable fs' root = config.isUnresolvable fs root := by
    rw [ProjectConfig.isUnresolvable, ProjectConfig.isUnresolvable, h.refuses]
  have choose (patterns : List Glob) :
      config.choose fs' root patterns = config.choose fs root patterns := by
    rw [ProjectConfig.choose, ProjectConfig.choose, funext fun g => h.select g root, selects]
  rw [IdlFront.findSources, IdlFront.findSources, unresolvable, funext choose]
  rfl

/-! ## Other files -/

theorem readText (apart : route fs.here p ≠ file) : fs'.readText p = fs.readText p := by
  have same : fs'.find p = fs.find p := by
    unfold find
    rw [h.locate]
    cases located : fs.locate p with
    | error refusal => rfl
    | ok r =>
      obtain rfl := locate_eq located
      simp only [h.other _ apart]
  unfold FileStore.readText readBytes
  rw [same]

theorem loadConfig (apart : route fs.here p ≠ file) :
    IdlFront.loadConfig fs' p = IdlFront.loadConfig fs p := by
  rw [IdlFront.loadConfig, IdlFront.loadConfig, SettingsReader.loadConfig,
    SettingsReader.loadConfig, h.hasEntry, h.readText apart]
  rfl

theorem parseFile (apart : route fs.here p ≠ file) :
    IdlFront.parseFile fs' p = IdlFront.parseFile fs p := by
  rw [IdlFront.parseFile, IdlFront.parseFile, h.refuses, h.readText apart]

end Rewritten

end FileStore

end IdlFront
