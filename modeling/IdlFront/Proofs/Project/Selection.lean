import Mathlib.Data.List.Induction
import IdlFront.Project.Sources
import IdlFront.Proofs.Files.Names

/-! # Selected sources

Whether a file is a source can be told from its names and from the settings; what else is there does
not matter.

* `FileStore.find_below` — what is found on a way from a directory that is there.
* `Glob.Covers` — the ways to files that a pattern stands for, said without a store.
* `Glob.mem_select_iff` — a pattern selects the files that are there on such ways.
* `Glob.Readable`, `Glob.parse_ok_iff` — which texts are patterns.
* `ProjectConfig.Searchable`, `findSources_ok_iff` — when sources are found.
* `ProjectConfig.Takes` — the ways to files that settings stand for.
* `mem_findSources_iff` — the sources of a project are the files that are there on such ways.
-/

namespace IdlFront

open FileStore

namespace FileStore

variable {fs : FileStore} {r r' : Route} {p q : Path} {e : Entry} {names more : List String}

/-! ## What is on the way -/

/-- Whatever is above an entry is a directory. -/
theorem IsTree.directory_above (tree : fs.IsTree) (below : more ≠ [])
    (found : fs.entry? (r ++ more) = some e) : fs.IsDirectory r := by
  induction more using List.reverseRecOn generalizing e with
  | nil => exact absurd rfl below
  | append_singleton more name ih =>
    have parent := tree.parent _ _ found
    rw [← List.append_assoc, List.dropLast_concat] at parent
    by_cases none : more = []
    · rwa [none, List.append_nil] at parent
    · obtain ⟨t, found⟩ := parent
      exact ih none found

theorem IsTree.follow (tree : fs.IsTree) (down : ".." ∉ names)
    (found : fs.entry? (r ++ names) = some e) : fs.follow r names = .ok (r ++ names) := by
  induction names generalizing r with
  | nil => rw [List.append_nil]; rfl
  | cons name names ih =>
    simp only [List.mem_cons, not_or] at down
    obtain ⟨t, directory⟩ := tree.directory_above (List.cons_ne_nil name names) found
    have step : fs.follow r (name :: names) = fs.follow (r ++ [name]) names := by
      rw [FileStore.follow, directory]
      simp only [if_neg (Ne.symm down.1)]
    have split : r ++ name :: names = r ++ [name] ++ names := by simp
    rw [step, split]
    exact ih down.2 (split ▸ found)

theorem follow_append (h : fs.follow r names = .ok r') :
    fs.follow r (names ++ more) = fs.follow r' more := by
  induction names generalizing r with
  | nil => cases h; rfl
  | cons name names ih =>
    unfold FileStore.follow at h
    rw [List.cons_append, FileStore.follow]
    split at h
    · exact ih h
    · cases h
    · cases h

theorem locate_below (tree : fs.IsTree) (located : fs.locate p = .ok r) (down : ".." ∉ names)
    (found : fs.entry? (r ++ names) = some e) :
    fs.locate ⟨p.anchor, p.names ++ names⟩ = .ok (r ++ names) := by
  rw [← tree.follow down found]
  exact follow_append located

/-- On a way from a directory that is there, what is found is what is at the place. -/
theorem find_below (tree : fs.IsTree) (located : fs.locate p = .ok r) (down : ".." ∉ names) :
    fs.find ⟨p.anchor, p.names ++ names⟩ = .ok e ↔ fs.entry? (r ++ names) = some e := by
  constructor
  · intro found
    have entry := entry?_of_find found
    rwa [route_names _ _ down, ← locate_eq located] at entry
  · intro found
    exact find_eq_ok_iff.2 ⟨_, locate_below tree located down found, found⟩

theorem hasDirectory_iff : fs.hasDirectory p = true ↔ ∃ t, fs.find p = .ok (.directory t) := by
  unfold hasDirectory
  split
  · next t found => simp [found]
  · next other =>
    simp only [Bool.false_eq_true, false_iff, not_exists]
    exact fun t found => other t found

theorem hasFile_iff : fs.hasFile p = true ↔ ∃ c t, fs.find p = .ok (.file c t) := by
  unfold hasFile
  split
  · next c t found => simp [found]
  · next other =>
    simp only [Bool.false_eq_true, false_iff, not_exists]
    exact fun c t found => other c t found

theorem hasEntry_iff : fs.hasEntry p = true ↔ ∃ e, fs.find p = .ok e := by
  unfold hasEntry
  split
  · next e found => simp [found]
  · next refused => simp [refused]

/-- What is there and no directory is a file. -/
theorem hasFile_of_hasEntry (there : fs.hasEntry p = true) (other : ¬ fs.hasDirectory p = true) :
    fs.hasFile p = true := by
  obtain ⟨e, found⟩ := hasEntry_iff.1 there
  cases e with
  | file c t => exact hasFile_iff.2 ⟨c, t, found⟩
  | directory t => exact absurd (hasDirectory_iff.2 ⟨t, found⟩) other

theorem locate_of_hasDirectory (h : fs.hasDirectory p = true) :
    fs.locate p = .ok (route fs.here p) ∧ fs.IsDirectory (route fs.here p) := by
  obtain ⟨t, found⟩ := hasDirectory_iff.1 h
  obtain ⟨r, located, -⟩ := find_eq_ok_iff.1 found
  rw [← locate_eq located] at *
  exact ⟨located, t, locate_eq located ▸ entry?_of_find found⟩

theorem mem_children (h : fs.entry? (r ++ [name]) = some e) : name ∈ fs.children r := by
  have mem := mem_of_entry (by simp) h
  exact List.mem_filterMap.2 ⟨_, mem, by simp⟩

theorem mem_directoriesBelow (h : fs.IsDirectory (r ++ names)) : names ∈ fs.directoriesBelow r := by
  obtain ⟨t, found⟩ := h
  by_cases none : names = []
  · rw [none]
    exact List.mem_cons_self
  · have mem := mem_of_entry (by simp [none]) found
    exact List.mem_cons_of_mem _ (List.mem_filterMap.2 ⟨_, mem, by simp [Entry.isDirectory, none]⟩)

theorem Listed.directory_of_below (listed : fs.Listed) (start : fs.IsDirectory r)
    (h : names ∈ fs.directoriesBelow r) : fs.IsDirectory (r ++ names) := by
  obtain rfl | mem := List.mem_cons.1 h
  · rwa [List.append_nil]
  · obtain ⟨⟨k, e⟩, mem, below⟩ := List.mem_filterMap.1 mem
    simp only [Option.ite_none_right_eq_some, Option.some.injEq] at below
    obtain ⟨⟨directory, ⟨way, rfl⟩, -⟩, rfl⟩ := below
    rw [List.drop_left]
    cases e with
    | file c t => cases directory
    | directory t => exact ⟨t, listed.entry?_of_mem mem⟩

end FileStore

/-! ## Patterns without a store -/

namespace Glob

/-- Steps that lead to a file over these names. -/
inductive Leads : List GlobStep → List String → Prop where
  | nil : Leads [] []
  | child {name : String} {steps : List GlobStep} {names : List String} :
      Leads steps names → Leads (.child name :: steps) (name :: names)
  | like {w : Wildcard} {name : String} {steps : List GlobStep} {names : List String} :
      w.accepts name = true → Leads steps names → Leads (.like w :: steps) (name :: names)
  | anyDepth {dirs : List String} {steps : List GlobStep} {names : List String} :
      names ≠ [] → Leads steps names → Leads (.anyDepth :: steps) (dirs ++ names)

/-- The ways to files that a pattern stands for. None of them goes up. -/
structure Covers (g : Glob) (names : List String) : Prop where
  files : g.directoriesOnly = false
  leads : Leads g.steps names
  down : ".." ∉ names

variable {fs : FileStore} {p q root : Path} {r : Route} {steps : List GlobStep} {names : List String}
  {directoriesOnly : Bool}

theorem Leads.isEmpty_eq (h : Leads steps names) : steps.isEmpty = names.isEmpty := by
  cases h with
  | anyDepth more => simp [more]
  | _ => rfl

/-- The first entry on a way to another one is there too, and is a directory if there are more. -/
theorem first_on_way (tree : fs.IsTree) {name : String} {e : Entry}
    (found : fs.entry? (r ++ name :: names) = some e) :
    ∃ first, fs.entry? (r ++ [name]) = some first ∧ (names ≠ [] → ∃ t, first = .directory t) := by
  cases names with
  | nil => exact ⟨e, found, fun more => absurd rfl more⟩
  | cons next names =>
    have split : r ++ name :: next :: names = r ++ [name] ++ next :: names := by simp
    obtain ⟨t, directory⟩ := tree.directory_above (List.cons_ne_nil next names) (split ▸ found)
    exact ⟨_, directory, fun _ => ⟨t, rfl⟩⟩

theorem locate_child (tree : fs.IsTree) (located : fs.locate p = .ok r) {name : String}
    (up : name ≠ "..") {e : Entry} (found : fs.entry? (r ++ name :: names) = some e) :
    fs.locate (p.child name) = .ok (r ++ [name]) := by
  obtain ⟨first, there, -⟩ := first_on_way tree found
  exact locate_below tree located (by simpa using up.symm) there

theorem isThere_below (tree : fs.IsTree) (located : fs.locate p = .ok r)
    {name : String} (up : name ≠ "..") {e : Entry} (found : fs.entry? (r ++ name :: names) = some e) :
    isThere fs (!names.isEmpty) (p.child name) = true := by
  obtain ⟨first, there, directory⟩ := first_on_way tree found
  have foundChild : fs.find (p.child name) = .ok first :=
    (find_below tree located (by simpa using up.symm)).2 there
  cases names with
  | nil => exact hasEntry_iff.2 ⟨first, foundChild⟩
  | cons next names =>
    obtain ⟨t, rfl⟩ := directory (List.cons_ne_nil next names)
    exact hasDirectory_iff.2 ⟨t, foundChild⟩

/-- A file on a way that the steps lead over is selected. -/
theorem mem_of_leads (tree : fs.IsTree) (leads : Leads steps names) (down : ".." ∉ names)
    {c : List UInt8} {t : Int} (located : fs.locate p = .ok r)
    (file : fs.entry? (r ++ names) = some (.file c t)) :
    ⟨p.anchor, p.names ++ names⟩ ∈ selectFrom fs false steps p := by
  -- On the way: a step takes one name, or any number of them if it stands for any depth.
  induction leads generalizing p r with
  | nil => simp [selectFrom]
  | @child name steps names leads ih =>
    simp only [List.mem_cons, not_or] at down
    have there := isThere_below tree located (Ne.symm down.1) file
    have further := ih down.2 (locate_child tree located (Ne.symm down.1) file) (by simpa using file)
    rw [selectFrom, leads.isEmpty_eq, Bool.false_or, there, if_pos rfl]
    simpa [Path.child] using further
  | @like w name steps names accepted leads ih =>
    simp only [List.mem_cons, not_or] at down
    have there := isThere_below tree located (Ne.symm down.1) file
    have further := ih down.2 (locate_child tree located (Ne.symm down.1) file) (by simpa using file)
    have listed : name ∈ namesIn fs p := by
      obtain ⟨first, child, -⟩ := first_on_way tree file
      unfold namesIn
      rw [located]
      exact mem_children child
    refine List.mem_flatMap.2 ⟨name, listed, ?_⟩
    rw [leads.isEmpty_eq, Bool.false_or, accepted, there, Bool.and_self, if_pos rfl]
    simpa [Path.child] using further
  | @anyDepth dirs steps names more leads ih =>
    simp only [List.mem_append, not_or] at down
    rw [← List.append_assoc] at file
    have directory := tree.directory_above more file
    obtain ⟨t, found⟩ := directory
    have further := ih down.2 (locate_below tree located down.1 found) file
    have listed : ⟨p.anchor, p.names ++ dirs⟩ ∈ directoriesIn fs p := by
      unfold directoriesIn
      rw [located]
      exact List.mem_map.2 ⟨dirs, mem_directoriesBelow ⟨t, found⟩, rfl⟩
    refine List.mem_flatMap.2 ⟨_, listed, ?_⟩
    rwa [← List.append_assoc]

theorem not_hasFile_of_hasDirectory (there : fs.hasDirectory p = true) : ¬ fs.hasFile p = true := by
  intro file
  obtain ⟨t, found⟩ := hasDirectory_iff.1 there
  obtain ⟨c, t', found'⟩ := hasFile_iff.1 file
  cases found.symm.trans found'

theorem notUp_of_namesIn (listed : fs.Listed) {name : String} (among : name ∈ namesIn fs p) :
    name ≠ ".." := by
  unfold namesIn at among
  split at among
  · obtain ⟨e, entry, last⟩ := List.mem_filterMap.1 among
    split at last
    · exact (listed.names e entry name (List.mem_of_getLast? last)).notUp
    · cases last
  · cases among

theorem directory_of_directoriesIn (tree : fs.IsTree) (listed : fs.Listed)
    (above : fs.hasDirectory p = true) (among : q ∈ directoriesIn fs p) :
    ∃ dirs, q = ⟨p.anchor, p.names ++ dirs⟩ ∧ ".." ∉ dirs ∧ fs.hasDirectory q = true := by
  obtain ⟨located, start⟩ := locate_of_hasDirectory above
  unfold directoriesIn at among
  rw [located] at among
  obtain ⟨dirs, below, rfl⟩ := List.mem_map.1 among
  obtain ⟨t, found⟩ := listed.directory_of_below start below
  have down : ".." ∉ dirs := fun mem =>
    (listed.names_of_entry found _ (List.mem_append_right _ mem)).notUp rfl
  exact ⟨dirs, rfl, down, hasDirectory_iff.2 ⟨t, (find_below tree located down).2 found⟩⟩

/-- The path goes on from another one, over names that the steps lead over as far as it is a file. -/
def Reads (fs : FileStore) (directoriesOnly : Bool) (steps : List GlobStep) (p q : Path) : Prop :=
  ∃ names, q = ⟨p.anchor, p.names ++ names⟩ ∧ ".." ∉ names ∧
    (fs.hasFile q = true → Leads steps names ∧ (steps ≠ [] → directoriesOnly = false))

/-- Behind a name the rest of the steps goes on, from a directory if there are any. -/
theorem reads_behind {name : String} (notUp : name ≠ "..")
    (there : isThere fs (directoriesOnly || !steps.isEmpty) (p.child name) = true)
    (rest : (steps ≠ [] → fs.hasDirectory (p.child name) = true) →
      Reads fs directoriesOnly steps (p.child name) q) :
    ∃ names, q = ⟨p.anchor, p.names ++ name :: names⟩ ∧ ".." ∉ name :: names ∧
      (fs.hasFile q = true → Leads steps names ∧ directoriesOnly = false) := by
  have next : steps ≠ [] → fs.hasDirectory (p.child name) = true := by
    intro ne
    have more : steps.isEmpty = false := by simpa using ne
    rw [more] at there
    simpa [isThere] using there
  obtain ⟨names, rfl, down, leads⟩ := rest next
  refine ⟨names, by simp [Path.child], by simp [notUp.symm, down], fun file => ?_⟩
  obtain ⟨leads, notOnly⟩ := leads file
  refine ⟨leads, ?_⟩
  by_cases none : steps = []
  · subst none
    cases leads
    rw [List.append_nil] at file
    -- A pattern for directories only would not have selected the file.
    cases directoriesOnly with
    | false => rfl
    | true => exact absurd file (not_hasFile_of_hasDirectory there)
  · exact notOnly none

/-- What steps select is on a way that they lead over, as far as it is a file. -/
theorem leads_of_mem (tree : fs.IsTree) (listed : fs.Listed) (up : .child ".." ∉ steps)
    (directory : steps ≠ [] → fs.hasDirectory p = true)
    (mem : q ∈ selectFrom fs directoriesOnly steps p) : Reads fs directoriesOnly steps p q := by
  induction steps generalizing p with
  | nil =>
    obtain rfl := List.mem_singleton.1 mem
    exact ⟨[], by simp, List.not_mem_nil, fun _ => ⟨.nil, fun ne => absurd rfl ne⟩⟩
  | cons step steps ih =>
    have above := directory (List.cons_ne_nil step steps)
    simp only [List.mem_cons, not_or] at up
    cases step with
    | child name =>
      rw [selectFrom] at mem
      split at mem
      · next there =>
        have notUp : name ≠ ".." := fun same => up.1 (same ▸ rfl)
        obtain ⟨names, rfl, down, leads⟩ := reads_behind notUp there fun next => ih up.2 next mem
        exact ⟨_, rfl, down, fun file => ⟨.child (leads file).1, fun _ => (leads file).2⟩⟩
      · cases mem
    | like w =>
      obtain ⟨name, among, mem⟩ := List.mem_flatMap.1 mem
      split at mem
      · next both =>
        rw [Bool.and_eq_true] at both
        obtain ⟨names, rfl, down, leads⟩ :=
          reads_behind (notUp_of_namesIn listed among) both.2 fun next => ih up.2 next mem
        exact ⟨_, rfl, down, fun file => ⟨.like both.1 (leads file).1, fun _ => (leads file).2⟩⟩
      · cases mem
    | anyDepth =>
      obtain ⟨p', among, mem⟩ := List.mem_flatMap.1 mem
      obtain ⟨dirs, rfl, down, there⟩ := directory_of_directoriesIn tree listed above among
      obtain ⟨names, rfl, down', leads⟩ := ih up.2 (fun _ => there) mem
      refine ⟨dirs ++ names, by simp, by simp [down, down'], fun file => ?_⟩
      obtain ⟨leads, notOnly⟩ := leads file
      -- A file is not one of the directories on the way, so there are names behind those.
      have more : names ≠ [] := by
        rintro rfl
        rw [List.append_nil] at file
        exact not_hasFile_of_hasDirectory there file
      refine ⟨.anyDepth more leads, fun _ => notOnly ?_⟩
      rintro rfl
      cases leads
      exact more rfl

/-- A pattern without steps up selects the files that are there on the ways it stands for. -/
theorem mem_select_iff {g : Glob} (tree : fs.IsTree) (listed : fs.Listed)
    (up : .child ".." ∉ g.steps) (directory : fs.hasDirectory root = true)
    (file : fs.hasFile q = true) : q ∈ g.select fs root ↔
      ∃ names, q = ⟨root.anchor, root.names ++ names⟩ ∧ g.Covers names := by
  unfold select
  rw [if_pos directory]
  constructor
  · intro mem
    obtain ⟨names, rfl, down, leads⟩ := leads_of_mem tree listed up (fun _ => directory) mem
    obtain ⟨leads, notOnly⟩ := leads file
    have some : g.steps ≠ [] := by
      intro none
      rw [none] at leads
      cases leads
      rw [List.append_nil] at file
      exact not_hasFile_of_hasDirectory directory file
    exact ⟨names, rfl, notOnly some, leads, down⟩
  · rintro ⟨names, rfl, covers⟩
    obtain ⟨c, t, found⟩ := hasFile_iff.1 file
    obtain ⟨located, -⟩ := locate_of_hasDirectory directory
    rw [covers.files]
    exact mem_of_leads tree covers.leads covers.down located
      ((find_below tree located covers.down).1 found)

/-! ## Patterns as they are written -/

theorem step_eq_child {text name : String} (h : step text = .ok (.child name)) : text = name := by
  unfold step at h
  split at h
  · cases h
  · split at h
    · cases h
    · split at h
      · cases h
      · cases h
        rfl

theorem exists_mapM_iff {α β ε : Type} {f : α → Except ε β} {xs : List α} :
    (∃ ys, xs.mapM f = .ok ys) ↔ ∀ x ∈ xs, ∃ y, f x = .ok y := by
  induction xs with
  | nil => simp [pure, Except.pure]
  | cons x xs ih =>
    rw [List.mapM_cons, List.forall_mem_cons, ← ih]
    cases first : f x with
    | error e => simp [bind, Except.bind]
    | ok y =>
      cases rest : xs.mapM f with
      | error e => simp [bind, Except.bind]
      | ok ys => simp [bind, Except.bind, pure, Except.pure]

theorem mem_of_mapM {α β ε : Type} {f : α → Except ε β} {xs : List α} {ys : List β} {y : β}
    (h : xs.mapM f = .ok ys) : y ∈ ys ↔ ∃ x ∈ xs, f x = .ok y := by
  induction xs generalizing ys with
  | nil =>
    cases h
    simp
  | cons x xs ih =>
    rw [List.mapM_cons] at h
    cases first : f x with
    | error e =>
      rw [first] at h
      cases h
    | ok z =>
      cases rest : xs.mapM f with
      | error e =>
        rw [first, rest] at h
        cases h
      | ok zs =>
        rw [first, rest] at h
        cases h
        simp [ih rest, first, eq_comm]

/-- A text that denotes a pattern: a way down with a name in it, in which two stars make up a whole name. -/
structure Readable (text : String) : Prop where
  nonempty : text ≠ ""
  relative : (Path.ofText text).isAbsolute = false
  named : (Path.ofText text).names ≠ []
  stars : ∀ name ∈ (Path.ofText text).names, name = "**" ∨ hasDoubleStar name.toList = false

theorem step_ok_iff {name : String} :
    (∃ s, step name = .ok s) ↔ name = "**" ∨ hasDoubleStar name.toList = false := by
  unfold step
  by_cases all : name = "**"
  · simp [all]
  · rw [if_neg all]
    by_cases stars : hasDoubleStar name.toList = true
    · simp [all, stars]
    · by_cases special : Wildcard.isSpecial name = true <;> simp [all, stars, special]

theorem parse_ok_iff {text : String} : (∃ g, parse text = .ok g) ↔ Readable text := by
  have steps : (∃ ss, (Path.ofText text).names.mapM step = .ok ss) ↔
      ∀ name ∈ (Path.ofText text).names, name = "**" ∨ hasDoubleStar name.toList = false := by
    simp only [exists_mapM_iff, step_ok_iff]
  -- The conditions are checked one after the other, the one about the single steps last.
  unfold parse
  constructor
  · intro parsed
    split at parsed
    · obtain ⟨_, parsed⟩ := parsed
      cases parsed
    · next nonempty =>
      split at parsed
      · obtain ⟨_, parsed⟩ := parsed
        cases parsed
      · next relative =>
        simp only at parsed
        split at parsed
        · obtain ⟨_, parsed⟩ := parsed
          cases parsed
        · next named =>
          obtain ⟨_, parsed⟩ := parsed
          cases mapped : (Path.ofText text).names.mapM step with
          | error e =>
            rw [mapped] at parsed
            cases parsed
          | ok ss => exact ⟨nonempty, by simpa using relative, named, steps.1 ⟨ss, mapped⟩⟩
  · rintro ⟨nonempty, relative, named, stars⟩
    obtain ⟨ss, mapped⟩ := steps.2 stars
    obtain ⟨name, names, first⟩ := List.exists_cons_of_ne_nil named
    rw [first] at mapped
    refine ⟨⟨ss, text.toList.getLast? = some '/'⟩, ?_⟩
    rw [if_neg nonempty, if_neg (by simp [relative])]
    simp only [first, mapped]
    rfl

theorem parse_up {text : String} {g : Glob} (h : parse text = .ok g)
    (down : ".." ∉ (Path.ofText text).names) : .child ".." ∉ g.steps := by
  unfold parse at h
  split at h
  · cases h
  · split at h
    · cases h
    · simp only at h
      split at h
      · cases h
      · next names =>
        cases steps : (Path.ofText text).names.mapM step with
        | error e =>
          rw [steps] at h
          cases h
        | ok steps' =>
          rw [steps] at h
          cases h
          intro mem
          obtain ⟨name, among, eq⟩ := (mem_of_mapM steps).1 mem
          exact down (step_eq_child eq ▸ among)

end Glob

/-! ## Settings -/

theorem isName_configFileName : IsName configFileName :=
  ⟨by decide, by decide, by decide, by decide⟩

namespace ProjectConfig

/-- No pattern goes up. -/
def Inward (config : ProjectConfig) : Prop :=
  ∀ pattern ∈ config.sources, ".." ∉ (Path.ofText pattern).names

/-- The ways to files that settings stand for. The directory of the project shows in them only by its
    place. -/
structure Takes (config : ProjectConfig) (here : Route) (root : Path) (names : List String) : Prop where
  covered : ∃ pattern ∈ config.sources, ∃ g, Glob.parse pattern = .ok g ∧ g.Covers names
  outside : ∀ more, more ≠ [] →
    route here root ++ names ≠ route here (config.buildPlace root) ++ more
  included : config.excludes ⟨.here, names⟩ = false

variable {config : ProjectConfig} {here : Route} {root root' : Path} {names : List String}

theorem Takes.down (h : config.Takes here root names) : ".." ∉ names := by
  obtain ⟨-, -, g, -, covers⟩ := h.covered
  exact covers.down

theorem route_buildPlace (same : route here root = route here root') :
    route here (config.buildPlace root) = route here (config.buildPlace root') := by
  by_cases relative : (Path.ofText config.buildDirectory).anchor = .here
  · rw [buildPlace, buildPlace, route_join here root relative, route_join here root' relative, same]
  · have absolute : (Path.ofText config.buildDirectory).isAbsolute = true := by
      simpa [Path.isAbsolute] using relative
    rw [buildPlace, buildPlace, Path.join, Path.join, if_pos absolute, if_pos absolute]

/-- Projects at one place take the same ways. -/
theorem Takes.of_route (h : config.Takes here root names) (same : route here root = route here root') :
    config.Takes here root' names where
  covered := h.covered
  outside := by
    rw [← same, ← route_buildPlace same]
    exact h.outside
  included := h.included

end ProjectConfig

theorem isBelow_resolve {here : Route} {p q : Path} :
    (p.resolve here).isBelow (q.resolve here) = true ↔
      ∃ more, more ≠ [] ∧ route here p = route here q ++ more := by
  unfold Path.isBelow
  simp only [Bool.and_eq_true, beq_iff_eq, List.isPrefixOf_iff_prefix, decide_eq_true_eq]
  constructor
  · rintro ⟨⟨-, more, split⟩, less⟩
    refine ⟨more, ?_, split.symm⟩
    rintro rfl
    rw [← split, List.append_nil] at less
    exact Nat.lt_irrefl _ less
  · rintro ⟨more, some, split⟩
    have split : (p.resolve here).names = (q.resolve here).names ++ more := split
    have := List.length_pos_iff.2 some
    exact ⟨⟨rfl, more, split.symm⟩, by rw [split, List.length_append]; omega⟩

theorem mem_insertInto {p q : Path} {ps : List Path} : p ∈ q.insertInto ps ↔ p = q ∨ p ∈ ps := by
  induction ps with
  | nil => simp [Path.insertInto]
  | cons r ps ih =>
    unfold Path.insertInto
    split
    · next same => rw [same, List.mem_cons, or_self_left]
    · split
      · exact List.mem_cons
      · rw [List.mem_cons, ih, List.mem_cons, or_left_comm]

theorem mem_foldl_insertInto {p : Path} {ps qs : List Path} :
    p ∈ qs.foldl (fun ps q => q.insertInto ps) ps ↔ p ∈ qs ∨ p ∈ ps := by
  induction qs generalizing ps with
  | nil => simp
  | cons q qs ih => rw [List.foldl_cons, ih, mem_insertInto, List.mem_cons, or_assoc, or_left_comm]

section Sources

variable {fs : FileStore} {config : ProjectConfig} {root p : Path} {sources : List Path}

theorem ProjectConfig.mem_choose {patterns : List Glob} : p ∈ config.choose fs root patterns ↔
    (∃ g ∈ patterns, p ∈ g.select fs root) ∧ config.selects fs root p = true := by
  rw [ProjectConfig.choose, mem_foldl_insertInto, List.mem_filter, List.mem_flatMap]
  simp

/-- What has to be so for the sources of a project to be found: there is no null character in the way to its
    build directory, all patterns can be read, and the search is not too much for the platform. -/
structure ProjectConfig.Searchable [Limits] (config : ProjectConfig) (fs : FileStore) (root : Path) :
    Prop where
  resolvable : config.isUnresolvable fs root = false
  readable : ∀ pattern ∈ config.sources, Glob.Readable pattern
  within : Limits.search fs config.sources root = false

section Limited

variable [Limits]

theorem findSources_eq_ok (found : findSources fs config root = .ok sources) :
    ∃ gs, config.sources.mapM Glob.parse = .ok gs ∧ sources = config.choose fs root gs := by
  unfold findSources at found
  split at found
  · cases found
  · split at found
    · cases found
    · next gs globs =>
      split at found
      · cases found
      · cases found
        exact ⟨gs, globs, rfl⟩

/-- Sources are the selected paths that the patterns lead to. -/
theorem mem_findSources (found : findSources fs config root = .ok sources) : p ∈ sources ↔
    (∃ pattern ∈ config.sources, ∃ g, Glob.parse pattern = .ok g ∧ p ∈ g.select fs root) ∧
      config.selects fs root p = true := by
  obtain ⟨gs, globs, rfl⟩ := findSources_eq_ok found
  rw [ProjectConfig.mem_choose]
  simp only [Glob.mem_of_mapM globs]
  constructor
  · rintro ⟨⟨g, ⟨pattern, mem, parsed⟩, selected⟩, selects⟩
    exact ⟨⟨pattern, mem, g, parsed, selected⟩, selects⟩
  · rintro ⟨⟨pattern, mem, g, parsed, selected⟩, selects⟩
    exact ⟨⟨g, ⟨pattern, mem, parsed⟩, selected⟩, selects⟩

theorem findSources_ok_iff :
    (∃ sources, findSources fs config root = .ok sources) ↔ config.Searchable fs root := by
  have globs : (∃ gs, config.sources.mapM Glob.parse = .ok gs) ↔
      ∀ pattern ∈ config.sources, Glob.Readable pattern := by
    simp only [Glob.exists_mapM_iff, Glob.parse_ok_iff]
  unfold findSources
  constructor
  · rintro ⟨sources, found⟩
    split at found
    · cases found
    · next resolvable =>
      split at found
      · cases found
      · next gs parsed =>
        split at found
        · cases found
        · next within =>
          exact ⟨by simpa using resolvable, globs.1 ⟨gs, parsed⟩, by simpa using within⟩
  · rintro ⟨resolvable, readable, within⟩
    obtain ⟨gs, parsed⟩ := globs.2 readable
    exact ⟨config.choose fs root gs, by simp [resolvable, parsed, within]⟩

end Limited

/-- No null character is in the way to a build directory that is given without one, if the root is there. -/
theorem ProjectConfig.isUnresolvable_of_hasDirectory (directory : fs.hasDirectory root = true) :
    config.isUnresolvable fs root = (Path.ofText config.buildDirectory).hasNull := by
  simp [ProjectConfig.isUnresolvable, refuses_of_hasDirectory directory]

theorem selects_iff : config.selects fs root p = true ↔ fs.hasFile p = true ∧
    (∀ more, more ≠ [] → route fs.here p ≠ route fs.here (config.buildPlace root) ++ more) ∧
      config.excludes ⟨.here, p.names.drop root.names.length⟩ = false := by
  have below : (p.resolve fs.here).isBelow ((config.buildPlace root).resolve fs.here) = true ↔
      ∃ more, more ≠ [] ∧ route fs.here p = route fs.here (config.buildPlace root) ++ more :=
    isBelow_resolve
  unfold ProjectConfig.selects
  rw [Bool.and_eq_true, Bool.and_eq_true, Bool.not_eq_true', Bool.not_eq_true', and_assoc,
    Bool.eq_false_iff, ne_eq, below]
  simp

/-- The sources of a project are the files that are there on the ways its settings stand for. -/
theorem mem_findSources_iff (tree : fs.IsTree) (listed : fs.Listed) (inward : config.Inward)
    (directory : fs.hasDirectory root = true) (found : findSources fs config root = .ok sources) :
    p ∈ sources ↔ ∃ names, p = ⟨root.anchor, root.names ++ names⟩ ∧
      config.Takes fs.here root names ∧
        ∃ c t, fs.entry? (route fs.here root ++ names) = some (.file c t) := by
  obtain ⟨located, -⟩ := locate_of_hasDirectory directory
  -- A pattern without a step up selects just the files whose way it covers.
  rw [mem_findSources found, selects_iff]
  constructor
  · rintro ⟨⟨pattern, mem, g, parsed, selected⟩, file, outside, included⟩
    obtain ⟨names, rfl, covers⟩ := (Glob.mem_select_iff tree listed
      (Glob.parse_up parsed (inward pattern mem)) directory file).1 selected
    rw [route_names _ _ covers.down] at outside
    rw [List.drop_left] at included
    obtain ⟨c, t, found⟩ := hasFile_iff.1 file
    exact ⟨names, rfl, ⟨⟨pattern, mem, g, parsed, covers⟩, outside, included⟩, c, t,
      (find_below tree located covers.down).1 found⟩
  · rintro ⟨names, rfl, takes, c, t, entry⟩
    have file := hasFile_iff.2 ⟨c, t, (find_below tree located takes.down).2 entry⟩
    obtain ⟨pattern, mem, g, parsed, covers⟩ := takes.covered
    refine ⟨⟨pattern, mem, g, parsed, ?_⟩, file, ?_, ?_⟩
    · exact (Glob.mem_select_iff tree listed (Glob.parse_up parsed (inward pattern mem)) directory
        file).2 ⟨names, rfl, covers⟩
    · rw [route_names _ _ takes.down]
      exact takes.outside
    · rw [List.drop_left]
      exact takes.included

end Sources

end IdlFront
