import IdlFront.Proofs.Command.Counting
import IdlFront.Proofs.Command.Endings
import IdlFront.Proofs.Files.Rewriting

/-! # Checks that do not see a file

* `Clean` — a file without diagnostics.
* `Command.Alike` — commands in two stores that print the same and end the same.
* `Command.Apart`, `Command.Steady` — paths and targets that have nothing to do with a file.
* `Command.alike_check` — a check of such paths does not see what is in the file.
* `check_counts` — a check counts all diagnostics whatever it prints of them, and what is in the settings
  of the working directory does not matter unless they are needed.
* `check_reads_settings` — as a source of another project they are needed, too.
-/

namespace IdlFront

open FileStore

/-- The path is that of a file with a text that has no diagnostics. -/
def Clean (fs : FileStore) (p : Path) : Prop :=
  ∃ text, fs.readText p = .ok text ∧ (parse text).diagnostics = []

theorem Clean.parseFile {fs : FileStore} {p : Path} (clean : Clean fs p) :
    ∃ result, parseFile fs p = .ok result ∧ result.errorCount = 0 := by
  obtain ⟨text, read, none⟩ := clean
  exact ⟨parse text, by simp [IdlFront.parseFile, refuses_of_readText read, read],
    List.length_eq_zero_iff.2 none⟩

namespace Command

variable {α β : Type} {fs fs' : FileStore} {P : α → Prop} {Q : β → Prop} {c c' : Command α}

/-! ## Commands in two stores -/

/-- Two commands do the same, each in its store, which it leaves as it is: they print the same, and they
    either come to the same value, of which a property holds, or fail in the same way. -/
def Alike (fs fs' : FileStore) (P : α → Prop) (c c' : Command α) : Prop := ∀ output reports,
  (∃ a output' reports', P a ∧ c ⟨fs, output, reports⟩ = .ok a ⟨fs, output', reports'⟩ ∧
    c' ⟨fs', output, reports⟩ = .ok a ⟨fs', output', reports'⟩) ∨
  ∃ e output' reports', c ⟨fs, output, reports⟩ = .error e ⟨fs, output', reports'⟩ ∧
    c' ⟨fs', output, reports⟩ = .error e ⟨fs', output', reports'⟩

namespace Alike

theorem pure {a : α} (holds : P a) : Alike fs fs' P (Pure.pure a) (Pure.pure a) :=
  fun output reports => .inl ⟨a, output, reports, holds, rfl, rfl⟩

/-- Where there is no value, every property holds of it. -/
theorem none {Q : α → Prop} : Alike fs fs' (fun found : Option α => ∀ a, found = some a → Q a)
    (Pure.pure none) (Pure.pure none) :=
  pure fun a eq => absurd eq (Option.some_ne_none a).symm

theorem throw (e : CommandFailure) : Alike fs fs' P (MonadExcept.throw e) (MonadExcept.throw e) :=
  fun output reports => .inr ⟨e, output, reports, rfl, rfl⟩

theorem say (line : String) : Alike fs fs' (fun _ => True) (Command.say line) (Command.say line) :=
  fun output reports => .inl ⟨(), output ++ [line], reports, trivial, rfl, rfl⟩

theorem reportAll (rs : List Report) :
    Alike fs fs' (fun _ => True) (Command.reportAll rs) (Command.reportAll rs) :=
  fun output reports => .inl ⟨(), output, reports ++ rs, trivial, rfl, rfl⟩

/-- What is read from the files may differ, if what is done with it does not. -/
theorem files {f g : FileStore → Command β} (next : Alike fs fs' Q (f fs) (g fs')) :
    Alike fs fs' Q (Command.files >>= f) (Command.files >>= g) :=
  fun output reports => next output reports

theorem bind {f g : α → Command β} (first : Alike fs fs' P c c')
    (next : ∀ a, P a → Alike fs fs' Q (f a) (g a)) : Alike fs fs' Q (c >>= f) (c' >>= g) := by
  intro output reports
  obtain ⟨a, output', reports', holds, run, run'⟩ | ⟨e, output', reports', run, run'⟩ :=
    first output reports
  · rw [bind_ok run, bind_ok run']
    exact next a holds output' reports'
  · exact .inr ⟨e, output', reports', bind_error run, bind_error run'⟩

theorem outcome {c c' : Command Nat} {P : Nat → Prop} (h : Alike fs fs' P c c') :
    c'.outcome fs' = { c.outcome fs with files := fs' } := by
  unfold Command.outcome
  obtain ⟨a, output, reports, -, run, run'⟩ | ⟨e, output, reports, run, run'⟩ := h [] []
  · rw [run, run']
  · rw [run, run']

end Alike

theorem alike_buildError (failure : BuildFailure) :
    Alike fs fs' (fun _ => True) (buildError failure) (buildError failure) := by
  cases failure with
  | error e => exact .pure trivial
  | artifactRefused e => exact .throw _
  | breakdown b => exact .throw _

/-! ## Checks -/

/-- What a path stands for is apart from a file: that one holds neither the settings nor a source of a
    project that the path leads to, and a file at the path has no diagnostics in either store. -/
structure Apart (file : Route) (fs fs' : FileStore) (path : Path) : Prop where
  settings : fs.hasDirectory path = true →
    route fs.here (path.join (.ofText configFileName)) ≠ file
  sources : fs.hasDirectory path = true → ∀ config sources, IsProject fs path config sources →
    ∀ source ∈ sources, route fs.here source ≠ file
  clean : fs.hasFile path = true → Clean fs path ∧ Clean fs' path

/-- A target that is the same in both stores and has settings of its own, or is clean in both. -/
def Steady (fs fs' : FileStore) (t : Target) : Prop :=
  (∃ config, t.config = some config) ∧ parseFile fs' t.path = parseFile fs t.path ∨
    Clean fs t.path ∧ Clean fs' t.path

section Checks

variable {file : Route} (h : Rewritten file fs fs')

include h

theorem alike_loadProject {directory : Path}
    (apart : route fs.here (directory.join (.ofText configFileName)) ≠ file) :
    Alike fs fs' (fun loaded => ∀ config, loaded = some config →
        loadConfig fs (directory.join (.ofText configFileName)) = .ok config)
      (loadProject directory) (loadProject directory) := by
  unfold loadProject
  refine Alike.files ?_
  rw [h.loadConfig apart]
  split
  · next config loaded =>
    refine .pure fun config' eq => ?_
    cases eq
    exact loaded
  · exact (Alike.reportAll _).bind fun _ _ => .none
  · exact .throw _
  · exact .throw _
  · exact .throw _

theorem alike_sourcesOf (config : ProjectConfig) (directory : Path) :
    Alike fs fs' (fun sources => findSources fs config directory = .ok sources)
      (sourcesOf config directory) (sourcesOf config directory) := by
  unfold sourcesOf
  refine Alike.files ?_
  rw [h.findSources]
  split
  · next sources found => exact .pure found
  · exact .throw _
  · exact .throw _

theorem alike_projectTargets {path : Path} (apart : Apart file fs fs' path)
    (there : fs.hasDirectory path = true) :
    Alike fs fs' (fun found => ∀ part, found = some part → ∀ t ∈ part, Steady fs fs' t)
      (projectTargets path) (projectTargets path) := by
  unfold projectTargets
  refine (alike_loadProject h (apart.settings there)).bind fun loaded isLoaded => ?_
  cases loaded with
  | none => exact .none
  | some config =>
    refine (alike_sourcesOf h config path).bind fun sources found => .pure fun part eq t mem => ?_
    cases eq
    obtain ⟨source, isSource, rfl⟩ := List.mem_map.1 mem
    have other := apart.sources there config sources ⟨isLoaded config rfl, found⟩ source isSource
    exact .inl ⟨⟨config, rfl⟩, h.parseFile other⟩

theorem alike_targetsAt {path : Path} (apart : Apart file fs fs' path) :
    Alike fs fs' (fun found => ∀ part, found = some part → ∀ t ∈ part, Steady fs fs' t)
      (targetsAt path) (targetsAt path) := by
  have asked : Alike fs fs' (fun _ => True) (lookUp path) (lookUp path) := Alike.files (.pure trivial)
  unfold targetsAt
  refine asked.bind fun _ _ => Alike.files ?_
  rw [h.hasDirectory, h.hasEntry]
  split
  · next there => exact alike_projectTargets h apart there
  · next notDirectory =>
    split
    · next there =>
      refine .pure fun part eq t mem => ?_
      cases eq
      obtain rfl := List.mem_singleton.1 mem
      exact .inr (apart.clean (hasFile_of_hasEntry there notDirectory))
    · exact (Alike.reportAll _).bind fun _ _ => .none

theorem alike_targets {paths : List Path} (apart : ∀ p ∈ paths, Apart file fs fs' p) :
    Alike fs fs' (fun found => ∀ part, found = some part → ∀ t ∈ part, Steady fs fs' t)
      (targets paths) (targets paths) := by
  induction paths with
  | nil =>
    refine .pure fun part eq t mem => ?_
    cases eq
    exact absurd mem List.not_mem_nil
  | cons path paths ih =>
    obtain ⟨first, others⟩ := List.forall_mem_cons.1 apart
    unfold targets
    refine (alike_targetsAt h first).bind fun found steady => ?_
    cases found with
    | none => exact .none
    | some part =>
      refine (ih others).bind fun found steady' => ?_
      cases found with
      | none => exact .none
      | some more =>
        refine .pure fun part' eq t mem => ?_
        cases eq
        exact (List.mem_append.1 mem).elim (steady part rfl t) (steady' more rfl t)

omit h in
/-- Steady targets are checked without the settings of the working directory. -/
theorem alike_checkTargets {own : Option ProjectConfig} {total : Nat} {found : List Target}
    (steady : ∀ t ∈ found, Steady fs fs' t) : Alike fs fs' (fun _ => True)
      (checkTargets own total found) (checkTargets own total found) := by
  induction found generalizing own total with
  | nil => exact .pure trivial
  | cons t rest ih =>
    obtain ⟨first, others⟩ := List.forall_mem_cons.1 steady
    unfold checkTargets
    refine Alike.files ?_
    -- A target has settings of its own and the same text in both stores, or it is clean in both.
    obtain ⟨⟨config, given⟩, same⟩ | ⟨clean, clean'⟩ := first
    · rw [same]
      split
      · next failure _ =>
        exact (alike_buildError failure).bind fun _ _ => (Alike.reportAll _).bind fun _ _ => .pure trivial
      · split
        · exact ih others
        · simp only [configFor, given]
          refine (Alike.pure (P := fun _ => True) trivial).bind fun loaded _ => ?_
          cases loaded with
          | none => exact .pure trivial
          | some config => exact (Alike.reportAll _).bind fun _ _ => ih others
    · obtain ⟨result, parsed, none⟩ := clean.parseFile
      obtain ⟨result', parsed', none'⟩ := clean'.parseFile
      rw [parsed, parsed']
      simp only [none, none', if_true]
      exact ih others

omit h in
theorem alike_checkFound {found : Option (List Target)}
    (steady : ∀ part, found = some part → ∀ t ∈ part, Steady fs fs' t) :
    Alike fs fs' (fun _ => True) (checkFound found) (checkFound found) := by
  unfold checkFound
  split
  · exact .pure trivial
  · exact (Alike.say _).bind fun _ _ => .pure trivial
  · refine (Alike.say _).bind fun _ _ => (alike_checkTargets (steady _ rfl)).bind fun total _ => ?_
    split
    · exact .pure trivial
    · exact (Alike.say _).bind fun _ _ => .pure trivial
    · exact (Alike.reportAll _).bind fun _ _ => .pure trivial

/-- A check of paths that are apart from a file does not see what is in it. -/
theorem alike_check {paths : List String} (some : paths ≠ [])
    (apart : ∀ p ∈ paths.map Path.ofText, Apart file fs fs' p) :
    Alike fs fs' (fun _ => True) (check paths) (check paths) := by
  rw [check_eq, if_neg (by simpa using some)]
  exact (alike_targets h apart).bind fun found steady => alike_checkFound steady

end Checks

end Command

/-! ## The settings of the working directory -/

/-- Where the settings of the project in the working directory are. -/
def FileStore.settings (fs : FileStore) : Route := fs.here ++ [configFileName]

theorem route_settings (here : Route) (p : Path) :
    route here (p.join (.ofText configFileName)) = route here p ++ [configFileName] := by
  rw [p.join_name isName_configFileName]
  exact route_names here p (by decide)

/-- None of the paths leads to the working directory, nor to a project that has the settings there for
    one of its sources. -/
structure Elsewhere (fs : FileStore) (paths : List String) : Prop where
  named : paths ≠ []
  directory : ∀ p ∈ paths.map Path.ofText, fs.hasDirectory p = true → route fs.here p ≠ fs.here
  sources : ∀ p ∈ paths.map Path.ofText, fs.hasDirectory p = true → ∀ config sources,
    IsProject fs p config sources → ∀ source ∈ sources, route fs.here source ≠ fs.settings

theorem Elsewhere.apart {fs fs' : FileStore} {paths : List String} (h : Elsewhere fs paths)
    (clean : ∀ p ∈ paths.map Path.ofText, fs.hasFile p = true → Clean fs p ∧ Clean fs' p) :
    ∀ p ∈ paths.map Path.ofText, Command.Apart fs.settings fs fs' p := by
  intro p mem
  refine ⟨fun there same => ?_, h.sources p mem, clean p mem⟩
  rw [route_settings, settings] at same
  exact h.directory p mem there (List.append_cancel_right same)

/-- A check of readable targets counts every diagnostic: it succeeds just if there is none, and else
    says how many there are, whatever the caps let it print of each target. Where the files that are
    named have no diagnostics, what the settings of the working directory hold does not show, unless
    its project is checked or the settings are a source of one that is. -/
theorem check_counts (fs : FileStore) (paths : List String) :
    (∀ found own, Sought fs paths found →
      (∀ t ∈ found, ∃ text, fs.readText t.path = .ok text) →
      ((∃ t ∈ found, t.config = none ∧ diagnosticsAt fs t.path ≠ []) →
        loadConfig fs (Path.join ⟨.root, fs.here⟩ (.ofText configFileName)) = .ok own) →
      ((Request.check paths).run.outcome fs).ending =
          .ok (if totalErrors fs found = 0 then 0 else 1) ∧
        ((Request.check paths).run.outcome fs).output =
          Command.tally found.length (totalErrors fs found) ∧
        ((Request.check paths).run.outcome fs).reports.map Report.text =
          found.flatMap (Target.lines fs own) ++ if totalErrors fs found = 0 then []
            else [s!"Found {totalErrors fs found} error(s)."]) ∧
    ∀ content time content' time', fs.Listed →
      fs.entry? fs.settings = some (.file content time) → Elsewhere fs paths →
      (∀ p ∈ paths.map Path.ofText, fs.hasFile p = true →
        Clean fs p ∧ Clean (fs.put fs.settings (.file content' time')) p) →
      (Request.check paths).run.outcome (fs.put fs.settings (.file content' time')) =
        { (Request.check paths).run.outcome fs with
          files := fs.put fs.settings (.file content' time') } := by
  constructor
  · intro found own sought read loads
    exact Command.check_sought sought read ⟨nofun, loads⟩
  · intro content time content' time' listed there elsewhere clean
    exact (Command.alike_check (listed.rewritten there) elsewhere.named
      (elsewhere.apart clean)).outcome

/-- Two files and a project with a file, and settings that let one diagnostic of a file be printed. -/
def cappedStore : FileStore :=
  ⟨[([".xidl.yaml"], .file (Text.Utf8.encode "max-diagnostics: 1".toList) 0),
    (["a.idl"], .file (Text.Utf8.encode "??".toList) 0), (["b.idl"], .file [] 0),
    (["p"], .directory 0), (["p", "s.idl"], .file (Text.Utf8.encode "??".toList) 0)], [], 1⟩

/-- The diagnostics of a file that is named are cut off, those of the project are not, and all of them
    are counted. With a file that has none, settings that are no YAML do as well. -/
theorem check_counts_capped :
    (((Request.check ["p", "a.idl"]).run.outcome cappedStore).ending = .ok 1 ∧
      ((Request.check ["p", "a.idl"]).run.outcome cappedStore).output = ["Checking 2 IDL file(s)..."] ∧
      ((Request.check ["p", "a.idl"]).run.outcome cappedStore).reports.map Report.text =
        ["p/s.idl:1:1: error: Unexpected character '?'", "p/s.idl:1:2: error: Unexpected character '?'",
          "a.idl:1:1: error: Unexpected character '?'", "a.idl: 1 more error(s) not shown",
          "Found 4 error(s)."]) ∧
    (Request.check ["p", "b.idl"]).run.outcome
        (cappedStore.put [".xidl.yaml"] (.file (Text.Utf8.encode "]".toList) 1)) =
      { (Request.check ["p", "b.idl"]).run.outcome cappedStore with
        files := cappedStore.put [".xidl.yaml"] (.file (Text.Utf8.encode "]".toList) 1) } := by
  -- The project has no settings of its own, so the standard ones hold there.
  have project : IsProject cappedStore ⟨.here, ["p"]⟩ .standard [⟨.here, ["p", "s.idl"]⟩] :=
    ⟨by decide +kernel, by decide +kernel⟩
  constructor
  · have names : ["p", "a.idl"].map Path.ofText = [⟨.here, ["p"]⟩, ⟨.here, ["a.idl"]⟩] := by decide
    have each : List.Forall₂ (Named cappedStore) [⟨.here, ["p"]⟩, ⟨.here, ["a.idl"]⟩]
        [[⟨⟨.here, ["p", "s.idl"]⟩, some .standard⟩], [⟨⟨.here, ["a.idl"]⟩, none⟩]] :=
      .cons (.project (by decide) project) (.cons (.file (by decide)) .nil)
    have sought := Sought.named (List.cons_ne_nil "p" ["a.idl"]) (names ▸ each)
    have loaded : loadConfig cappedStore ⟨.root, [".xidl.yaml"]⟩ =
        .ok ⟨["**/*.idl"], [], ".xidl-build", 1⟩ := by
      decide +kernel
    obtain ⟨ending, output, lines⟩ := (check_counts cappedStore ["p", "a.idl"]).1 _ _ sought
      (List.forall_mem_cons.2 ⟨⟨"??", by decide +kernel⟩,
        List.forall_mem_cons.2 ⟨⟨"??", by decide +kernel⟩, nofun⟩⟩) fun _ => loaded
    exact ⟨ending.trans (by decide +kernel), output.trans (by decide +kernel),
      lines.trans (by decide +kernel)⟩
  · have names : ["p", "b.idl"].map Path.ofText = [⟨.here, ["p"]⟩, ⟨.here, ["b.idl"]⟩] := by decide
    have isName : ∀ name ∈ [".xidl.yaml", "a.idl", "b.idl", "p", "s.idl"], IsName name := by
      intro name mem
      simp only [List.mem_cons, List.not_mem_nil, or_false] at mem
      obtain rfl | rfl | rfl | rfl | rfl := mem <;>
        exact ⟨by decide, by decide, by decide, by decide⟩
    have listed : cappedStore.Listed :=
      ⟨by decide, by simp [cappedStore], by simpa [cappedStore] using isName, nofun⟩
    have elsewhere : Elsewhere cappedStore ["p", "b.idl"] := by
      refine ⟨List.cons_ne_nil _ _, ?_, ?_⟩
      · rw [names]
        decide
      · rw [names]
        intro p mem there config sources isProject
        obtain rfl | rfl : p = ⟨.here, ["p"]⟩ ∨ p = ⟨.here, ["b.idl"]⟩ := by simpa using mem
        · cases project.loaded.symm.trans isProject.loaded
          cases project.found.symm.trans isProject.found
          decide
        · cases there
    -- The file that is named on its own has no diagnostic, so nothing asks for the settings that change.
    refine (check_counts cappedStore ["p", "b.idl"]).2 _ 0 _ 1 listed rfl elsewhere ?_
    rw [names]
    intro p mem file
    obtain rfl | rfl : p = ⟨.here, ["p"]⟩ ∨ p = ⟨.here, ["b.idl"]⟩ := by simpa using mem
    · cases file
    · exact ⟨⟨"", by decide +kernel, by decide +kernel⟩, ⟨"", by decide +kernel, by decide +kernel⟩⟩

/-- A project that has the settings of another one for its source. -/
def borrowedStore (content : List UInt8) : FileStore :=
  ⟨[([".xidl.yaml"], .file (Text.Utf8.encode "sources: [\"w/*\"]".toList) 0),
    (["w"], .directory 0), (["w", ".xidl.yaml"], .file content 0)], ["w"], 1⟩

/-- Settings of the working directory show if they are a source of a project that is checked, even if that
    is in another directory and no file is named. And where settings that can be loaded have a pattern that is
    none, or a build directory with a null character in its name, there are no targets, and no exit code
    either. -/
theorem check_reads_settings :
    ((∃ content, borrowedStore content =
          (borrowedStore []).put (borrowedStore []).settings (.file content 0) ∧
        ((Request.check [".."]).run.outcome (borrowedStore content)).ending = .ok 1) ∧
      ((Request.check [".."]).run.outcome (borrowedStore [])).ending = .ok 0 ∧
      (borrowedStore []).hasDirectory (.ofText "..") = true ∧
      route (borrowedStore []).here (.ofText "..") ≠ (borrowedStore []).here) ∧
    (loadConfig emptyPatternStore ⟨.root, [".xidl.yaml"]⟩ = .ok ⟨[""], [], ".xidl-build", 0⟩ ∧
      ((Request.check []).run.outcome emptyPatternStore).ending = .error (.pattern .empty)) ∧
    loadConfig nullPlaceStore ⟨.root, [".xidl.yaml"]⟩ = .ok ⟨["**/*.idl"], [], "a\x00b", 0⟩ ∧
      ((Request.check []).run.outcome nullPlaceStore).ending = .error (.breakdown .nullCharacter) := by
  refine ⟨⟨⟨Text.Utf8.encode "max-diagnostics: 1".toList, ?_, ?_⟩, ?_, ?_, ?_⟩, ⟨?_, ?_⟩, ?_, ?_⟩
  · decide +kernel
  · decide +kernel
  · decide +kernel
  · decide
  · decide
  · decide +kernel
  · decide +kernel
  · decide +kernel
  · decide +kernel

end IdlFront
