import IdlFront.Proofs.Project.Cache
import IdlFront.Proofs.Project.Selection

/-! # How builds fail

* `BuildFailure.IsForeign` — a build ends, and with no error of its own.
* `FileStore.Hinders` — what there is to end the build of a source so: the platform does not cope with a
  path, a text or a tree, a null character is in the way to the artifact, or a directory in its place is
  newer than the source.
* `cachedResult_foreign_iff`, `rebuildFile_foreign_iff`, `buildFile_foreign_iff` — it is one of these, and
  nothing else.
* `buildFiles_listed` — a build that succeeds has one result for every source.
* `buildFiles_ends_iff` — builds have all their results, or fail with an error of their own, if no source
  meets anything of the kind when its turn comes.
-/

namespace IdlFront

open FileStore

/-! ## Hindrances -/

/-- The failure is not an error of the build. -/
def BuildFailure.IsForeign (failure : BuildFailure) : Prop := ∀ e, failure ≠ .error e

@[simp] theorem BuildFailure.not_isForeign_error {e : BuildError} :
    ¬ BuildFailure.IsForeign (.error e) := fun foreign => foreign e rfl

@[simp] theorem BuildFailure.isForeign_artifactRefused {e : FileError} :
    BuildFailure.IsForeign (.artifactRefused e) := nofun

@[simp] theorem BuildFailure.isForeign_breakdown {b : Breakdown} :
    BuildFailure.IsForeign (.breakdown b) := nofun

/-- There is a directory in the place of an artifact, and it is newer than the source. -/
def FileStore.Blocks (fs : FileStore) (source artifact : Path) : Prop :=
  ∃ m t, fs.modified source = .ok m ∧ fs.find artifact = .ok (.directory t) ∧ m < t

/-- What the build of a source can meet that it is not prepared for. The source itself counts only where
    no artifact is taken for it, and the place of the artifact only where its tree is to be written. -/
inductive FileStore.Hinders [Limits] (fs : FileStore) (source artifact : Path) : Prop where
  | lookup (long : Limits.lookup fs artifact = true)
  | directory (blocks : fs.Blocks source artifact)
  | artifact {text : String} (newer : isUpToDate fs source artifact = .ok true)
      (read : fs.readText artifact = .ok text) (deep : Limits.json text = true)
  | source {text : String} (anew : cachedResult fs source artifact = .ok none)
      (read : fs.readText source = .ok text) (deep : Limits.source text = true)
  | place {tree : IdlFile} (anew : cachedResult fs source artifact = .ok none)
      (parsed : parseFile fs source = .ok ⟨tree, []⟩) (null : fs.refuses artifact = true)
  | tree {tree : IdlFile} {fs' : FileStore} (anew : cachedResult fs source artifact = .ok none)
      (parsed : parseFile fs source = .ok ⟨tree, []⟩)
      (made : makeAt artifact.parent (makeDirectories artifact.parent) fs = .ok () fs')
      (deep : Limits.tree tree = true)

section Broken

variable {fs fs' : FileStore} {source a root place : Path} {tree : IdlFile} {results : FileResults}
  {sources : List Path}

theorem modified_eq_ok {m : Int} (h : fs.modified a = .ok m) :
    ∃ entry, fs.find a = .ok entry ∧ entry.modified = m := by
  unfold modified at h
  cases found : fs.find a with
  | error e =>
    rw [found] at h
    cases h
  | ok entry =>
    rw [found] at h
    cases h
    exact ⟨entry, rfl, rfl⟩

theorem isUpToDate_iff : isUpToDate fs source a = .ok true ↔
    ∃ m entry, fs.modified source = .ok m ∧ fs.find a = .ok entry ∧ m < entry.modified := by
  unfold isUpToDate
  constructor
  · intro newer
    split at newer
    · split at newer
      · next t m artifactTime sourceTime =>
        obtain ⟨entry, found, rfl⟩ := modified_eq_ok artifactTime
        exact ⟨m, entry, sourceTime, found, by simpa using newer⟩
      · cases newer
      · cases newer
    · cases newer
  · rintro ⟨m, entry, sourceTime, found, less⟩
    have artifactTime : fs.modified a = .ok entry.modified := by rw [modified, found]; rfl
    rw [if_pos (hasEntry_iff.2 ⟨entry, found⟩), artifactTime, sourceTime]
    simp [less]

theorem readText_refused_iff {entry : Entry} (found : fs.find a = .ok entry) :
    (∃ e, fs.readText a = .error (.refused e)) ↔ entry.isDirectory = true := by
  unfold readText readBytes
  rw [found]
  cases entry with
  | directory t => exact ⟨fun _ => rfl, fun _ => ⟨_, rfl⟩⟩
  | file content t =>
    simp only
    cases Text.Utf8.decode content with
    | error e => exact ⟨nofun, nofun⟩
    | ok cs => exact ⟨nofun, nofun⟩

/-- A directory is newer than a source just if it is taken for an artifact and has no text. -/
theorem blocks_iff : fs.Blocks source a ↔
    isUpToDate fs source a = .ok true ∧ ∃ e, fs.readText a = .error (.refused e) := by
  rw [isUpToDate_iff]
  constructor
  · rintro ⟨m, t, sourceTime, found, less⟩
    exact ⟨⟨m, _, sourceTime, found, less⟩, (readText_refused_iff found).2 rfl⟩
  · rintro ⟨⟨m, entry, sourceTime, found, less⟩, refused⟩
    cases entry with
    | file content t => cases (readText_refused_iff found).1 refused
    | directory t => exact ⟨m, t, sourceTime, found, less⟩

variable [Limits]

/-! ## Failures of one source -/

/-- Looking for a result in an artifact ends so if the platform does not cope with its path or its text, or if
    it is a directory. -/
theorem cachedResult_foreign_iff :
    (∃ failure, cachedResult fs source a = .error failure ∧ failure.IsForeign) ↔
      Limits.lookup fs a = true ∨ fs.Blocks source a ∨
        isUpToDate fs source a = .ok true ∧ ∃ text, fs.readText a = .ok text ∧ Limits.json text = true := by
  -- The lookup, the comparison of times and the reading come in this order.
  rw [blocks_iff]
  unfold cachedResult
  cases Limits.lookup fs a with
  | true => simp
  | false =>
    simp only [Bool.false_eq_true, if_false, false_or]
    cases isUpToDate fs source a with
    | error e => simp
    | ok newer =>
      cases newer with
      | false => simp
      | true =>
        unfold readArtifact
        cases fs.readText a with
        | error e =>
          cases e with
          | refused e => simp
          | notUtf8 e => simp
        | ok text =>
          cases deep : Limits.json text with
          | true => simp [deep]
          | false =>
            cases read : Artifact.deserialize text with
            | error e => simp [deep, read, Except.mapError]
            | ok tree => simp [deep, read, Except.mapError]

theorem writeArtifact_breakdown_iff :
    (∃ b fs', writeArtifact tree a fs = .error (.breakdown b) fs') ↔ fs.refuses a = true ∨
      ∃ fs', makeAt a.parent (makeDirectories a.parent) fs = .ok () fs' ∧ Limits.tree tree = true := by
  -- Whatever is made, a refusal is none of these failures.
  have refused : ∀ {p action fs b fs'}, makeAt p action fs ≠ .error (.breakdown b) fs' := by
    intro p action fs b fs' run
    unfold makeAt at run
    split at run
    · cases run
    · split at run
      · cases run
      · cases run
  unfold writeArtifact
  cases fs.refuses a with
  | true => simp
  | false =>
    simp only [Bool.false_eq_true, if_false, false_or]
    cases made : makeAt a.parent (makeDirectories a.parent) fs with
    | error e fs₁ =>
      refine iff_of_false ?_ (by simp)
      rintro ⟨b, fs', broken⟩
      cases broken
      exact refused made
    | ok _ fs₁ =>
      cases deep : Limits.tree tree with
      | true => simp
      | false => simpa [deep] using fun b fs' => refused

theorem parseFile_foreign_iff (known : fs.refuses source = false) :
    (∃ failure, parseFile fs source = .error failure ∧ failure.IsForeign) ↔
      ∃ text, fs.readText source = .ok text ∧ Limits.source text = true := by
  unfold parseFile
  rw [known]
  cases fs.readText source with
  | error e =>
    cases e with
    | refused e => simp
    | notUtf8 e => simp
  | ok text =>
    cases deep : Limits.source text with
    | true => simp [deep]
    | false => simp [deep]

/-- Building a source anew ends so if the source cannot be parsed or its tree cannot be written. -/
theorem rebuildFile_foreign_iff :
    (∃ failure fs', rebuildFile source a fs = .error failure fs' ∧ failure.IsForeign) ↔
      (∃ failure, parseFile fs source = .error failure ∧ failure.IsForeign) ∨
        ∃ tree, parseFile fs source = .ok ⟨tree, []⟩ ∧
          ∃ b fs', writeArtifact tree a fs = .error (.breakdown b) fs' := by
  unfold rebuildFile
  cases parseFile fs source with
  | error failure => simp
  | ok result =>
    obtain ⟨tree, diagnostics⟩ := result
    cases diagnostics with
    | cons d diagnostics => simp [ParseResult.errorCount]
    | nil =>
      simp only [ParseResult.errorCount, List.length_nil, if_true]
      cases run : writeArtifact tree a fs with
      | ok _ fs' => simp [run]
      | error e fs' =>
        cases e with
        | refused e => simp [run]
        | breakdown b => simp [run]

omit [Limits] in
theorem refuses_of_placed (placed : artifactPath fs.here source root place = .ok a) :
    fs.refuses source = false := by
  obtain ⟨plain, -⟩ := artifactPath_eq_ok placed
  rw [Bool.or_eq_false_iff] at plain
  rw [refuses, plain.1, Bool.false_and]

/-- The hindrances are those of looking for an artifact and, where none is taken, those of building anew. -/
theorem hinders_iff (known : fs.refuses source = false) : fs.Hinders source a ↔
    (∃ failure, cachedResult fs source a = .error failure ∧ failure.IsForeign) ∨
      cachedResult fs source a = .ok none ∧
        ∃ failure fs', rebuildFile source a fs = .error failure fs' ∧ failure.IsForeign := by
  rw [cachedResult_foreign_iff, rebuildFile_foreign_iff, parseFile_foreign_iff known]
  constructor
  · intro hinders
    cases hinders with
    | lookup long => exact .inl (.inl long)
    | directory blocks => exact .inl (.inr (.inl blocks))
    | artifact newer read deep => exact .inl (.inr (.inr ⟨newer, _, read, deep⟩))
    | source anew read deep => exact .inr ⟨anew, .inl ⟨_, read, deep⟩⟩
    | place anew parsed null =>
      exact .inr ⟨anew, .inr ⟨_, parsed, writeArtifact_breakdown_iff.2 (.inl null)⟩⟩
    | tree anew parsed made deep =>
      exact .inr ⟨anew, .inr ⟨_, parsed, writeArtifact_breakdown_iff.2 (.inr ⟨_, made, deep⟩)⟩⟩
  · rintro ((long | blocks | ⟨newer, text, read, deep⟩) | ⟨anew, ⟨text, read, deep⟩ | ⟨tree, parsed, broken⟩⟩)
    · exact .lookup long
    · exact .directory blocks
    · exact .artifact newer read deep
    · exact .source anew read deep
    · obtain null | ⟨fs', made, deep⟩ := writeArtifact_breakdown_iff.1 broken
      · exact .place anew parsed null
      · exact .tree anew parsed made deep

/-- The build of a source ends so just if one of the hindrances is there. -/
theorem buildFile_foreign_iff :
    (∃ failure fs', buildFile root place source fs = .error failure fs' ∧ failure.IsForeign) ↔
      ∃ a, artifactPath fs.here source root place = .ok a ∧ fs.Hinders source a := by
  unfold buildFile
  cases placed : artifactPath fs.here source root place with
  | error e => simp
  | ok a =>
    simp only [Except.ok.injEq, exists_eq_left', hinders_iff (refuses_of_placed placed)]
    cases cachedResult fs source a with
    | error failure => simp
    | ok cached =>
      cases cached with
      | some result => simp
      | none => simp

/-! ## Failures of several sources -/

/-- A build ends so just if some source, when its turn comes, meets a hindrance. -/
theorem buildFilesFrom_foreign_iff :
    (∃ failure fs', buildFilesFrom root place results sources fs = .error failure fs' ∧ failure.IsForeign) ↔
      ∃ before source after, sources = before ++ source :: after ∧ ∃ results' fs' a,
        buildFilesFrom root place results before fs = .ok results' fs' ∧
          artifactPath fs'.here source root place = .ok a ∧ fs'.Hinders source a := by
  induction sources generalizing fs results with
  | nil => simp [buildFilesFrom]
  | cons source sources ih =>
    have first : (∃ failure fs', buildFile root place source fs = .error failure fs' ∧ failure.IsForeign) ↔
        ∃ a, artifactPath fs.here source root place = .ok a ∧ fs.Hinders source a := buildFile_foreign_iff
    cases run : buildFile root place source fs with
    | error failure fs₁ =>
      have ended : (∃ failure' fs', buildFilesFrom root place results (source :: sources) fs =
            .error failure' fs' ∧ failure'.IsForeign) ↔
          ∃ a, artifactPath fs.here source root place = .ok a ∧ fs.Hinders source a := by
        simpa [buildFilesFrom, run] using first
      rw [ended]
      constructor
      · rintro ⟨a, placed, hinders⟩
        exact ⟨[], source, sources, rfl, results, fs, a, rfl, placed, hinders⟩
      · rintro ⟨before, source', after, split, results', fs', a, built, placed, hinders⟩
        cases before with
        | nil =>
          cases split
          cases built
          exact ⟨a, placed, hinders⟩
        | cons _ before =>
          cases split
          simp [buildFilesFrom, run] at built
    | ok result fs₁ =>
      simp only [buildFilesFrom, run, ih]
      constructor
      · rintro ⟨before, source', after, rfl, results', fs', a, built, met⟩
        refine ⟨source :: before, source', after, rfl, results', fs', a, ?_, met⟩
        simpa only [buildFilesFrom, run] using built
      · rintro ⟨before, source', after, split, results', fs', a, built, placed, hinders⟩
        cases before with
        | nil =>
          cases split
          cases built
          -- The first source is built, so it has met nothing.
          obtain ⟨failure, fs', stopped, -⟩ := first.2 ⟨a, placed, hinders⟩
          simp [run] at stopped
        | cons _ before =>
          cases split
          simp only [buildFilesFrom, run] at built
          exact ⟨before, source', after, rfl, results', fs', a, built, placed, hinders⟩

end Broken

/-! ## Results and failures -/

/-- When the turn of some source comes, it meets something that it is not prepared for. -/
def FileStore.Obstructs [Limits] (fs : FileStore) (sources : List Path) (root place : Path) : Prop :=
  ∃ before source after, sources = before ++ source :: after ∧ ∃ results fs' a,
    buildFiles before root place fs = .ok results fs' ∧
      artifactPath fs'.here source root place = .ok a ∧ fs'.Hinders source a

theorem buildFiles_foreign_iff [Limits] {fs : FileStore} {sources : List Path} {root place : Path} :
    (∃ failure fs', buildFiles sources root place fs = .error failure fs' ∧ failure.IsForeign) ↔
      fs.Obstructs sources root place :=
  buildFilesFrom_foreign_iff

section Results

variable {fs fs' : FileStore} {sources : List Path} {root place p : Path}
  {results results' : FileResults} {r : ParseResult}

/-- A path gets its result in the place it has, or at the end. -/
theorem keys_put : (results.put p r).map Prod.fst =
    if p ∈ results.map Prod.fst then results.map Prod.fst else results.map Prod.fst ++ [p] := by
  induction results with
  | nil => rfl
  | cons head results ih =>
    obtain ⟨q, old⟩ := head
    by_cases same : q = p
    · simp [FileResults.put, same]
    · rw [FileResults.put, if_neg same, List.map_cons, ih]
      by_cases known : p ∈ results.map Prod.fst
      · simp [known]
      · simp [known, Ne.symm same]

variable [Limits]

theorem buildFilesFrom_listed (distinct : (results.map Prod.fst).Nodup)
    (built : buildFilesFrom root place results sources fs = .ok results' fs') :
    (results'.map Prod.fst).Nodup ∧
      ∀ p, p ∈ results'.map Prod.fst ↔ p ∈ results.map Prod.fst ∨ p ∈ sources := by
  induction sources generalizing results fs with
  | nil =>
    cases built
    exact ⟨distinct, by simp⟩
  | cons source sources ih =>
    cases run : buildFile root place source fs with
    | error e fs₁ => simp [buildFilesFrom, run] at built
    | ok r fs₁ =>
      simp only [buildFilesFrom, run] at built
      -- A path that is built again keeps its place among the results.
      have kept : ((results.put source r).map Prod.fst).Nodup ∧
          ∀ p, p ∈ (results.put source r).map Prod.fst ↔ p = source ∨ p ∈ results.map Prod.fst := by
        rw [keys_put]
        split
        · next known =>
          refine ⟨distinct, fun p => ⟨.inr, ?_⟩⟩
          rintro (rfl | mem)
          · exact known
          · exact mem
        · next new =>
          have fresh : ∀ q ∈ results.map Prod.fst, q ≠ source := fun q mem =>
            ne_of_mem_of_not_mem mem new
          refine ⟨List.nodup_append.2 ⟨distinct, by simp, by simpa using fresh⟩, fun p => ?_⟩
          rw [List.mem_append, List.mem_singleton, or_comm]
      obtain ⟨distinct', listed⟩ := ih kept.1 built
      refine ⟨distinct', fun p => ?_⟩
      rw [listed, kept.2, List.mem_cons, or_comm (a := p = source), or_assoc]

/-- A build that succeeds has one result for every source. -/
theorem buildFiles_listed (built : buildFiles sources root place fs = .ok results fs') :
    (results.map Prod.fst).Nodup ∧ ∀ p, p ∈ results.map Prod.fst ↔ p ∈ sources := by
  have none : (([] : FileResults).map Prod.fst).Nodup := List.nodup_nil
  simpa using buildFilesFrom_listed none built

end Results

/-- Whatever is too much for the platform, a build gives one result for every source, or fails with an error of
    its own, just if no source meets, when its turn comes, something that it is not prepared for. -/
theorem buildFiles_ends_iff [Limits] (fs : FileStore) (sources : List Path) (root place : Path) :
    ((∃ results fs', buildFiles sources root place fs = .ok results fs' ∧
        (results.map Prod.fst).Nodup ∧ ∀ p, p ∈ results.map Prod.fst ↔ p ∈ sources) ∨
      ∃ e fs', buildFiles sources root place fs = .error (.error e) fs') ↔
    ¬ fs.Obstructs sources root place := by
  rw [← buildFiles_foreign_iff]
  cases built : buildFiles sources root place fs with
  | ok results fs' =>
    have listed := buildFiles_listed built
    exact iff_of_true (.inl ⟨results, fs', rfl, listed⟩) (by simp)
  | error failure fs' =>
    cases failure with
    | error e => exact iff_of_true (.inr ⟨e, fs', rfl⟩) (by simp)
    | artifactRefused e => exact iff_of_false (by simp) (by simp)
    | breakdown b => exact iff_of_false (by simp) (by simp)

/-- A project without settings in which a directory is where the artifact of the only source would be. -/
def blockedStore : FileStore :=
  ⟨[(["s.idl"], .file [] 0), ([".xidl-build"], .directory 1), ([".xidl-build", "s.xidl.json"], .directory 1)],
    [], 1⟩

/-- There a build fails, and with no error of its own. -/
theorem buildFiles_blockedStore :
    buildFiles [⟨.root, ["s.idl"]⟩] ⟨.root, []⟩ ⟨.root, [".xidl-build"]⟩ blockedStore =
        .error (.artifactRefused ⟨.isDirectory, ⟨.root, [".xidl-build", "s.xidl.json"]⟩⟩) blockedStore ∧
      ¬ ((∃ results fs', buildFiles [⟨.root, ["s.idl"]⟩] ⟨.root, []⟩ ⟨.root, [".xidl-build"]⟩ blockedStore =
          .ok results fs') ∨
        ∃ e fs', buildFiles [⟨.root, ["s.idl"]⟩] ⟨.root, []⟩ ⟨.root, [".xidl-build"]⟩ blockedStore =
          .error (.error e) fs') := by
  have run : buildFiles [⟨.root, ["s.idl"]⟩] ⟨.root, []⟩ ⟨.root, [".xidl-build"]⟩ blockedStore =
      .error (.artifactRefused ⟨.isDirectory, ⟨.root, [".xidl-build", "s.xidl.json"]⟩⟩) blockedStore := rfl
  refine ⟨run, ?_⟩
  rw [run]
  rintro (⟨results, fs', done⟩ | ⟨e, fs', failed⟩)
  · cases done
  · cases failed

end IdlFront
