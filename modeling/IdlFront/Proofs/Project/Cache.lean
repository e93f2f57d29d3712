import IdlFront.Proofs.Artifact.RoundTrip
import IdlFront.Proofs.Files.Growth
import IdlFront.Proofs.Grammar.Integral
import IdlFront.Proofs.Grammar.Recognition

/-! # Artifacts that stand for their sources

A build takes an artifact for its source where the artifact is newer. What it takes then is what parsing
the source again would give.

* `Layout` — a project: where it is and which files are its sources.
* `Layout.Fresh` — the invariant: an artifact that is newer than its source holds the tree of it.
* `Layout.Fresh.after_buildFile` — building a source keeps artifacts fresh and all other files as they
  are.
* `Layout.Fresh.parseFile_eq` — building a source gives what parsing it gives.
-/

namespace IdlFront

open FileStore

/-! ## Layouts -/

/-- The directories of a project and its sources. Each source has a place for its artifact that no
    other source uses, and no artifact is placed where a source is. -/
structure Layout where
  here : Route
  root : Path
  buildDirectory : Path
  IsSource : Path → Prop
  distinct : ∀ {p q a b : Path}, IsSource p → IsSource q →
    artifactPath here p root buildDirectory = .ok a →
    artifactPath here q root buildDirectory = .ok b → route here a = route here b →
    route here p = route here q
  apart : ∀ {p q a : Path}, IsSource p → IsSource q →
    artifactPath here p root buildDirectory = .ok a → route here a ≠ route here q

/-- The bytes of a source and of an artifact: the source has a tree and no diagnostics, and the tree
    is in the artifact. -/
def StandsFor (artifact source : List UInt8) : Prop :=
  ∃ cs tree, Text.Utf8.decode source = .ok cs ∧
    parse (String.ofList (Text.withLineFeeds cs)) = ⟨tree, []⟩ ∧
    artifact = Text.Utf8.encode (Artifact.serialize tree).toList

namespace Layout

variable {l : Layout} {fs fs' : FileStore} {p q a b : Path}

/-- The path is the artifact of the source. -/
def HasArtifact (l : Layout) (p a : Path) : Prop :=
  l.IsSource p ∧ artifactPath l.here p l.root l.buildDirectory = .ok a

/-- The place is one of an artifact. -/
def IsArtifact (l : Layout) (r : Route) : Prop := ∃ p a, l.HasArtifact p a ∧ r = route l.here a

theorem not_isArtifact (source : l.IsSource p) : ¬ l.IsArtifact (route l.here p) := by
  rintro ⟨q, a, ⟨isSource, placed⟩, eq⟩
  exact l.apart isSource source placed eq.symm

/-- No artifact is from the future. The source of an artifact is there, and where it is older, the
    artifact stands for it. -/
structure Fresh (l : Layout) (fs : FileStore) : Prop where
  here : fs.here = l.here
  tree : fs.IsTree
  sound : ∀ {p a content t}, l.HasArtifact p a →
    fs.entry? (route l.here a) = some (.file content t) →
    t ≤ fs.clock ∧ ∃ c m, fs.entry? (route l.here p) = some (.file c m) ∧
      (m < t → StandsFor content c)

end Layout

/-! ## What builds read -/

section Reading

variable {fs fs' : FileStore} {p a : Path} {result : ParseResult} {tree : IdlFile}

theorem parseFile_eq_ok_iff :
    parseFile fs p = .ok result ↔ ∃ c m cs, fs.find p = .ok (.file c m) ∧
      Text.Utf8.decode c = .ok cs ∧ parse (String.ofList (Text.withLineFeeds cs)) = result := by
  constructor
  · intro h
    unfold parseFile readText readBytes at h
    cases known : fs.refuses p with
    | true => simp [known] at h
    | false =>
      cases found : fs.find p with
      | error e => simp [known, found] at h
      | ok e =>
        cases e with
        | directory t => simp [known, found] at h
        | file c m =>
          cases decoded : Text.Utf8.decode c with
          | error e => simp [known, found, decoded] at h
          | ok cs => exact ⟨c, m, cs, rfl, decoded, by simpa [known, found, decoded] using h⟩
  · rintro ⟨c, m, cs, found, decoded, rfl⟩
    simp [parseFile, readText, readBytes, refuses_of_find found, found, decoded]

theorem readArtifact_eq_ok (h : readArtifact fs a = .ok tree) :
    ∃ content t, fs.find a = .ok (.file content t) := by
  unfold readArtifact readText readBytes at h
  cases found : fs.find a with
  | error e => simp [found] at h
  | ok e =>
    cases e with
    | directory t => simp [found] at h
    | file content t => exact ⟨content, t, rfl⟩

theorem artifactPath_eq_ok {here : Route} {root place : Path}
    (placed : artifactPath here p root place = .ok a) :
    (p.hasNull || root.hasNull) = false ∧ ∃ way,
      (p.resolve here).relativeTo? (root.resolve here) = some way ∧
        a = (place.join way.parent).join (.ofText (way.stem ++ artifactSuffix)) := by
  unfold artifactPath at placed
  split at placed
  · cases placed
  · next plain =>
    split at placed
    · cases placed
    · next way relative =>
      cases placed
      exact ⟨by simpa using plain, way, relative, rfl⟩

theorem isUpToDate_eq_ok (h : isUpToDate fs p a = .ok true) :
    ∃ e e', fs.find a = .ok e ∧ fs.find p = .ok e' ∧ e'.modified < e.modified := by
  unfold isUpToDate modified at h
  split at h
  · cases artifact : fs.find a with
    | error e => simp [artifact] at h
    | ok e =>
      cases source : fs.find p with
      | error e' => simp [artifact, source] at h
      | ok e' => exact ⟨e, e', rfl, rfl, by simpa [artifact, source] using h⟩
  · cases h

/-- Without an artifact that is taken for it, a source without diagnostics is built in these steps. -/
theorem buildFile_of_steps {root place : Path} {fs₁ : FileStore}
    (placed : artifactPath fs.here p root place = .ok a) (anew : cachedResult fs p a = .ok none)
    (parsed : parseFile fs p = .ok ⟨tree, []⟩) (known : fs.refuses a = false)
    (made : makeDirectories a.parent fs = .ok () fs₁)
    (written : writeText a (Artifact.serialize tree) fs₁ = .ok () fs') :
    buildFile root place p fs = .ok ⟨tree, []⟩ fs' := by
  simp only [buildFile, placed, anew, rebuildFile, parsed, writeArtifact_of_steps known made written]
  rfl

theorem cachedResult_eq_ok (h : cachedResult fs p a = .ok (some result)) :
    isUpToDate fs p a = .ok true ∧ ∃ tree, readArtifact fs a = .ok tree ∧ result = ⟨tree, []⟩ := by
  unfold cachedResult at h
  simp only [Limits.lookup_unlimited, Bool.false_eq_true, if_false] at h
  split at h
  · cases h
  · cases h
  · next newer =>
    split at h
    · next tree read =>
      cases h
      exact ⟨newer, tree, read, rfl⟩
    · cases h
    · cases h
    · cases h

/-- A tree without diagnostics has integers as values of enum members. -/
theorem integral_of_parse {source : String} (h : parse source = ⟨tree, []⟩) : tree.Integral :=
  (parse_source_iff.1 h).2.integral

/-- An artifact that stands for a source gives what parsing the source gives. -/
theorem parseFile_of_artifact {content c : List UInt8} {t m : Int} (stands : StandsFor content c)
    (artifact : fs.find a = .ok (.file content t)) (source : fs.find p = .ok (.file c m))
    (read : readArtifact fs a = .ok tree) : parseFile fs p = .ok ⟨tree, []⟩ := by
  obtain ⟨cs, tree', decoded, parsed, rfl⟩ := stands
  have bytes : fs.readBytes a = .ok (Text.Utf8.encode (Artifact.serialize tree').toList) := by
    unfold readBytes
    rw [artifact]
  rw [readArtifact_of_bytes (integral_of_parse parsed) bytes] at read
  cases read
  exact parseFile_eq_ok_iff.2 ⟨c, m, cs, source, decoded, parsed⟩

end Reading

namespace Layout

variable {l : Layout} {fs fs' : FileStore} {p q a b : Path} {result : ParseResult}

/-- A source that was found is found again after changes to other files. -/
theorem find_of_grows {changed : Route → Prop} {c : List UInt8} {m : Int}
    (grows : fs.Grows changed fs') (other : ¬ changed (route fs.here p))
    (found : fs.find p = .ok (.file c m)) : fs'.find p = .ok (.file c m) := by
  obtain ⟨r, located, entry⟩ := find_eq_ok_iff.1 found
  rw [← locate_eq located] at other
  exact find_eq_ok_iff.2 ⟨r, grows.locate located, (grows.file r c m other).2 entry⟩

theorem parseFile_of_grows (here : fs.here = l.here) (source : l.IsSource p)
    (grows : fs.Grows l.IsArtifact fs') (h : parseFile fs p = .ok result) :
    parseFile fs' p = .ok result := by
  obtain ⟨c, m, cs, found, parsed⟩ := parseFile_eq_ok_iff.1 h
  have other : ¬ l.IsArtifact (route fs.here p) := by
    rw [here]
    exact not_isArtifact source
  exact parseFile_eq_ok_iff.2 ⟨c, m, cs, find_of_grows grows other found, parsed⟩

/-! ## Steps that keep artifacts fresh -/

/-- Directories come and time passes. -/
theorem Fresh.grow (fresh : l.Fresh fs) (grows : fs.Grows (fun _ => False) fs') : l.Fresh fs' where
  here := grows.here.trans fresh.here
  tree := grows.tree
  sound := by
    intro p a content t has found
    obtain ⟨le, c, m, source, stands⟩ := fresh.sound has ((grows.file _ _ _ id).1 found)
    exact ⟨Int.le_trans le grows.clock, c, m, (grows.file _ _ _ id).2 source, stands⟩

/-- A source is written. No artifact is newer than it then. -/
theorem Fresh.after_writeBytes {content : List UInt8} (fresh : l.Fresh fs) (isSource : l.IsSource q) :
    l.Fresh (stateAfter (writeBytes q content) fs) := by
  have grows : fs.Grows (· = route fs.here q) (stateAfter (writeBytes q content) fs) :=
    grows_writeBytes fresh.tree
  cases written : writeBytes q content fs with
  | error e fs' =>
    rw [stateAfter_error written]
    rw [writeBytes_eq_error written]
    exact fresh
  | ok _ fs' =>
    rw [stateAfter_ok written] at grows ⊢
    rw [fresh.here] at grows
    obtain ⟨r, located, -, entry, -⟩ := writeBytes_eq_ok written
    obtain rfl := locate_eq located
    rw [fresh.here] at entry
    refine ⟨grows.here.trans fresh.here, grows.tree, ?_⟩
    intro p a artifact t has found
    have apart : route l.here a ≠ route l.here q := l.apart has.1 isSource has.2
    obtain ⟨le, c, m, source, stands⟩ := fresh.sound has ((grows.file _ _ _ apart).1 found)
    refine ⟨Int.le_trans le grows.clock, ?_⟩
    -- The written source is stamped now, and no artifact is from later than now.
    by_cases same : route l.here p = route l.here q
    · refine ⟨content, fs.clock, same ▸ entry, fun newer => ?_⟩
      omega
    · exact ⟨c, m, (grows.file _ _ _ same).2 source, stands⟩

/-- The text of the tree of a source is written into its artifact. -/
theorem Fresh.after_writeText {tree : IdlFile} (fresh : l.Fresh fs) (has : l.HasArtifact p a)
    (parsed : parseFile fs p = .ok ⟨tree, []⟩) :
    l.Fresh (stateAfter (writeText a (Artifact.serialize tree)) fs) ∧
      fs.Grows l.IsArtifact (stateAfter (writeText a (Artifact.serialize tree)) fs) := by
  have grows : fs.Grows (· = route fs.here a)
      (stateAfter (writeText a (Artifact.serialize tree)) fs) := grows_writeBytes fresh.tree
  rw [fresh.here] at grows
  refine ⟨?_, grows.weaken fun r eq => ⟨p, a, has, eq⟩⟩
  cases written : writeText a (Artifact.serialize tree) fs with
  | error e fs' =>
    rw [stateAfter_error written, writeBytes_eq_error written]
    exact fresh
  | ok _ fs' =>
    rw [stateAfter_ok written] at grows ⊢
    obtain ⟨r, located, -, entry, -⟩ := writeBytes_eq_ok written
    obtain rfl := locate_eq located
    rw [fresh.here] at entry
    -- Sources are not where artifacts are, so all of them are as before.
    have kept : ∀ {q c m}, l.IsSource q → fs.entry? (route l.here q) = some (.file c m) →
        fs'.entry? (route l.here q) = some (.file c m) := fun isSource found =>
      (grows.file _ _ _ fun eq => l.apart has.1 isSource has.2 eq.symm).2 found
    refine ⟨grows.here.trans fresh.here, grows.tree, ?_⟩
    intro q b content t hasB found
    -- At the place of the artifact is the tree that was just parsed; all other artifacts are as
    -- before.
    by_cases same : route l.here b = route l.here a
    · rw [same, entry] at found
      cases found
      obtain ⟨c, m, cs, source, decoded, clean⟩ := parseFile_eq_ok_iff.1 parsed
      have place := entry?_of_find source
      rw [fresh.here, ← l.distinct hasB.1 has.1 hasB.2 has.2 same] at place
      exact ⟨grows.clock, c, m, kept hasB.1 place, fun _ => ⟨cs, tree, decoded, clean, rfl⟩⟩
    · obtain ⟨le, c, m, source, stands⟩ := fresh.sound hasB ((grows.file _ _ _ same).1 found)
      exact ⟨Int.le_trans le grows.clock, c, m, kept hasB.1 source, stands⟩

/-- The artifact of a source without diagnostics is written. Directories may be made for it, even
    where the artifact itself is refused. -/
theorem Fresh.after_writeArtifact {tree : IdlFile} (fresh : l.Fresh fs) (has : l.HasArtifact p a)
    (parsed : parseFile fs p = .ok ⟨tree, []⟩) :
    l.Fresh (stateAfter (writeArtifact tree a) fs) ∧
      fs.Grows l.IsArtifact (stateAfter (writeArtifact tree a) fs) := by
  have made : fs.Grows (fun _ => False) (stateAfter (makeDirectories a.parent) fs) :=
    grows_makeDirectories fresh.tree
  have others : fs.Grows l.IsArtifact (stateAfter (makeDirectories a.parent) fs) :=
    made.weaken fun _ none => none.elim
  -- Directories have been made since the source was parsed, but the source is the same.
  have parsed' := parseFile_of_grows fresh.here has.1 others parsed
  obtain ⟨fresh', grows⟩ := (fresh.grow made).after_writeText has parsed'
  exact writeArtifact_induction (Q := fun fs' => l.Fresh fs' ∧ fs.Grows l.IsArtifact fs')
    ⟨fresh, .refl fresh.tree⟩ ⟨fresh.grow made, others⟩ ⟨fresh', others.trans grows⟩

/-! ## Building a file -/

/-- What is left behind by a step of a build: fresh artifacts, and no other file changed. -/
def Built (l : Layout) (fs fs' : FileStore) : Prop := l.Fresh fs' ∧ fs.Grows l.IsArtifact fs'

theorem Fresh.built (fresh : l.Fresh fs) : l.Built fs fs := ⟨fresh, .refl fresh.tree⟩

theorem Fresh.after_rebuildFile (fresh : l.Fresh fs) (has : l.HasArtifact p a) :
    l.Built fs (stateAfter (rebuildFile p a) fs) := by
  unfold stateAfter rebuildFile
  cases parsed : parseFile fs p with
  | error e => exact fresh.built
  | ok result =>
    obtain ⟨tree, diagnostics⟩ := result
    simp only
    -- Only a result without diagnostics is written.
    by_cases clean : (⟨tree, diagnostics⟩ : ParseResult).errorCount = 0
    · obtain rfl : diagnostics = [] := List.length_eq_zero_iff.1 clean
      have written := fresh.after_writeArtifact has parsed
      rw [if_pos clean]
      cases run : writeArtifact tree a fs with
      | ok _ fs' =>
        rw [stateAfter_ok run] at written
        exact written
      | error e fs' =>
        rw [stateAfter_error run] at written
        cases e with
        | refused e => exact written
        | breakdown b => exact written
    · rw [if_neg clean]
      exact fresh.built

/-- What is built anew is the result of parsing the source, and its tree is written if there are no
    diagnostics. -/
theorem rebuildFile_eq_ok (h : rebuildFile p a fs = .ok result fs') : parseFile fs p = .ok result ∧
    (result.errorCount = 0 → writeArtifact result.tree a fs = .ok () fs') := by
  unfold rebuildFile at h
  cases parsed : parseFile fs p with
  | error e =>
    rw [parsed] at h
    cases h
  | ok result' =>
    rw [parsed] at h
    simp only at h
    split at h
    · split at h
      · next written =>
        cases h
        exact ⟨rfl, fun _ => written⟩
      · cases h
      · cases h
    · next faulty =>
      cases h
      exact ⟨rfl, fun clean => absurd clean faulty⟩

theorem Fresh.after_buildFile (fresh : l.Fresh fs) (isSource : l.IsSource p) :
    l.Built fs (stateAfter (buildFile l.root l.buildDirectory p) fs) := by
  unfold stateAfter buildFile
  rw [fresh.here]
  cases placed : artifactPath l.here p l.root l.buildDirectory with
  | error e => exact fresh.built
  | ok a =>
    simp only
    cases cachedResult fs p a with
    | error e => exact fresh.built
    | ok cached =>
      cases cached with
      | some result => exact fresh.built
      | none => exact fresh.after_rebuildFile ⟨isSource, placed⟩

/-- A build of a file that returns gives what parsing the file gives. -/
theorem Fresh.parseFile_eq (fresh : l.Fresh fs) (isSource : l.IsSource p)
    (h : buildFile l.root l.buildDirectory p fs = .ok result fs') :
    parseFile fs p = .ok result := by
  unfold buildFile at h
  rw [fresh.here] at h
  cases placed : artifactPath l.here p l.root l.buildDirectory with
  | error e =>
    rw [placed] at h
    cases h
  | ok a =>
    rw [placed] at h
    simp only at h
    cases cached : cachedResult fs p a with
    | error e =>
      rw [cached] at h
      cases h
    | ok cachedResult =>
      rw [cached] at h
      cases cachedResult with
      | none => exact (rebuildFile_eq_ok h).1
      | some result' =>
        cases h
        obtain ⟨newer, tree, read, rfl⟩ := cachedResult_eq_ok cached
        obtain ⟨content, t, artifact⟩ := readArtifact_eq_ok read
        obtain ⟨e, e', foundArtifact, foundSource, less⟩ := isUpToDate_eq_ok newer
        -- The artifact is newer than what is at the path of the source, which is the source.
        have entry := entry?_of_find artifact
        rw [fresh.here] at entry
        obtain ⟨-, c, m, source, stands⟩ := fresh.sound ⟨isSource, placed⟩ entry
        have place := entry?_of_find foundSource
        rw [fresh.here, source] at place
        cases place
        rw [artifact] at foundArtifact
        cases foundArtifact
        exact parseFile_of_artifact (stands less) artifact foundSource read

end Layout

end IdlFront
