import IdlFront.Proofs.Json.Torn
import IdlFront.Proofs.Project.Failures

/-! # Artifacts that are damaged

* `readArtifact_torn` — no part of the bytes of an artifact from their start is itself an artifact.
* `FileStore.makeDirectories_above`, `FileStore.writeBytes_over` — a file that is there can be written
  over.
* `buildFile_damaged` — a file that holds no artifact makes a build parse the source, and makes way for
  the new artifact.
* `damage_heals` — all of it.
-/

namespace IdlFront

open FileStore

/-! ## Torn artifacts -/

/-- The file is there, but what it holds is no artifact. -/
def ArtifactReadError.IsDamage : ArtifactReadError → Prop
  | .refused _ => False
  | .notUtf8 _ => True
  | .notArtifact _ => True
  | .tooDeep => False

section Torn

variable {fs : FileStore} {a : Path} {tree : IdlFile}

theorem Artifact.deserialize_torn {front : List Char} (isFront : front <+: (serialize tree).toList)
    (torn : front ≠ (serialize tree).toList) : ∃ e, deserialize (String.ofList front) = .error e := by
  have whole : Json.read? (String.ofList (serialize tree).toList) =
      some (.object ((versionKey, .string version) :: tree.fields)) := by
    rw [String.ofList_toList, serialize, Json.read?_print tree.versioned_kept]
  have braced : (serialize tree).toList =
      '\x7b' :: Json.printFields ((versionKey, .string version) :: tree.fields) ++ ['\x7d'] := by
    rw [serialize, Json.print, String.toList_ofList, Json.printChars]
  rw [braced] at whole isFront torn
  have noObject := Json.not_object_of_torn whole isFront torn
  unfold deserialize
  split
  · exact ⟨_, rfl⟩
  · next fields object => exact absurd object (noObject fields)
  · exact ⟨_, rfl⟩

/-- Wherever the bytes of an artifact are cut, what is left in front is no artifact. -/
theorem readArtifact_torn {front : List UInt8} {t : Int}
    (isFront : front <+: Text.Utf8.encode (Artifact.serialize tree).toList)
    (torn : front ≠ Text.Utf8.encode (Artifact.serialize tree).toList)
    (found : fs.find a = .ok (.file front t)) : ∃ e, readArtifact fs a = .error e ∧ e.IsDamage := by
  unfold readArtifact readText readBytes
  simp only [found]
  cases decoded : Text.Utf8.decode front with
  | error e => exact ⟨_, rfl, trivial⟩
  | ok cs =>
    -- The cut is between two characters, so the text is a part of the text of the tree.
    obtain rfl := Text.Utf8.decode_eq_ok_iff.1 decoded
    have isFront := Text.Utf8.prefix_of_encode isFront
    have noReturn : '\r' ∉ cs := fun mem =>
      Artifact.return_not_mem_serialize tree (isFront.subset mem)
    obtain ⟨e, failed⟩ := Artifact.deserialize_torn isFront fun eq => torn (congrArg _ eq)
    simp only [Text.withLineFeeds_eq noReturn, failed]
    exact ⟨_, rfl, trivial⟩

end Torn

/-! ## Paths with a name -/

namespace Path

theorem mem_piece {c : Char} {cs : List Char} (mem : c ∈ cs) (noSlash : c ≠ '/') :
    ∃ piece ∈ pieces cs, c ∈ piece := by
  induction cs with
  | nil => cases mem
  | cons d cs ih =>
    unfold pieces
    split
    · next eq => cases eq
    · next eq =>
      obtain ⟨rfl, rfl⟩ := List.cons.inj eq
      obtain ⟨piece, listed, inside⟩ := ih ((List.mem_cons.1 mem).resolve_left noSlash)
      exact ⟨piece, List.mem_cons_of_mem _ listed, inside⟩
    · next eq =>
      obtain ⟨rfl, rfl⟩ := List.cons.inj eq
      split
      · next piece more split =>
        rw [split] at ih
        cases mem with
        | head => exact ⟨_, List.mem_cons_self, List.mem_cons_self⟩
        | tail _ mem =>
          obtain ⟨other, listed, inside⟩ := ih mem
          cases listed with
          | head => exact ⟨_, List.mem_cons_self, List.mem_cons_of_mem _ inside⟩
          | tail _ listed => exact ⟨other, List.mem_cons_of_mem _ listed, inside⟩
      · next none =>
        rw [none] at ih
        cases mem with
        | head => exact ⟨_, List.mem_cons_self, List.mem_cons_self⟩
        | tail _ mem =>
          obtain ⟨other, listed, -⟩ := ih mem
          cases listed

/-- A text with a letter in it is a path with a name. -/
theorem names_of_letter {c : Char} {s : String} (mem : c ∈ s.toList) (noSlash : c ≠ '/')
    (noDot : c ≠ '.') : (ofText s).names ≠ [] := by
  obtain ⟨piece, listed, inside⟩ := mem_piece mem noSlash
  have nonempty : piece ≠ [] := List.ne_nil_of_mem inside
  have notHere : piece ≠ ['.'] := by
    rintro rfl
    exact noDot (List.mem_singleton.1 inside)
  exact List.ne_nil_of_mem (List.mem_map_of_mem (List.mem_filter.2 ⟨listed, by simp [nonempty, notHere]⟩))

end Path

/-! ## Writing over a file -/

namespace FileStore

variable {fs : FileStore} {p : Path} {names : List String} {r r' : Route}

/-- What stands in front of the last name leads to a directory. -/
theorem follow_dropLast (ne : names ≠ []) (followed : fs.follow r names = .ok r') :
    ∃ above, fs.follow r names.dropLast = .ok above ∧ fs.IsDirectory above := by
  induction names generalizing r with
  | nil => exact absurd rfl ne
  | cons name names ih =>
    unfold follow at followed
    split at followed
    · next t found =>
      cases names with
      | nil => exact ⟨r, rfl, t, found⟩
      | cons next names =>
        obtain ⟨above, way, isDirectory⟩ := ih (List.cons_ne_nil _ _) followed
        refine ⟨above, ?_, isDirectory⟩
        rw [List.dropLast_cons_cons, follow, found]
        exact way
    · cases followed
    · cases followed

theorem makeDirectories_there (there : fs.hasDirectory p = true) :
    makeDirectories p fs = .ok () fs := by
  have ensured : ensureDirectory p fs = .ok () fs := by
    obtain ⟨t, found⟩ := hasDirectory_iff.1 there
    obtain ⟨r, located, entry⟩ := find_eq_ok_iff.1 found
    simp [ensureDirectory, makeDirectory, located, entry, there]
  rw [makeDirectories, ensured]

/-- Above a file that is there, all directories are there. -/
theorem makeDirectories_above {e : Entry} (ne : p.names ≠ []) (found : fs.find p = .ok e) :
    makeDirectories p.parent fs = .ok () fs := by
  obtain ⟨r, located, -⟩ := find_eq_ok_iff.1 found
  obtain ⟨above, way, t, isDirectory⟩ := follow_dropLast ne located
  exact makeDirectories_there (hasDirectory_iff.2 ⟨t, find_eq_ok_iff.2 ⟨above, way, isDirectory⟩⟩)

theorem writeBytes_over {old : List UInt8} {t : Int} (found : fs.find p = .ok (.file old t))
    (content : List UInt8) : ∃ fs', writeBytes p content fs = .ok () fs' := by
  obtain ⟨r, located, entry⟩ := find_eq_ok_iff.1 found
  unfold writeBytes
  rw [located]
  simp only [entry]
  exact ⟨_, rfl⟩

end FileStore

/-! ## Building over a damaged artifact -/

section Damaged

variable {fs : FileStore} {root place source a : Path} {e : ArtifactReadError} {result : ParseResult}

theorem find_of_damage (damaged : readArtifact fs a = .error e) (damage : e.IsDamage) :
    ∃ content t, fs.find a = .ok (.file content t) := by
  unfold readArtifact readText readBytes at damaged
  cases found : fs.find a with
  | error refusal =>
    rw [found] at damaged
    cases damaged
    exact damage.elim
  | ok entry =>
    cases entry with
    | directory t =>
      rw [found] at damaged
      cases damaged
      exact damage.elim
    | file content t => exact ⟨content, t, rfl⟩

/-- An artifact has a name of its own. -/
theorem names_of_artifactPath {here : Route} (placed : artifactPath here source root place = .ok a) :
    a.names ≠ [] := by
  obtain ⟨-, way, -, rfl⟩ := artifactPath_eq_ok placed
  have named : (Path.ofText (way.stem ++ artifactSuffix)).names ≠ [] := by
    have letter : 'x' ∈ (way.stem ++ artifactSuffix).toList := by
      rw [String.toList_append]
      exact List.mem_append_right _ (by decide)
    exact Path.names_of_letter letter (by decide) (by decide)
  generalize Path.ofText (way.stem ++ artifactSuffix) = last at named
  rw [Path.join]
  split
  · exact named
  · exact List.append_ne_nil_of_right_ne_nil _ named

theorem modified_of_find {entry : Entry} (found : fs.find a = .ok entry) :
    fs.modified a = .ok entry.modified := by
  rw [modified, found]
  rfl

theorem cachedResult_damaged (damaged : readArtifact fs a = .error e) (damage : e.IsDamage)
    (parsed : parseFile fs source = .ok result) : cachedResult fs source a = .ok none := by
  obtain ⟨content, t, found⟩ := find_of_damage damaged damage
  obtain ⟨c, m, cs, foundSource, -⟩ := parseFile_eq_ok_iff.1 parsed
  have newer : isUpToDate fs source a = .ok (m < t) := by
    rw [isUpToDate, if_pos (hasEntry_iff.2 ⟨_, found⟩), modified_of_find found,
      modified_of_find foundSource]
    rfl
  unfold cachedResult
  rw [newer, damaged]
  cases decide (m < t) with
  | false => rfl
  | true =>
    cases e with
    | refused e => exact damage.elim
    | notUtf8 e => rfl
    | notArtifact e => rfl
    | tooDeep => exact damage.elim

/-- A source without errors gets a new artifact, in the place of the damaged one. -/
theorem buildFile_damaged (placed : artifactPath fs.here source root place = .ok a)
    (damaged : readArtifact fs a = .error e) (damage : e.IsDamage)
    (parsed : parseFile fs source = .ok result) :
    ∃ fs', buildFile root place source fs = .ok result fs' ∧
      (result.errorCount = 0 → readArtifact fs' a = .ok result.tree) := by
  unfold buildFile
  simp only [placed, cachedResult_damaged damaged damage parsed, rebuildFile, parsed]
  split
  · next clean =>
    obtain ⟨content, t, found⟩ := find_of_damage damaged damage
    obtain ⟨fs', done⟩ :=
      writeBytes_over found (Text.Utf8.encode (Artifact.serialize result.tree).toList)
    have written : writeArtifact result.tree a fs = .ok () fs' :=
      writeArtifact_of_steps (refuses_of_find found)
        (makeDirectories_above (names_of_artifactPath placed) found) done
    refine ⟨fs', by rw [written], fun _ => ?_⟩
    have integral : result.tree.Integral := by
      obtain ⟨c, m, cs, -, -, parsed⟩ := parseFile_eq_ok_iff.1 parsed
      obtain ⟨tree, diagnostics⟩ := result
      obtain rfl : diagnostics = [] := List.length_eq_zero_iff.1 clean
      exact integral_of_parse parsed
    exact readArtifact_of_write integral written
  · next faulty => exact ⟨fs, rfl, fun clean => absurd clean faulty⟩

/-- A build of a list goes on from what the sources in front have left. -/
theorem buildFilesFrom_append {fs' : FileStore} {results results' : FileResults} {before rest : List Path}
    (built : buildFilesFrom root place results before fs = .ok results' fs') :
    buildFilesFrom root place results (before ++ rest) fs =
      buildFilesFrom root place results' rest fs' := by
  induction before generalizing fs results with
  | nil =>
    cases built
    rfl
  | cons p before ih =>
    cases run : buildFile root place p fs with
    | error e fs₁ => simp [buildFilesFrom, run] at built
    | ok r fs₁ =>
      simp only [buildFilesFrom, run, List.cons_append] at built ⊢
      exact ih built

/-- The turn of a source whose artifact is damaged. -/
theorem buildFiles_damaged {fs₁ : FileStore} {before : List Path} {results : FileResults}
    (built : buildFiles before root place fs = .ok results fs₁)
    (placed : artifactPath fs₁.here source root place = .ok a)
    (damaged : readArtifact fs₁ a = .error e) (damage : e.IsDamage)
    (parsed : parseFile fs₁ source = .ok result) :
    ∃ fs₂, (∀ after, buildFiles (before ++ source :: after) root place fs =
        buildFilesFrom root place (results.put source result) after fs₂) ∧
      (result.diagnostics = [] → readArtifact fs₂ a = .ok result.tree) := by
  obtain ⟨fs₂, run, read⟩ := buildFile_damaged placed damaged damage parsed
  refine ⟨fs₂, fun after => ?_, fun none => read (List.length_eq_zero_iff.2 none)⟩
  rw [buildFiles, buildFilesFrom_append built]
  simp only [buildFilesFrom, run]

end Damaged

/-! ## Healing -/

/-- What is left of an artifact, wherever its bytes are cut, is no artifact. Where a file in the place
    of an artifact holds none, for this or any other reason and however new it is, a build gives what
    parsing the source gives and, if there are no diagnostics, leaves the artifact in that place. The same
    holds when the turn of the source comes in a longer list, whose build goes on from there. -/
theorem damage_heals :
    (∀ (tree : IdlFile) (front : List UInt8) (fs : FileStore) (a : Path) (t : Int),
      front <+: Text.Utf8.encode (Artifact.serialize tree).toList →
      front ≠ Text.Utf8.encode (Artifact.serialize tree).toList →
      fs.find a = .ok (.file front t) → ∃ e, readArtifact fs a = .error e ∧ e.IsDamage) ∧
    (∀ (fs : FileStore) (root place source a : Path) (e : ArtifactReadError) (result : ParseResult),
      artifactPath fs.here source root place = .ok a →
      readArtifact fs a = .error e → e.IsDamage → parseFile fs source = .ok result →
      ∃ fs', buildFiles [source] root place fs = .ok [(source, result)] fs' ∧
        (result.diagnostics = [] → readArtifact fs' a = .ok result.tree)) ∧
    (∀ (fs fs₁ : FileStore) (root place source a : Path) (before : List Path) (results : FileResults)
        (e : ArtifactReadError) (result : ParseResult),
      buildFiles before root place fs = .ok results fs₁ →
      artifactPath fs₁.here source root place = .ok a →
      readArtifact fs₁ a = .error e → e.IsDamage → parseFile fs₁ source = .ok result →
      ∃ fs₂, (∀ after, buildFiles (before ++ source :: after) root place fs =
          buildFilesFrom root place (results.put source result) after fs₂) ∧
        (result.diagnostics = [] → readArtifact fs₂ a = .ok result.tree)) := by
  refine ⟨fun _ _ _ _ _ isFront torn found => readArtifact_torn isFront torn found, ?_,
    fun _ _ _ _ _ _ _ _ _ _ built placed damaged damage parsed =>
      buildFiles_damaged built placed damaged damage parsed⟩
  intro fs root place source a e result placed damaged damage parsed
  have nothing : buildFiles [] root place fs = .ok [] fs := rfl
  obtain ⟨fs', run, read⟩ := buildFiles_damaged nothing placed damaged damage parsed
  exact ⟨fs', run [], read⟩

/-- An empty source and, in the place of its artifact, the first byte of one. -/
def tornStore : FileStore :=
  ⟨[(["s.idl"], .file [] 0), ([".xidl-build"], .directory 1),
    ([".xidl-build", "s.xidl.json"], .file [0x7b] 1)], [], 1⟩

theorem damage_heals_torn :
    (∃ e, readArtifact tornStore ⟨.root, [".xidl-build", "s.xidl.json"]⟩ = .error e ∧ e.IsDamage) ∧
    ∃ fs', buildFiles [⟨.root, ["s.idl"]⟩] ⟨.root, []⟩ ⟨.root, [".xidl-build"]⟩ tornStore =
        .ok [(⟨.root, ["s.idl"]⟩, ⟨.empty, []⟩)] fs' ∧
      readArtifact fs' ⟨.root, [".xidl-build", "s.xidl.json"]⟩ = .ok .empty := by
  obtain ⟨torn, heals, -⟩ := damage_heals
  have bytes : Text.Utf8.encode (Artifact.serialize .empty).toList ≠ [0x7b] ∧
      [0x7b] <+: Text.Utf8.encode (Artifact.serialize .empty).toList := by
    decide
  obtain ⟨e, damaged, damage⟩ := torn .empty [0x7b] tornStore
    ⟨.root, [".xidl-build", "s.xidl.json"]⟩ 1 bytes.2 bytes.1.symm rfl
  have parsed : parseFile tornStore ⟨.root, ["s.idl"]⟩ = .ok ⟨.empty, []⟩ :=
    parseFile_eq_ok_iff.2 ⟨[], 0, [], rfl, rfl, parse_nothing⟩
  obtain ⟨fs', built, read⟩ := heals tornStore ⟨.root, []⟩ ⟨.root, [".xidl-build"]⟩ ⟨.root, ["s.idl"]⟩
    ⟨.root, [".xidl-build", "s.xidl.json"]⟩ e ⟨.empty, []⟩ rfl damaged damage parsed
  exact ⟨⟨e, damaged, damage⟩, fs', built, read rfl⟩

end IdlFront
