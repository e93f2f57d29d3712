import IdlFront.Project.Build
import IdlFront.Proofs.Artifact.Accepted
import IdlFront.Proofs.Files.Growth
import IdlFront.Proofs.Text.Utf8

/-! # Artifacts

* `Artifact.deserialize_serialize` — the text of a tree gives the tree back.
* `Artifact.integral_of_deserialize` — so does the text of every tree that was read.
* `writeArtifact_induction` — a tree is written in two steps, or in fewer if it is refused.
* `readArtifact_of_write` — a file that a tree was written into gives the tree back.
* `artifacts_round_trip` — all of it.
-/

namespace IdlFront

open Json

/-! ## Texts -/

namespace Artifact

variable {text : String} {tree : IdlFile}

theorem erase_version (tree : IdlFile) :
    Fields.erase ((versionKey, .string version) :: tree.fields) versionKey = tree.fields := by
  simp [Fields.erase, versionKey, IdlFile.fields]

theorem deserialize_serialize (integral : tree.Integral) : deserialize (serialize tree) = .ok tree := by
  have found : Fields.get? ((versionKey, .string version) :: tree.fields) versionKey =
      some (.string version) := by
    simp [Fields.get?]
  unfold deserialize serialize
  rw [read?_print tree.versioned_kept]
  simp only [found, erase_version, IdlFile.check_fields integral]
  rfl

theorem return_not_mem_serialize (tree : IdlFile) : '\r' ∉ (serialize tree).toList := by
  rw [serialize, print, String.toList_ofList]
  exact return_not_mem_print _ tree.versioned_kept

theorem integral_of_deserialize (h : deserialize text = .ok tree) : tree.Integral := by
  unfold deserialize at h
  split at h
  · cases h
  · next fields _ =>
    split at h
    · split at h
      · cases read : IdlFile.check (Fields.erase fields versionKey) with
        | ok tree' =>
          rw [read] at h
          cases h
          exact IdlFile.integral_of_check read
        | faulty fs =>
          rw [read] at h
          cases h
      · cases h
    · cases h
  · cases h

end Artifact

/-! ## Files -/

section Files

variable {tree : IdlFile} {p : Path} {fs fs' : FileStore}

/-- A file that holds the text of a tree holds the tree. Reading turns no character of it into
    another one. -/
theorem readArtifact_of_bytes (integral : tree.Integral)
    (bytes : fs.readBytes p = .ok (Text.Utf8.encode (Artifact.serialize tree).toList)) :
    readArtifact fs p = .ok tree := by
  unfold readArtifact FileStore.readText
  simp only [bytes, Text.Utf8.decode_encode,
    Text.withLineFeeds_eq (Artifact.return_not_mem_serialize tree), String.ofList_toList,
    Artifact.deserialize_serialize integral]
  rfl

/-- Without limits a tree is written in two steps. -/
theorem writeArtifact_of_steps {fs₁ : FileStore} (known : fs.refuses p = false)
    (made : FileStore.makeDirectories p.parent fs = .ok () fs₁)
    (written : FileStore.writeText p (Artifact.serialize tree) fs₁ = .ok () fs') :
    writeArtifact tree p fs = .ok () fs' := by
  simp [writeArtifact, makeAt, known, made, written]

section Limited

variable [Limits]

theorem makeAt_eq_ok {action : FileAction Unit} (h : makeAt p action fs = .ok () fs') :
    action fs = .ok () fs' := by
  unfold makeAt at h
  split at h
  · cases h
  · split at h
    · next done =>
      cases h
      exact done
    · cases h

theorem makeAt_cases (p : Path) (action : FileAction Unit) (fs : FileStore) :
    FileStore.stateAfter (makeAt p action) fs = fs ∨
      FileStore.stateAfter (makeAt p action) fs = FileStore.stateAfter action fs := by
  unfold FileStore.stateAfter makeAt
  by_cases long : Limits.make fs p = true
  · left
    rw [if_pos long]
  · right
    rw [if_neg long]
    cases action fs with
    | ok _ fs' => rfl
    | error e fs' => rfl

theorem writeArtifact_eq_ok (h : writeArtifact tree p fs = .ok () fs') :
    ∃ fs₁, FileStore.makeDirectories p.parent fs = .ok () fs₁ ∧
      FileStore.writeText p (Artifact.serialize tree) fs₁ = .ok () fs' := by
  unfold writeArtifact at h
  split at h
  · cases h
  · split at h
    · cases h
    · next fs₁ made =>
      split at h
      · cases h
      · exact ⟨fs₁, makeAt_eq_ok made, makeAt_eq_ok h⟩

/-- Writing a tree keeps what making the directories keeps and writing the text behind that keeps. -/
theorem writeArtifact_induction {Q : FileStore → Prop} (start : Q fs)
    (made : Q (FileStore.stateAfter (FileStore.makeDirectories p.parent) fs))
    (written : Q (FileStore.stateAfter (FileStore.writeText p (Artifact.serialize tree))
      (FileStore.stateAfter (FileStore.makeDirectories p.parent) fs))) :
    Q (FileStore.stateAfter (writeArtifact tree p) fs) := by
  -- Writing may stop before, between and behind its two changes of the store.
  have first := makeAt_cases p.parent (FileStore.makeDirectories p.parent) fs
  unfold FileStore.stateAfter writeArtifact
  by_cases refused : fs.refuses p = true
  · rwa [if_pos refused]
  rw [if_neg refused]
  cases run : makeAt p.parent (FileStore.makeDirectories p.parent) fs with
  | error e fs₁ =>
    rw [FileStore.stateAfter_error run] at first
    simp only
    obtain rfl | same := first
    · exact start
    · rwa [same]
  | ok _ fs₁ =>
    have step := makeAt_eq_ok run
    rw [FileStore.stateAfter_ok step] at made written
    simp only
    by_cases deep : Limits.tree tree = true
    · rwa [if_pos deep]
    · rw [if_neg deep]
      show Q (FileStore.stateAfter (makeAt p _) fs₁)
      obtain same | same := makeAt_cases p (FileStore.writeText p (Artifact.serialize tree)) fs₁
      · rwa [same]
      · rwa [same]

end Limited

theorem readArtifact_of_write (integral : tree.Integral)
    (h : writeArtifact tree p fs = .ok () fs') : readArtifact fs' p = .ok tree := by
  obtain ⟨fs₁, -, written⟩ := writeArtifact_eq_ok h
  exact readArtifact_of_bytes integral (FileStore.readBytes_of_write written)

end Files

/-! ## Both ways -/

/-- Reading undoes writing for every tree in which the values of enum members are integers, as a text
    and through a file. All trees that are read are such trees, so that what is read and written once
    more stays as it is. -/
theorem artifacts_round_trip :
    (∀ tree : IdlFile, tree.Integral →
      Artifact.deserialize (Artifact.serialize tree) = .ok tree) ∧
    (∀ (tree : IdlFile) (p : Path) (fs fs' : FileStore), tree.Integral →
      writeArtifact tree p fs = .ok () fs' → readArtifact fs' p = .ok tree) ∧
    (∀ (text : String) (tree : IdlFile), Artifact.deserialize text = .ok tree → tree.Integral) ∧
    (∀ text text' : String, Artifact.serialize <$> Artifact.deserialize text = .ok text' →
      Artifact.serialize <$> Artifact.deserialize text' = .ok text') := by
  refine ⟨fun _ integral => Artifact.deserialize_serialize integral,
    fun _ _ _ _ integral written => readArtifact_of_write integral written,
    fun _ _ read => Artifact.integral_of_deserialize read, ?_⟩
  intro text text' written
  cases read : Artifact.deserialize text with
  | error e =>
    rw [read] at written
    cases written
  | ok tree =>
    rw [read] at written
    cases written
    -- What is read has integers as values, so it can be written and read once more.
    rw [Artifact.deserialize_serialize (Artifact.integral_of_deserialize read)]
    rfl

/-- A tree with an enum whose only member has a value, and texts that need escapes. -/
def escapedTree : IdlFile :=
  ⟨[⟨"\"\\\r\n", ⟨1, 1, 0, 12⟩⟩], [⟨["A"], [.enum ⟨"é", [⟨"m", some ⟨.hex, "0x10", ⟨1, 1, 0, 4⟩⟩, [],
    ⟨1, 1, 0, 9⟩⟩], [], ⟨1, 1, 0, 9⟩⟩], [], ⟨1, 1, 0, 9⟩⟩]⟩

theorem artifacts_round_trip_escaped :
    Artifact.deserialize (Artifact.serialize escapedTree) = .ok escapedTree ∧
    (∃ fs', writeArtifact escapedTree ⟨.root, ["a"]⟩ ⟨[], [], 0⟩ = .ok () fs' ∧
      readArtifact fs' ⟨.root, ["a"]⟩ = .ok escapedTree) ∧
    escapedTree.Integral ∧
    Artifact.serialize <$> Artifact.deserialize (Artifact.serialize escapedTree) =
      .ok (Artifact.serialize escapedTree) := by
  obtain ⟨text, file, accepted, again⟩ := artifacts_round_trip
  have integral : escapedTree.Integral := by
    simp [IdlFile.Integral, escapedTree, Namespace.Integral, Declaration.AllIntegral,
      Declaration.Integral, EnumDecl.Integral, EnumMember.Integral, LiteralKind.isIntegral]
  have read := text escapedTree integral
  have made : FileStore.makeDirectories ⟨.root, []⟩ ⟨[], [], 0⟩ = .ok () ⟨[], [], 0⟩ := by
    rw [FileStore.makeDirectories]
    rfl
  have written : ∃ fs', writeArtifact escapedTree ⟨.root, ["a"]⟩ ⟨[], [], 0⟩ = .ok () fs' := by
    exact ⟨_, writeArtifact_of_steps rfl made rfl⟩
  obtain ⟨fs', written⟩ := written
  have once : Artifact.serialize <$> Artifact.deserialize (Artifact.serialize escapedTree) =
      .ok (Artifact.serialize escapedTree) := by
    rw [read]
    rfl
  exact ⟨read, ⟨fs', written, file _ _ _ _ integral written⟩, accepted _ _ read, again _ _ once⟩

end IdlFront
