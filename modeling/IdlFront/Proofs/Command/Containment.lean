import IdlFront.Proofs.Command.Green
import IdlFront.Proofs.Project.Listing

/-! # Builds stay in their directory

* `Project.HasArtifact` — the artifacts of the sources that are there, the only files that a build writes.
* `Project.Touched` — what a build has done so far; `Project.touched_buildTimed` says it of builds that take
  time, also of those that end early.
* `Project.Confined` — the same seen from outside: files elsewhere stay, and so do the sources.
* `build_confined` — a run of the command changes nothing else, however it ends.
-/

namespace IdlFront

open FileStore

namespace Project

variable {P : Project} {fs fs' : FileStore} {a : Path} {sources : List Path} {r : Route}

/-! ## Where builds write -/

/-- The path is the artifact of a source that is found. -/
def HasArtifact (P : Project) (fs : FileStore) (a : Path) : Prop :=
  ∃ sources, findSources fs P.config P.directory = .ok sources ∧ ∃ source ∈ sources,
    artifactPath fs.here source P.directory P.buildPlace = .ok a

/-- An artifact goes there. -/
def Receives (P : Project) (fs : FileStore) (r : Route) : Prop :=
  ∃ a, P.HasArtifact fs a ∧ r = route fs.here a

/-- An artifact goes there, or that is on the way to one. -/
def OnTheWay (P : Project) (fs : FileStore) (r : Route) : Prop :=
  ∃ a, P.HasArtifact fs a ∧ ∃ front, front <+: a.names ∧ r = route fs.here ⟨a.anchor, front⟩

theorem HasArtifact.eq (listed : fs.Listed) (has : P.HasArtifact fs a) : ∃ way,
    (∀ name ∈ way, IsName name) ∧ a = P.artifact way ∧ route fs.here a = P.place ++ artifactWay way := by
  obtain ⟨sources, found, source, mem, placed⟩ := has
  have names := names_of_source listed found mem
  obtain ⟨way, below, path, -⟩ := route_artifact names placed
  have isNames : ∀ name ∈ way, IsName name :=
    fun name mem => names name (below ▸ List.mem_append_right _ mem)
  have same : a = P.artifact way := path
  exact ⟨way, isNames, same, same ▸ route_artifact_of_way isNames⟩

/-- Artifacts are in the build directory. -/
theorem Receives.below (listed : fs.Listed) (receives : P.Receives fs r) :
    ∃ more, more ≠ [] ∧ r = P.place ++ more := by
  obtain ⟨a, has, rfl⟩ := receives
  obtain ⟨way, -, -, place⟩ := has.eq listed
  exact ⟨_, artifactWay_ne_nil, place⟩

/-! ## What builds do -/

/-- What a build may have done so far: it has written artifacts, and has made directories on the way. -/
structure Touched (P : Project) (fs fs' : FileStore) : Prop where
  grows : fs.Grows (P.Receives fs) fs'
  listed : fs'.Listed
  free : ∀ r, ¬ P.OnTheWay fs r → fs.entry? r = none → fs'.entry? r = none

theorem Touched.refl (tree : fs.IsTree) (listed : fs.Listed) : P.Touched fs fs :=
  ⟨.refl tree, listed, fun _ _ free => free⟩

theorem Touched.waited (touched : P.Touched fs fs') (d : Nat) : P.Touched fs (fs'.waited d) where
  grows := touched.grows.trans (grows_waited d touched.grows.tree)
  listed := ⟨touched.listed.once, touched.listed.below, touched.listed.names, touched.listed.here⟩
  free := touched.free

theorem Touched.after_makeDirectories (touched : P.Touched fs fs') (has : P.HasArtifact fs a)
    (written : a.Written) : P.Touched fs (stateAfter (makeDirectories a.parent) fs') where
  grows := touched.grows.trans (grows_makeDirectories touched.grows.tree)
  listed := touched.listed.after_makeDirectories written.parent
  free r off free := by
    apply free_makeDirectories touched.grows.tree (touched.free r off free)
    rintro front behind rfl
    rw [touched.grows.here] at off
    exact off ⟨a, has, front, behind.trans (List.dropLast_prefix _), rfl⟩

theorem Touched.after_writeBytes {content : List UInt8} (touched : P.Touched fs fs')
    (has : P.HasArtifact fs a) (written : a.Written) :
    P.Touched fs (stateAfter (writeBytes a content) fs') where
  grows := by
    have one : fs'.Grows (· = route fs'.here a) (stateAfter (writeBytes a content) fs') :=
      grows_writeBytes touched.grows.tree
    rw [touched.grows.here] at one
    exact touched.grows.trans (one.weaken fun r same => ⟨a, has, same⟩)
  listed := touched.listed.after_writeBytes written
  free r off free := by
    apply free_writeBytes (touched.free r off free)
    rintro rfl
    rw [touched.grows.here] at off
    exact off ⟨a, has, a.names, List.prefix_refl _, rfl⟩

theorem Touched.after_writeArtifact {tree : IdlFile} (listed : fs.Listed) (touched : P.Touched fs fs')
    (has : P.HasArtifact fs a) : P.Touched fs (stateAfter (writeArtifact tree a) fs') := by
  obtain ⟨way, isNames, rfl, -⟩ := has.eq listed
  have written := P.written_artifact isNames
  have made := touched.after_makeDirectories has written
  exact writeArtifact_induction (Q := P.Touched fs) touched made (made.after_writeBytes has written)

/-- Whatever of the sources is built, and however far the build comes. -/
theorem touched_buildTimed {timed : List (Nat × Path)} {results : FileResults} (tree : fs.IsTree)
    (listed : fs.Listed) (found : findSources fs P.config P.directory = .ok sources)
    (isSource : ∀ s ∈ timed, s.2 ∈ sources) :
    P.Touched fs (stateAfter (buildTimed P.directory P.buildPlace results timed) fs) := by
  apply buildTimed_induction (Q := P.Touched fs) _ _ (.refl tree listed)
  · exact fun fs' d touched => touched.waited d
  · rintro fs' ⟨d, source⟩ mem touched
    obtain same | ⟨a, tree, placed, same⟩ := buildFile_cases P.directory P.buildPlace source fs'
    · rwa [same]
    · rw [same]
      rw [touched.grows.here] at placed
      exact touched.after_writeArtifact listed ⟨sources, found, source, isSource _ mem, placed⟩

/-! ## What is seen of it -/

/-- What may be different in the second store: files outside of the build directory are the same, those in it
    that are no artifacts of sources too, what is new is on the way to such an artifact, no directory is lost,
    and the sources that are found are the same. -/
structure Confined (P : Project) (fs fs' : FileStore) : Prop where
  outside : ∀ r c t, (∀ more, more ≠ [] → r ≠ P.place ++ more) →
    (fs'.entry? r = some (.file c t) ↔ fs.entry? r = some (.file c t))
  inside : ∀ r c t, (∀ a, P.HasArtifact fs a → r ≠ route fs.here a) →
    (fs'.entry? r = some (.file c t) ↔ fs.entry? r = some (.file c t))
  made : ∀ r, fs.entry? r = none → fs'.entry? r ≠ none → ∃ a, P.HasArtifact fs a ∧
    ∃ front, front <+: a.names ∧ r = route fs.here ⟨a.anchor, front⟩
  directories : ∀ r, fs.IsDirectory r → fs'.IsDirectory r
  sources : ∀ d, fs.hasDirectory d = true → route fs.here d = P.root →
    findSources fs' P.config d = findSources fs P.config d

/-- Sources are not in the build directory, so none of them comes, goes or changes. -/
theorem Touched.findSources_eq (tree : fs.IsTree) (listed : fs.Listed) (touched : P.Touched fs fs')
    {d : Path} (there : fs.hasDirectory d = true) (same : route fs.here d = P.root) :
    findSources fs' P.config d = findSources fs P.config d := by
  have there' : fs'.hasDirectory d = true := by
    obtain ⟨t, found⟩ := hasDirectory_iff.1 there
    obtain ⟨r, located, entry⟩ := find_eq_ok_iff.1 found
    obtain ⟨t', entry'⟩ := touched.grows.directory r ⟨t, entry⟩
    exact hasDirectory_iff.2 ⟨t', find_eq_ok_iff.2 ⟨r, touched.grows.toKeeps.locate located, entry'⟩⟩
  apply findSources_congr tree listed touched.grows.tree touched.listed P.inward touched.grows.here
    there there'
  intro names takes
  have takes : P.Takes names := takes_iff.1 (takes.of_route (same.trans route_directory.symm))
  have quiet : ¬ P.Receives fs (P.root ++ names) := by
    intro receives
    obtain ⟨more, some, below⟩ := receives.below listed
    exact takes.outside some below
  rw [same]
  simp only [touched.grows.file _ _ _ quiet]

theorem Touched.confined (tree : fs.IsTree) (listed : fs.Listed) (touched : P.Touched fs fs') :
    P.Confined fs fs' where
  outside r c t outside := by
    apply touched.grows.file
    intro receives
    obtain ⟨more, some, below⟩ := receives.below listed
    exact outside more some below
  inside r c t other := touched.grows.file r c t fun ⟨a, has, same⟩ => other a has same
  made r free new := not_not.1 fun off => new (touched.free r off free)
  directories := touched.grows.directory
  sources _ there same := touched.findSources_eq tree listed there same

end Project

/-- A build of a project writes the artifacts of its sources and nothing else, and leaves its sources as they
    are, whether or not it comes to its end; so does one that takes time and stops after any file. -/
theorem build_confined (P : Project) {fs : FileStore} (tree : fs.IsTree) (listed : fs.Listed)
    (loaded : ∀ config,
      loadConfig fs (P.directory.join (.ofText configFileName)) = .ok config → config = P.config) :
    (∀ text, route fs.here (.ofText text) = P.root →
      P.Confined fs ((Request.build text).run.outcome fs).files) ∧
    ∀ sources timed, findSources fs P.config P.directory = .ok sources →
      (∀ s ∈ timed, s.2 ∈ sources) →
      P.Confined fs (stateAfter (buildTimed P.directory P.buildPlace [] timed) fs) := by
  have built : ∀ {sources timed}, findSources fs P.config P.directory = .ok sources →
      (∀ s ∈ timed, s.2 ∈ sources) →
      P.Touched fs (stateAfter (buildTimed P.directory P.buildPlace [] timed) fs) :=
    fun found isSource => Project.touched_buildTimed tree listed found isSource
  constructor
  · intro text named
    show P.Confined fs ((Command.build text).outcome fs).files
    obtain ⟨same, -⟩ | ⟨config, sources, -, loaded', found, files, -⟩ :=
      Command.build_cases (Project.resolve_eq named)
    · rw [same]
      exact (Project.Touched.refl tree listed).confined tree listed
    -- A plain build is one in which no time passes.
    · obtain rfl := loaded config loaded'
      rw [files]
      exact Project.buildFiles_eq sources ▸ (built found Project.isSource_zero).confined tree listed
  · exact fun sources timed found isSource => (built found isSource).confined tree listed

theorem build_confined_sole :
    ((Request.build ".").run.outcome (soleStore [])).files = soleBuilt [] ∧
      rootProject.Confined (soleStore []) (soleBuilt []) := by
  have only : ∀ r e, entry? (soleStore []) r = some e → r = [] ∨ r = ["s.idl"] := by
    intro r e found
    by_cases root : r = []
    · exact .inl root
    · have mem := mem_of_entry root found
      exact .inr (congrArg Prod.fst (List.mem_singleton.1 mem))
  have tree : (soleStore []).IsTree := by
    refine ⟨⟨0, rfl⟩, fun r e found => ?_⟩
    obtain rfl | rfl := only r e found <;> exact ⟨0, rfl⟩
  have isName : IsName "s.idl" := ⟨by decide, by decide, by decide, by decide⟩
  have listed : (soleStore []).Listed :=
    ⟨List.nodup_singleton _, by simp [soleStore], by simpa [soleStore] using isName, nofun⟩
  have loaded : ∀ config, loadConfig (soleStore [])
      (rootProject.directory.join (.ofText configFileName)) = .ok config → config = .standard := by
    intro config loaded
    cases loaded
    rfl
  have confined := (build_confined rootProject tree listed loaded).1 "." rfl
  rw [build_soleStore] at confined
  exact ⟨build_soleStore, confined⟩

end IdlFront
