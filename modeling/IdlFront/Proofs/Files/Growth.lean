import IdlFront.Proofs.Files.Store

/-! # Stores that grow

* `FileStore.IsTree` — whatever is there is in a directory.
* `FileStore.Grows` — nothing is lost, and no file but those at some routes is changed.
* `FileStore.stateAfter` — the store that an action leaves, whether it is refused or not.
* `FileStore.grows_makeDirectories`, `FileStore.grows_writeBytes` — actions let a store grow.
* `FileStore.IsTree.erase`, `FileStore.remove_cases` — what is left when a file is taken away.
* `FileStore.free_makeDirectories`, `FileStore.free_writeBytes` — where nothing is put, nothing comes.
-/

namespace IdlFront

namespace FileStore

variable {fs fs' fs'' : FileStore} {r r' : Route} {e : Entry} {p : Path}

/-! ## Trees -/

/-- The working directory is there, and every entry is in a directory. -/
structure IsTree (fs : FileStore) : Prop where
  home : fs.IsDirectory fs.here
  parent : ∀ r e, fs.entry? r = some e → fs.IsDirectory r.dropLast

theorem IsTree.parent_of_follow (tree : fs.IsTree) {names : List String}
    (start : fs.IsDirectory r.dropLast) (h : fs.follow r names = .ok r') :
    fs.IsDirectory r'.dropLast := by
  induction names generalizing r with
  | nil =>
    cases h
    exact start
  | cons name names ih =>
    unfold follow at h
    split at h
    · next t found =>
      refine ih ?_ h
      -- A step up ends in a directory above one that is there; a step down starts from one.
      by_cases up : name = ".."
      · rw [if_pos up]
        obtain ⟨t', above⟩ := start
        exact tree.parent _ _ above
      · rw [if_neg up, List.dropLast_concat]
        exact ⟨t, found⟩
    · cases h
    · cases h

/-- A path leads into a directory, whether or not there is an entry in it. -/
theorem IsTree.parent_of_locate (tree : fs.IsTree) (h : fs.locate p = .ok r) :
    fs.IsDirectory r.dropLast := by
  refine tree.parent_of_follow ?_ h
  split
  · exact isDirectory_root fs
  · obtain ⟨t, home⟩ := tree.home
    exact tree.parent _ _ home

/-! ## Growth -/

/-- Nothing is lost from one store to the other. Files at other routes than the changed ones are the
    same in both. -/
structure Grows (changed : Route → Prop) (fs fs' : FileStore) : Prop extends fs.Keeps fs' where
  clock : fs.clock ≤ fs'.clock
  tree : fs'.IsTree
  file : ∀ r c t, ¬ changed r →
    (fs'.entry? r = some (.file c t) ↔ fs.entry? r = some (.file c t))

section Grows

variable {changed : Route → Prop}

theorem Grows.refl (tree : fs.IsTree) : fs.Grows changed fs :=
  ⟨Keeps.refl fs, Int.le_refl _, tree, fun _ _ _ _ => Iff.rfl⟩

theorem Grows.trans (h : fs.Grows changed fs') (h' : fs'.Grows changed fs'') :
    fs.Grows changed fs'' where
  toKeeps := h.toKeeps.trans h'.toKeeps
  clock := Int.le_trans h.clock h'.clock
  tree := h'.tree
  file r c t other := (h'.file r c t other).trans (h.file r c t other)

theorem Grows.weaken {more : Route → Prop} (h : fs.Grows changed fs')
    (le : ∀ r, changed r → more r) : fs.Grows more fs' :=
  { h with file := fun r c t other => h.file r c t fun yes => other (le r yes) }

/-- An entry may be put where there is a directory for it. A directory may not be put over a file,
    nor a file over a directory or at a route that is not changed. -/
theorem grows_put (tree : fs.IsTree) (ne : r ≠ []) (parent : fs.IsDirectory r.dropLast)
    (kind : fs.IsDirectory r → ∃ t, e = .directory t)
    (quiet : ¬ changed r → ∀ c t, e ≠ .file c t ∧ fs.entry? r ≠ some (.file c t)) :
    fs.Grows changed (fs.put r e) := by
  have keeps := Keeps.put kind
  refine ⟨keeps, by simp, ⟨?_, ?_⟩, ?_⟩
  · rw [here_put]
    exact keeps.directory _ tree.home
  · intro r' e' found
    apply keeps.directory
    by_cases same : r' = r
    · rw [same]
      exact parent
    · rw [entry?_put_of_ne same] at found
      exact tree.parent r' e' found
  · intro r' c t other
    by_cases same : r' = r
    · subst same
      obtain ⟨noFile, none⟩ := quiet other c t
      simp [entry?_put ne, noFile, none]
    · rw [entry?_put_of_ne same]

theorem grows_touchParent (tree : fs.IsTree) (parent : fs.IsDirectory r.dropLast) :
    fs.Grows changed (fs.touchParent r) := by
  obtain ⟨t, found⟩ := parent
  unfold touchParent
  rw [found]
  simp only
  by_cases root : r.dropLast = []
  · rw [if_pos root]
    exact .refl tree
  · rw [if_neg root]
    refine grows_put tree root (tree.parent _ _ found) (fun _ => ⟨_, rfl⟩) ?_
    intro _ c t'
    rw [found]
    exact ⟨nofun, nofun⟩

theorem grows_add (tree : fs.IsTree) (parent : fs.IsDirectory r.dropLast)
    (free : fs.entry? r = none) (quiet : ¬ changed r → ∀ c t, e ≠ .file c t) :
    fs.Grows changed (fs.add r e) := by
  have ne := ne_root_of_free free
  have touched : fs.Grows changed (fs.touchParent r) := grows_touchParent tree parent
  have stillFree : entry? (fs.touchParent r) r = none := by
    rw [entry?_touchParent (ne_dropLast ne), free]
  -- The directory is stamped, then the entry is put; neither takes anything away.
  refine touched.trans (grows_put touched.tree ne (touched.directory _ parent) ?_ ?_)
  · rintro ⟨t, isDirectory⟩
    rw [stillFree] at isDirectory
    cases isDirectory
  · intro other c t
    rw [stillFree]
    exact ⟨quiet other c t, nofun⟩

/-! ## Actions -/

/-- The store that an action leaves, whether it is refused or not. -/
def stateAfter {ε α : Type} (action : EStateM ε FileStore α) (fs : FileStore) : FileStore :=
  match action fs with
  | .ok _ fs' => fs'
  | .error _ fs' => fs'

theorem stateAfter_ok {ε α : Type} {action : EStateM ε FileStore α} {a : α}
    (h : action fs = .ok a fs') : stateAfter action fs = fs' := by
  rw [stateAfter, h]

theorem stateAfter_error {ε α : Type} {action : EStateM ε FileStore α} {error : ε}
    (h : action fs = .error error fs') : stateAfter action fs = fs' := by
  rw [stateAfter, h]

theorem grows_makeDirectory (tree : fs.IsTree) :
    fs.Grows changed (stateAfter (makeDirectory p) fs) := by
  unfold stateAfter makeDirectory
  cases located : fs.locate p with
  | error refusal => exact .refl tree
  | ok r =>
    simp only
    cases found : fs.entry? r with
    | some e => exact .refl tree
    | none => exact grows_add tree (tree.parent_of_locate located) found fun _ => nofun

theorem stateAfter_ensureDirectory :
    stateAfter (ensureDirectory p) fs = stateAfter (makeDirectory p) fs := by
  unfold stateAfter ensureDirectory
  cases makeDirectory p fs with
  | ok _ fs' => rfl
  | error e fs' =>
    simp only
    by_cases settled : e.refusal ≠ .noEntry ∧ fs'.hasDirectory p
    · rw [if_pos settled]
    · rw [if_neg settled]

theorem grows_ensureDirectory (tree : fs.IsTree) :
    fs.Grows changed (stateAfter (ensureDirectory p) fs) := by
  rw [stateAfter_ensureDirectory]
  exact grows_makeDirectory tree

theorem grows_makeDirectories (tree : fs.IsTree) :
    fs.Grows changed (stateAfter (makeDirectories p) fs) := by
  induction hn : p.names.length using Nat.strongRecOn generalizing p fs with
  | ind n ih =>
    -- Where the directory cannot be made yet, those above it come first, one name less at a time.
    have first : fs.Grows changed (stateAfter (ensureDirectory p) fs) := grows_ensureDirectory tree
    unfold stateAfter
    rw [makeDirectories]
    cases ensured : ensureDirectory p fs with
    | ok _ fs' =>
      rw [stateAfter_ok ensured] at first
      exact first
    | error e fs' =>
      rw [stateAfter_error ensured] at first
      simp only
      by_cases missing : e.refusal = .noEntry ∧ p.names ≠ []
      · rw [if_pos missing]
        have shorter : p.parent.names.length < n := by
          have := List.length_pos_iff.2 missing.2
          simp only [Path.parent, List.length_dropLast]
          omega
        have above : fs'.Grows changed (stateAfter (makeDirectories p.parent) fs') :=
          ih _ shorter first.tree rfl
        cases made : makeDirectories p.parent fs' with
        | error e' fs₂ =>
          rw [stateAfter_error made] at above
          exact first.trans above
        | ok _ fs₂ =>
          rw [stateAfter_ok made] at above
          exact first.trans (above.trans (grows_ensureDirectory above.tree))
      · rw [if_neg missing]
        exact first

/-- Writing a file changes no other one. -/
theorem grows_writeBytes {content : List UInt8} (tree : fs.IsTree) :
    fs.Grows (· = route fs.here p) (stateAfter (writeBytes p content) fs) := by
  unfold stateAfter writeBytes
  cases located : fs.locate p with
  | error refusal => exact .refl tree
  | ok r =>
    have parent := tree.parent_of_locate located
    obtain rfl := locate_eq located
    simp only
    cases found : fs.entry? (route fs.here p) with
    | none => exact grows_add tree parent found fun other => absurd rfl other
    | some e =>
      cases e with
      | directory t => exact .refl tree
      | file c t =>
        refine grows_put tree ?_ parent ?_ fun other => absurd rfl other
        · intro root
          rw [root] at found
          cases found
        · rintro ⟨t', isDirectory⟩
          rw [found] at isDirectory
          cases isDirectory

end Grows

/-! ## Removing -/

theorem entry?_erase_of_ne (ne : r' ≠ r) : entry? (fs.erase r) r' = fs.entry? r' := by
  unfold entry? erase
  by_cases root : r' = []
  · rw [if_pos root, if_pos root]
  · rw [if_neg root, if_neg root]
    simp only [List.find?_filter]
    congr 2
    funext old
    by_cases same : old.1 = r'
    · simp [same, ne]
    · simp [same]

theorem entry?_erase (ne : r ≠ []) : entry? (fs.erase r) r = none := by
  unfold entry? erase
  rw [if_neg ne, Option.map_eq_none_iff, List.find?_eq_none]
  intro old mem
  have other := (List.mem_filter.1 mem).2
  simpa using other

/-- A file may be taken away: nothing is in it. -/
theorem IsTree.erase {c : List UInt8} {t : Int} (tree : fs.IsTree)
    (file : fs.entry? r = some (.file c t)) : (fs.erase r).IsTree := by
  have directory : ∀ {r'}, fs.IsDirectory r' → (fs.erase r).IsDirectory r' := by
    rintro r' ⟨t', found⟩
    refine ⟨t', ?_⟩
    rw [entry?_erase_of_ne, found]
    rintro rfl
    rw [file] at found
    cases found
  refine ⟨directory tree.home, fun r' e found => directory (tree.parent r' e ?_)⟩
  have ne : r ≠ [] := by
    rintro rfl
    cases file
  rwa [entry?_erase_of_ne] at found
  rintro rfl
  rw [entry?_erase ne] at found
  cases found

theorem remove_cases (p : Path) (fs : FileStore) :
    stateAfter (remove p) fs = fs ∨ ∃ c t, fs.locate p = .ok (route fs.here p) ∧
      fs.entry? (route fs.here p) = some (.file c t) ∧
      stateAfter (remove p) fs = (fs.touchParent (route fs.here p)).erase (route fs.here p) := by
  unfold stateAfter remove
  cases located : fs.locate p with
  | error refusal => exact .inl rfl
  | ok r =>
    obtain rfl := locate_eq located
    simp only
    cases found : fs.entry? (route fs.here p) with
    | none => exact .inl rfl
    | some e =>
      cases e with
      | directory t => exact .inl rfl
      | file c t => exact .inr ⟨c, t, trivial, rfl, rfl⟩

/-! ## Routes that stay free -/

theorem free_add (free : fs.entry? r = none) (ne : r ≠ r') : entry? (fs.add r' e) r = none := by
  unfold add
  rw [entry?_put_of_ne ne]
  unfold touchParent
  split
  · next e' found =>
    split
    · exact free
    · rw [entry?_put_of_ne, free]
      rintro rfl
      rw [free] at found
      cases found
  · exact free

theorem free_makeDirectory (free : fs.entry? r = none) (ne : r ≠ route fs.here p) :
    entry? (stateAfter (makeDirectory p) fs) r = none := by
  unfold stateAfter makeDirectory
  cases located : fs.locate p with
  | error refusal => exact free
  | ok r' =>
    obtain rfl := locate_eq located
    simp only
    cases fs.entry? (route fs.here p) with
    | some e => exact free
    | none => exact free_add free ne

theorem free_writeBytes {content : List UInt8} (free : fs.entry? r = none)
    (ne : r ≠ route fs.here p) : entry? (stateAfter (writeBytes p content) fs) r = none := by
  unfold stateAfter writeBytes
  cases located : fs.locate p with
  | error refusal => exact free
  | ok r' =>
    obtain rfl := locate_eq located
    simp only
    cases fs.entry? (route fs.here p) with
    | none => exact free_add free ne
    | some e =>
      cases e with
      | directory t => exact free
      | file c t => exact (entry?_put_of_ne ne).trans free

/-- Only the directories on the way are made. -/
theorem free_makeDirectories (tree : fs.IsTree) (free : fs.entry? r = none)
    (ne : ∀ front, front <+: p.names → r ≠ route fs.here ⟨p.anchor, front⟩) :
    entry? (stateAfter (makeDirectories p) fs) r = none := by
  -- On the depth of the path: a missing parent is made first, and the directory tried again.
  induction hn : p.names.length using Nat.strongRecOn generalizing p fs with
  | ind n ih =>
    have first : entry? (stateAfter (ensureDirectory p) fs) r = none :=
      stateAfter_ensureDirectory (p := p) ▸ free_makeDirectory free (ne _ (List.prefix_refl _))
    have grows : fs.Grows (fun _ => False) (stateAfter (ensureDirectory p) fs) :=
      grows_ensureDirectory tree
    unfold stateAfter
    rw [makeDirectories]
    cases ensured : ensureDirectory p fs with
    | ok _ fs' => rwa [stateAfter_ok ensured] at first
    | error e fs' =>
      rw [stateAfter_error ensured] at first grows
      simp only
      by_cases missing : e.refusal = .noEntry ∧ p.names ≠ []
      · rw [if_pos missing]
        have shorter : p.parent.names.length < n := by
          have := List.length_pos_iff.2 missing.2
          simp only [Path.parent, List.length_dropLast]
          omega
        have ne' : ∀ front, front <+: p.names → r ≠ route fs'.here ⟨p.anchor, front⟩ :=
          grows.here ▸ ne
        have above := ih _ (p := p.parent) shorter grows.tree first
          (fun front behind => ne' front (behind.trans (List.dropLast_prefix _))) rfl
        have further : fs'.Grows (fun _ => False) (stateAfter (makeDirectories p.parent) fs') :=
          grows_makeDirectories grows.tree
        cases made : makeDirectories p.parent fs' with
        | error e' fs₂ => rwa [stateAfter_error made] at above
        | ok _ fs₂ =>
          rw [stateAfter_ok made] at above further
          have last := free_makeDirectory above (further.here ▸ ne' _ (List.prefix_refl _))
          rwa [← stateAfter_ensureDirectory] at last
      · rwa [if_neg missing]

end FileStore

end IdlFront
