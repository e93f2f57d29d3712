import IdlFront.Files.Store

/-! # What changes in a store

* `FileStore.entry?_put` — a store is a map.
* `FileStore.route` — the place of a path, with every `..` taken back. Where a path can be followed,
  it leads there.
* `FileStore.Keeps` — directories stay directories, so that what could be followed still can.
* `FileStore.readBytes_of_write` — what has been written is read back.
-/

namespace IdlFront

namespace FileStore

variable {fs fs' fs'' : FileStore} {r r' : Route} {e : Entry} {p : Path}

/-! ## A store as a map -/

/-- Replacing the entry of a route leaves every route in its place. -/
theorem find?_replaced (entries : List (Route × Entry)) (r k : Route) (e : Entry) :
    (entries.map fun old => if old.1 == r then (r, e) else old).find? (fun e => e.1 == k) =
      (entries.find? fun e => e.1 == k).map fun old => if old.1 == r then (r, e) else old := by
  rw [List.find?_map]
  congr 2
  funext old
  by_cases same : old.1 = r
  · simp [same]
  · simp [same]

theorem entry?_put (ne : r ≠ []) : entry? (fs.put r e) r = some e := by
  unfold entry? put
  rw [if_neg ne]
  by_cases found : (fs.entries.any fun e => e.1 == r) = true
  · rw [if_pos found]
    simp only [find?_replaced]
    obtain ⟨old, same⟩ := List.find?_isSome.2 (List.any_eq_true.1 found) |> Option.isSome_iff_exists.1
    have here := List.find?_some same
    simp only [beq_iff_eq] at here
    simp [same, here]
  · rw [if_neg found]
    simp only [List.find?_append]
    rw [List.find?_eq_none.2 fun old mem => fun same => found (List.any_eq_true.2 ⟨old, mem, same⟩)]
    simp

theorem entry?_put_of_ne (ne : r' ≠ r) : entry? (fs.put r e) r' = fs.entry? r' := by
  unfold entry? put
  by_cases root : r' = []
  · rw [if_pos root, if_pos root]
  · rw [if_neg root, if_neg root]
    split
    · simp only [find?_replaced, Option.map_map]
      cases found : fs.entries.find? fun e => e.1 == r' with
      | none => rfl
      | some old =>
        -- What is found at the other route is not the entry that is replaced.
        have other : ¬ old.1 = r := by
          have same := List.find?_some found
          simp only [beq_iff_eq] at same
          rw [same]
          exact ne
        simp [other]
    · simp [List.find?_append, ne.symm]

@[simp] theorem here_put : (fs.put r e).here = fs.here := by
  unfold put
  split <;> rfl

@[simp] theorem clock_put : (fs.put r e).clock = fs.clock := by
  unfold put
  split <;> rfl

theorem entry?_touchParent (ne : r' ≠ r.dropLast) : entry? (fs.touchParent r) r' = fs.entry? r' := by
  unfold touchParent
  split
  · split
    · rfl
    · exact entry?_put_of_ne ne
  · rfl

@[simp] theorem here_touchParent : (fs.touchParent r).here = fs.here := by
  unfold touchParent
  split
  · split
    · rfl
    · exact here_put
  · rfl

@[simp] theorem clock_touchParent : (fs.touchParent r).clock = fs.clock := by
  unfold touchParent
  split
  · split
    · rfl
    · exact clock_put
  · rfl

theorem ne_dropLast (ne : r ≠ []) : r ≠ r.dropLast := by
  intro eq
  have length := congrArg List.length eq
  have := List.length_pos_iff.2 ne
  rw [List.length_dropLast] at length
  omega

theorem ne_root_of_free (free : fs.entry? r = none) : r ≠ [] := by
  rintro rfl
  cases free

theorem entry?_add (free : fs.entry? r = none) : entry? (fs.add r e) r = some e :=
  entry?_put (ne_root_of_free free)

/-! ## Places -/

/-- The place of a path: its names from the root or the working directory, every `..` taken back. -/
def route (here : Route) (p : Path) : Route := (p.resolve here).names

theorem follow_eq {names : List String} (h : fs.follow r names = .ok r') :
    r' = Path.walkNames r names := by
  induction names generalizing r with
  | nil =>
    cases h
    rfl
  | cons name names ih =>
    unfold follow at h
    split at h
    · exact ih h
    · cases h
    · cases h

theorem locate_eq (h : fs.locate p = .ok r) : r = route fs.here p := by
  rw [route, Path.resolve]
  exact follow_eq h

theorem find_eq_ok_iff : fs.find p = .ok e ↔ ∃ r, fs.locate p = .ok r ∧ fs.entry? r = some e := by
  unfold find
  constructor
  · intro h
    split at h
    · cases h
    · next r located =>
      split at h
      · next e' found =>
        cases h
        exact ⟨r, located, found⟩
      · cases h
  · rintro ⟨r, located, found⟩
    simp only [located, found]

/-- What a path denotes is at its place. -/
theorem entry?_of_find (h : fs.find p = .ok e) : fs.entry? (route fs.here p) = some e := by
  obtain ⟨r, located, found⟩ := find_eq_ok_iff.1 h
  rw [← locate_eq located]
  exact found

/-- A path at which there is something is not refused. -/
theorem refuses_of_find (h : fs.find p = .ok e) : fs.refuses p = false := by
  simp [refuses, hasEntry, h]

theorem refuses_of_hasDirectory (h : fs.hasDirectory p = true) : fs.refuses p = false := by
  cases found : fs.find p with
  | ok e => exact refuses_of_find found
  | error e => simp [hasDirectory, found] at h

theorem refuses_of_readText {text : String} (h : fs.readText p = .ok text) :
    fs.refuses p = false := by
  cases found : fs.find p with
  | ok e => exact refuses_of_find found
  | error e => simp [readText, readBytes, found] at h

/-! ## Directories -/

/-- There is a directory at the route. -/
def IsDirectory (fs : FileStore) (r : Route) : Prop := ∃ t, fs.entry? r = some (.directory t)

theorem isDirectory_root (fs : FileStore) : fs.IsDirectory [] := ⟨0, rfl⟩

/-- The working directory stays, and directories stay directories. -/
structure Keeps (fs fs' : FileStore) : Prop where
  here : fs'.here = fs.here
  directory : ∀ r, fs.IsDirectory r → fs'.IsDirectory r

namespace Keeps

theorem refl (fs : FileStore) : fs.Keeps fs := ⟨rfl, fun _ h => h⟩

theorem trans (h : fs.Keeps fs') (h' : fs'.Keeps fs'') : fs.Keeps fs'' :=
  ⟨h'.here.trans h.here, fun r d => h'.directory r (h.directory r d)⟩

theorem put (kind : fs.IsDirectory r → ∃ t, e = .directory t) : fs.Keeps (fs.put r e) where
  here := here_put
  directory := by
    intro r' isDirectory
    by_cases root : r' = []
    · subst root
      exact isDirectory_root _
    by_cases same : r' = r
    · subst same
      obtain ⟨t, rfl⟩ := kind isDirectory
      exact ⟨t, entry?_put root⟩
    · obtain ⟨t, found⟩ := isDirectory
      exact ⟨t, by rw [entry?_put_of_ne same, found]⟩

theorem touchParent (fs : FileStore) (r : Route) : fs.Keeps (fs.touchParent r) := by
  unfold FileStore.touchParent
  split
  · next e found =>
    split
    · exact refl fs
    · apply put
      rintro ⟨t, isDirectory⟩
      rw [found] at isDirectory
      cases isDirectory
      exact ⟨_, rfl⟩
  · exact refl fs

theorem follow (h : fs.Keeps fs') {names : List String} (followed : fs.follow r names = .ok r') :
    fs'.follow r names = .ok r' := by
  induction names generalizing r with
  | nil => exact followed
  | cons name names ih =>
    unfold FileStore.follow at followed ⊢
    split at followed
    · next t found =>
      obtain ⟨t', found'⟩ := h.directory r ⟨t, found⟩
      rw [found']
      exact ih followed
    · cases followed
    · cases followed

theorem locate (h : fs.Keeps fs') (located : fs.locate p = .ok r) : fs'.locate p = .ok r := by
  unfold FileStore.locate
  rw [h.here]
  exact h.follow located

end Keeps

/-! ## Writing -/

theorem Keeps.put_file {content : List UInt8} {t : Int} (other : ¬ fs.IsDirectory r) :
    fs.Keeps (fs.put r (.file content t)) :=
  .put fun isDirectory => absurd isDirectory other

theorem Keeps.add (free : fs.entry? r = none) : fs.Keeps (fs.add r e) := by
  apply (Keeps.touchParent fs r).trans
  apply Keeps.put
  rintro ⟨t, found⟩
  rw [entry?_touchParent (ne_dropLast (ne_root_of_free free)), free] at found
  cases found

theorem writeBytes_eq_ok {content : List UInt8} (h : writeBytes p content fs = .ok () fs') :
    ∃ r, fs.locate p = .ok r ∧ fs.Keeps fs' ∧ fs'.entry? r = some (.file content fs.clock) ∧
      ((∃ c t, fs.entry? r = some (.file c t)) ∧ fs' = fs.put r (.file content fs.clock) ∨
        fs.entry? r = none ∧ fs' = fs.add r (.file content fs.clock)) := by
  unfold writeBytes at h
  split at h
  · cases h
  · next r located =>
    refine ⟨r, located, ?_⟩
    split at h
    · cases h
    · next c t found =>
      cases h
      have ne : r ≠ [] := by
        rintro rfl
        cases found
      -- Only a file is overwritten, so no directory is lost.
      have other : ¬ fs.IsDirectory r := by
        rintro ⟨t, isDirectory⟩
        rw [found] at isDirectory
        cases isDirectory
      exact ⟨.put_file other, entry?_put ne, .inl ⟨⟨c, t, found⟩, rfl⟩⟩
    · next free =>
      cases h
      exact ⟨.add free, entry?_add free, .inr ⟨free, rfl⟩⟩

/-- A refusal to write changes nothing. -/
theorem writeBytes_eq_error {content : List UInt8} {error : FileError}
    (h : writeBytes p content fs = .error error fs') : fs' = fs := by
  unfold writeBytes at h
  split at h
  · cases h
    rfl
  · split at h
    · cases h
      rfl
    · cases h
    · cases h

/-- What has been written is read back. -/
theorem readBytes_of_write {content : List UInt8} (h : writeBytes p content fs = .ok () fs') :
    fs'.readBytes p = .ok content := by
  obtain ⟨r, located, keeps, written, -⟩ := writeBytes_eq_ok h
  unfold readBytes find
  rw [keeps.locate located]
  simp only [written]

end FileStore

end IdlFront
