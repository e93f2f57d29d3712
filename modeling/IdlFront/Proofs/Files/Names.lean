import Mathlib.Data.List.Nodup
import IdlFront.Proofs.Files.Growth

/-! # Names on the way to files

* `IsName` — what an entry of a directory may be called.
* `Path.Written` — a path as it can be written; `Path.written_ofText` says that all texts are such paths.
* `FileStore.route_join` — the place of a path that goes on from another one.
* `FileStore.Listed` — every route has one entry, and its names are names.
* `FileStore.Listed.after_writeBytes`, … — actions on paths that can be written keep it so.
-/

namespace IdlFront

/-- A name that is not empty, has no slash and is not one of the two names with a meaning. -/
structure IsName (name : String) : Prop where
  nonempty : name ≠ ""
  noSlash : '/' ∉ name.toList
  notHere : name ≠ "."
  notUp : name ≠ ".."

namespace Path

/-! ## Texts -/

theorem mem_pieces {cs piece : List Char} (h : piece ∈ pieces cs) : '/' ∉ piece := by
  induction cs generalizing piece with
  | nil => simp_all [pieces]
  | cons c rest ih =>
    unfold pieces at h
    split at h
    · simp_all
    · next eq =>
      obtain ⟨rfl, rfl⟩ := List.cons.inj eq
      obtain rfl | h := List.mem_cons.1 h
      · exact List.not_mem_nil
      · exact ih h
    · next noSlash eq =>
      obtain ⟨rfl, rfl⟩ := List.cons.inj eq
      have other : '/' ≠ c := fun same => noSlash (same ▸ rfl)
      split at h
      · next split =>
        rw [split] at ih
        obtain rfl | h := List.mem_cons.1 h
        · simp [other, ih List.mem_cons_self]
        · exact ih (List.mem_cons_of_mem _ h)
      · simp_all

theorem pieces_of_noSlash {cs : List Char} (h : '/' ∉ cs) : pieces cs = [cs] := by
  induction cs with
  | nil => rfl
  | cons c rest ih =>
    simp only [List.mem_cons, not_or] at h
    obtain ⟨other, h⟩ := h
    unfold pieces
    split
    · simp_all
    · next eq => exact absurd (List.cons.inj eq).1.symm other
    · next eq =>
      obtain ⟨rfl, rfl⟩ := List.cons.inj eq
      rw [ih h]

/-- A path whose names are names or steps up. -/
def Written (p : Path) : Prop := ∀ name ∈ p.names, name = ".." ∨ IsName name

theorem written_ofText (s : String) : (ofText s).Written := by
  intro name mem
  simp only [ofText, namesOf, List.mem_map, List.mem_filter, decide_eq_true_eq] at mem
  obtain ⟨piece, ⟨mem, nonempty, notHere⟩, rfl⟩ := mem
  have back : (String.ofList piece).toList = piece := String.toList_ofList
  rw [or_iff_not_imp_left]
  intro notUp
  refine ⟨?_, by rw [back]; exact mem_pieces mem, ?_, notUp⟩
  · intro same
    rw [same] at back
    exact nonempty back.symm
  · intro same
    rw [same] at back
    exact notHere back.symm

/-- A name is a path by itself. -/
theorem ofText_name {name : String} (h : IsName name) : ofText name = ⟨.here, [name]⟩ := by
  have nonempty : name.toList ≠ [] := fun empty => h.nonempty (String.toList_inj.1 empty)
  have notHere : name.toList ≠ ['.'] := fun same => h.notHere (String.toList_inj.1 same)
  have anchor : anchorOf name.toList = .here := by
    have noSlash := h.noSlash
    unfold anchorOf
    split <;> simp_all
  simp [ofText, namesOf, anchor, pieces_of_noSlash h.noSlash, nonempty, notHere]

theorem join_name (p : Path) {name : String} (h : IsName name) : p.join (ofText name) = p.child name := by
  rw [ofText_name h]
  rfl

theorem Written.parent {p : Path} (h : p.Written) : p.parent.Written :=
  fun name mem => h name (List.dropLast_subset _ mem)

/-! ## Walking -/

theorem walkNames_append (start names more : List String) :
    walkNames start (names ++ more) = walkNames (walkNames start names) more := List.foldl_append

/-- Without steps up the names are put behind each other. -/
theorem walkNames_down {start names : List String} (down : ".." ∉ names) :
    walkNames start names = start ++ names := by
  induction names generalizing start with
  | nil => exact (List.append_nil start).symm
  | cons name names ih =>
    simp only [List.mem_cons, not_or] at down
    obtain ⟨notUp, down⟩ := down
    have step : walkNames start (name :: names) = walkNames (start ++ [name]) names := by
      show walkNames (if name = ".." then _ else _) names = _
      rw [if_neg (Ne.symm notUp)]
    rw [step, ih down, List.append_assoc, List.singleton_append]

theorem walkNames_names {start names : List String} (h : ∀ name ∈ start, IsName name)
    (written : ∀ name ∈ names, name = ".." ∨ IsName name) :
    ∀ name ∈ walkNames start names, IsName name := by
  induction names generalizing start with
  | nil => exact h
  | cons name names ih =>
    obtain ⟨first, others⟩ := List.forall_mem_cons.1 written
    apply ih _ others
    show ∀ other ∈ (if name = ".." then start.dropLast else start ++ [name]), IsName other
    split
    · exact fun other mem => h other (List.dropLast_subset _ mem)
    · next notUp =>
      intro other mem
      obtain mem | mem := List.mem_append.1 mem
      · exact h other mem
      · exact List.mem_singleton.1 mem ▸ first.resolve_left notUp

end Path

namespace FileStore

variable {fs fs' : FileStore} {r : Route} {e : Entry} {p q : Path}

/-- A path that goes on from another one is at a place seen from that one. -/
theorem route_join (here : Route) (p : Path) {q : Path} (relative : q.anchor = .here) :
    route here (p.join q) = Path.walkNames (route here p) q.names := by
  have notAbsolute : q.isAbsolute = false := by rw [Path.isAbsolute, relative]; rfl
  rw [Path.join, notAbsolute, if_neg Bool.false_ne_true, route, Path.resolve,
    Path.walkNames_append]
  rfl

theorem route_names (here : Route) (p : Path) {names : List String} (down : ".." ∉ names) :
    route here ⟨p.anchor, p.names ++ names⟩ = route here p ++ names := by
  rw [route, Path.resolve, Path.walkNames_append, Path.walkNames_down down]
  rfl

/-! ## Listings -/

/-- Every route has one entry, which is not the root, and the names on the way to it are names. -/
structure Listed (fs : FileStore) : Prop where
  once : (fs.entries.map Prod.fst).Nodup
  below : ∀ e ∈ fs.entries, e.1 ≠ []
  names : ∀ e ∈ fs.entries, ∀ name ∈ e.1, IsName name
  here : ∀ name ∈ fs.here, IsName name

theorem mem_of_entry (ne : r ≠ []) (h : fs.entry? r = some e) : (r, e) ∈ fs.entries := by
  unfold entry? at h
  rw [if_neg ne, Option.map_eq_some_iff] at h
  obtain ⟨⟨k, e'⟩, found, rfl⟩ := h
  have same := List.find?_some found
  simp only [beq_iff_eq] at same
  exact same ▸ List.mem_of_find?_eq_some found

namespace Listed

theorem entry?_of_mem (h : fs.Listed) (mem : (r, e) ∈ fs.entries) : fs.entry? r = some e := by
  unfold entry?
  rw [if_neg (h.below _ mem)]
  cases found : fs.entries.find? fun e => e.1 == r with
  | none => simpa using List.find?_eq_none.1 found _ mem
  | some other =>
    have same := List.find?_some found
    simp only [beq_iff_eq] at same
    -- Both are entries of one route, so they are one entry.
    have eq : other = (r, e) :=
      List.inj_on_of_nodup_map h.once (List.mem_of_find?_eq_some found) mem same
    rw [eq]
    rfl

theorem names_of_entry (h : fs.Listed) (found : fs.entry? r = some e) :
    ∀ name ∈ r, IsName name := by
  by_cases root : r = []
  · subst root
    exact fun _ mem => absurd mem List.not_mem_nil
  · exact h.names _ (mem_of_entry root found)

theorem names_of_locate (h : fs.Listed) (written : p.Written) (located : fs.locate p = .ok r) :
    ∀ name ∈ r, IsName name := by
  rw [locate_eq located, route, Path.resolve]
  apply Path.walkNames_names _ written
  split
  · exact fun _ mem => absurd mem List.not_mem_nil
  · exact h.here

/-! ## Listings after actions -/

theorem put (h : fs.Listed) (ne : r ≠ []) (names : ∀ name ∈ r, IsName name) :
    (fs.put r e).Listed := by
  unfold FileStore.put
  split
  · -- The route is there already, so the routes stay the same.
    have same : (fs.entries.map fun old => if old.1 == r then (r, e) else old).map Prod.fst =
        fs.entries.map Prod.fst := by
      rw [List.map_map]
      apply List.map_congr_left
      intro old _
      by_cases eq : old.1 = r <;> simp [eq]
    refine ⟨same ▸ h.once, ?_, ?_, h.here⟩
    · intro old mem
      obtain ⟨before, among, rfl⟩ := List.mem_map.1 mem
      by_cases eq : before.1 = r
      · simpa [eq] using ne
      · simpa [eq] using h.below before among
    · intro old mem
      obtain ⟨before, among, rfl⟩ := List.mem_map.1 mem
      by_cases eq : before.1 = r
      · simpa [eq] using names
      · simpa [eq] using h.names before among
  · next free =>
    -- A new route comes behind the others.
    have free : r ∉ fs.entries.map Prod.fst := by
      simpa using free
    refine ⟨?_, ?_, ?_, h.here⟩
    · rw [List.map_append]
      exact h.once.append (by simp) (by simpa using free)
    · intro old mem
      obtain mem | mem := List.mem_append.1 mem
      · exact h.below old mem
      · exact List.mem_singleton.1 mem ▸ ne
    · intro old mem
      obtain mem | mem := List.mem_append.1 mem
      · exact h.names old mem
      · exact List.mem_singleton.1 mem ▸ names

theorem touchParent (h : fs.Listed) (r : Route) : (fs.touchParent r).Listed := by
  unfold FileStore.touchParent
  split
  · next found =>
    split
    · exact h
    · next below => exact h.put below (h.names_of_entry found)
  · exact h

theorem add (h : fs.Listed) (free : fs.entry? r = none) (names : ∀ name ∈ r, IsName name) :
    (fs.add r e).Listed :=
  (h.touchParent r).put (ne_root_of_free free) names

theorem after_makeDirectory (h : fs.Listed) (written : p.Written) :
    (stateAfter (makeDirectory p) fs).Listed := by
  unfold stateAfter makeDirectory
  cases located : fs.locate p with
  | error refusal => exact h
  | ok r =>
    simp only
    cases found : fs.entry? r with
    | some e => exact h
    | none => exact h.add found (h.names_of_locate written located)

theorem after_makeDirectories (h : fs.Listed) (written : p.Written) :
    (stateAfter (makeDirectories p) fs).Listed := by
  -- On the depth of the path, as directories are made.
  induction hn : p.names.length using Nat.strongRecOn generalizing p fs with
  | ind n ih =>
    have first : (stateAfter (ensureDirectory p) fs).Listed :=
      stateAfter_ensureDirectory (p := p) ▸ h.after_makeDirectory written
    unfold stateAfter
    rw [makeDirectories]
    cases run : ensureDirectory p fs with
    | ok _ fs' => rwa [stateAfter_ok run] at first
    | error e fs' =>
      rw [stateAfter_error run] at first
      simp only
      by_cases missing : e.refusal = .noEntry ∧ p.names ≠ []
      · rw [if_pos missing]
        have shorter : p.parent.names.length < n := by
          have := List.length_pos_iff.2 missing.2
          simp only [Path.parent, List.length_dropLast]
          omega
        have above := ih _ shorter first written.parent rfl
        cases made : makeDirectories p.parent fs' with
        | error e' fs₂ => rwa [stateAfter_error made] at above
        | ok _ fs₂ =>
          rw [stateAfter_ok made] at above
          have last := above.after_makeDirectory written
          rwa [← stateAfter_ensureDirectory] at last
      · rwa [if_neg missing]

theorem after_writeBytes {content : List UInt8} (h : fs.Listed) (written : p.Written) :
    (stateAfter (writeBytes p content) fs).Listed := by
  unfold stateAfter writeBytes
  cases located : fs.locate p with
  | error refusal => exact h
  | ok r =>
    have names := h.names_of_locate written located
    simp only
    cases found : fs.entry? r with
    | none => exact h.add found names
    | some e =>
      cases e with
      | directory t => exact h
      | file c t =>
        refine h.put ?_ names
        rintro rfl
        cases found

theorem erase (h : fs.Listed) (r : Route) : (fs.erase r).Listed where
  once := h.once.sublist (List.filter_sublist.map _)
  below e mem := h.below e (List.mem_filter.1 mem).1
  names e mem := h.names e (List.mem_filter.1 mem).1
  here := h.here

end Listed

end FileStore

end IdlFront
