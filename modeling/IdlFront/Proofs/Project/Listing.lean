import Mathlib.Data.List.Lex
import Mathlib.Data.List.Sort
import Mathlib.Data.String.Basic
import IdlFront.Proofs.Project.Selection

/-! # Sources in order

* `Path.le_iff` — paths that start at one place are listed in the order of their names.
* `Path.InOrder` — a list in that order, in which no path comes twice; `Path.InOrder.insertInto` keeps it.
* `Path.InOrder.eq_of_mem_iff` — such lists are the same if they have the same paths in them.
* `Glob.anchor_of_mem`, `inOrder_findSources` — whatever is selected starts where the root does, so sources
  are in order.
* `findSources_congr` — the sources of a project depend only on which files are there.
-/

namespace IdlFront

namespace Path

variable {p q : Path} {ps qs : List Path} {anchor : Anchor}

theorem namesLe_iff {as bs : List String} : namesLe as bs = true ↔ ¬ bs < as := by
  induction as generalizing bs with
  | nil => simp [namesLe]
  | cons a as ih =>
    cases bs with
    | nil => simp [namesLe]
    | cons b bs =>
      rw [List.cons_lt_cons_iff, namesLe]
      obtain less | rfl | greater := lt_trichotomy a b
      · simp [less, less.not_gt, less.ne']
      · simp [ih]
      · simp [greater, greater.not_gt, greater.ne']

/-- The order does not depend on the start, if that is the same. -/
theorem le_iff (same : p.anchor = q.anchor) : p.le q = true ↔ ¬ q.names < p.names := by
  have absolute : p.isAbsolute = q.isAbsolute := by rw [isAbsolute, isAbsolute, same]
  unfold le
  simp only [namesLe_iff, absolute, same]
  split
  · simp
  · exact Iff.rfl

/-- Paths from one start in the order of their names, none of them twice. -/
structure InOrder (anchor : Anchor) (ps : List Path) : Prop where
  anchors : ∀ p ∈ ps, p.anchor = anchor
  sorted : ps.Pairwise fun p q => p.names < q.names

theorem InOrder.nil : InOrder anchor [] := ⟨nofun, .nil⟩

theorem InOrder.nodup (h : InOrder anchor ps) : ps.Nodup :=
  h.sorted.imp fun less eq => less.ne (congrArg names eq)

theorem InOrder.insertInto (h : InOrder anchor ps) (same : p.anchor = anchor) :
    InOrder anchor (p.insertInto ps) := by
  refine ⟨?_, ?_⟩
  · intro q mem
    obtain rfl | mem := mem_insertInto.1 mem
    · exact same
    · exact h.anchors q mem
  · obtain ⟨anchors, sorted⟩ := h
    induction ps with
    | nil => exact List.pairwise_singleton _ _
    | cons q ps ih =>
      obtain ⟨first, others⟩ := List.forall_mem_cons.1 anchors
      obtain ⟨below, rest⟩ := List.pairwise_cons.1 sorted
      unfold Path.insertInto
      split
      · exact sorted
      · next other =>
        have apart : p.names ≠ q.names := fun names =>
          other (Path.mk.injEq .. ▸ ⟨same.trans first.symm, names⟩)
        split
        · next le =>
          have less := lt_of_le_of_ne (not_lt.1 ((le_iff (same.trans first.symm)).1 le)) apart
          exact List.pairwise_cons.2 ⟨List.forall_mem_cons.2
            ⟨less, fun r mem => less.trans (below r mem)⟩, sorted⟩
        · next notLe =>
          refine List.pairwise_cons.2 ⟨fun r mem => ?_, ih others rest⟩
          obtain rfl | mem := mem_insertInto.1 mem
          · exact not_not.1 fun notLess => notLe ((le_iff (same.trans first.symm)).2 notLess)
          · exact below r mem

theorem InOrder.foldl_insertInto (h : InOrder anchor ps) (same : ∀ q ∈ qs, q.anchor = anchor) :
    InOrder anchor (qs.foldl (fun ps q => q.insertInto ps) ps) := by
  induction qs generalizing ps with
  | nil => exact h
  | cons q qs ih =>
    obtain ⟨first, others⟩ := List.forall_mem_cons.1 same
    exact ih (h.insertInto first) others

theorem InOrder.eq_of_mem_iff (h : InOrder anchor ps) (h' : InOrder anchor qs)
    (same : ∀ p, p ∈ ps ↔ p ∈ qs) : ps = qs := by
  have : Std.Irrefl fun p q : Path => p.names < q.names := ⟨fun p => lt_irrefl p.names⟩
  have : Std.Antisymm fun p q : Path => p.names < q.names :=
    ⟨fun p q less less' => absurd less' less.asymm⟩
  exact h.sorted.eq_of_mem_iff h'.sorted same

end Path

namespace Glob

variable {fs : FileStore} {p q : Path} {steps : List GlobStep} {directoriesOnly : Bool}

/-- Steps go on from where they start. -/
theorem anchor_of_mem (mem : q ∈ selectFrom fs directoriesOnly steps p) : q.anchor = p.anchor := by
  induction steps generalizing p with
  | nil => rw [List.mem_singleton.1 mem]
  | cons step steps ih =>
    cases step with
    | child name =>
      rw [selectFrom] at mem
      split at mem
      · exact (ih mem).trans rfl
      · cases mem
    | like w =>
      obtain ⟨name, -, mem⟩ := List.mem_flatMap.1 mem
      split at mem
      · exact (ih mem).trans rfl
      · cases mem
    | anyDepth =>
      obtain ⟨p', among, mem⟩ := List.mem_flatMap.1 mem
      unfold directoriesIn at among
      split at among
      · obtain ⟨way, -, rfl⟩ := List.mem_map.1 among
        exact (ih mem).trans rfl
      · cases among

theorem anchor_of_mem_select {g : Glob} (mem : q ∈ g.select fs p) : q.anchor = p.anchor := by
  unfold select at mem
  split at mem
  · exact anchor_of_mem mem
  · cases mem

end Glob

open FileStore

section Sources

variable {fs fs' : FileStore} {config : ProjectConfig} {root : Path} {sources : List Path}

theorem inOrder_findSources (found : findSources fs config root = .ok sources) :
    Path.InOrder root.anchor sources := by
  have isSource := fun {p} => (mem_findSources (p := p) found).1
  obtain ⟨gs, -, rfl⟩ := findSources_eq_ok found
  apply Path.InOrder.nil.foldl_insertInto
  intro q mem
  obtain ⟨⟨pattern, -, g, -, selected⟩, -⟩ := isSource (mem_foldl_insertInto.2 (.inl mem))
  exact Glob.anchor_of_mem_select selected

/-- What is found does not depend on anything but the files that could be sources. -/
theorem findSources_congr (tree : fs.IsTree) (listed : fs.Listed) (tree' : fs'.IsTree)
    (listed' : fs'.Listed) (inward : config.Inward) (here : fs'.here = fs.here)
    (directory : fs.hasDirectory root = true) (directory' : fs'.hasDirectory root = true)
    (same : ∀ names, config.Takes fs.here root names →
      ((∃ c t, fs'.entry? (route fs.here root ++ names) = some (.file c t)) ↔
        ∃ c t, fs.entry? (route fs.here root ++ names) = some (.file c t))) :
    findSources fs' config root = findSources fs config root := by
  have unresolvable : config.isUnresolvable fs' root = config.isUnresolvable fs root := by
    rw [ProjectConfig.isUnresolvable_of_hasDirectory directory',
      ProjectConfig.isUnresolvable_of_hasDirectory directory]
  cases found : findSources fs config root with
  | error e =>
    -- Only the build directory or a pattern can be at fault, whatever is there.
    unfold findSources at found ⊢
    rw [unresolvable]
    split at found
    · next refused => rwa [if_pos refused]
    · next resolved =>
      rw [if_neg resolved]
      split at found
      · exact found
      · cases found
  | ok sources =>
    have searchable := findSources_ok_iff.1 ⟨sources, found⟩
    obtain ⟨sources', found'⟩ : ∃ sources', findSources fs' config root = .ok sources' :=
      findSources_ok_iff.2
        ⟨unresolvable.trans searchable.resolvable, searchable.readable, rfl⟩
    rw [found']
    congr 1
    apply (inOrder_findSources found').eq_of_mem_iff (inOrder_findSources found)
    intro p
    rw [mem_findSources_iff tree' listed' inward directory' found',
      mem_findSources_iff tree listed inward directory found, here]
    constructor
    · rintro ⟨names, rfl, takes, file⟩
      exact ⟨names, rfl, takes, (same names takes).1 file⟩
    · rintro ⟨names, rfl, takes, file⟩
      exact ⟨names, rfl, takes, (same names takes).2 file⟩

end Sources

end IdlFront
