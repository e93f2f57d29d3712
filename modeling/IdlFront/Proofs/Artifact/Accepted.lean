import IdlFront.Proofs.Artifact.Faithful

/-! # Trees that are accepted

* `Checked.seq_eq_ok` and the lemmas beside it — what a check that succeeds has read.
* `IdlFile.integral_of_check` — the values of all enum members of a tree that is accepted are
  integers.
-/

namespace IdlFront

open Json

/-! ## Checks that have succeeded -/

namespace Checked

variable {α β : Type}

theorem map_eq_ok {f : α → β} {x : Checked α} {b : β} (h : f <$> x = .ok b) :
    ∃ a, x = .ok a ∧ f a = b := by
  cases x with
  | ok a =>
    cases h
    exact ⟨a, rfl, rfl⟩
  | faulty fs => cases h

theorem seq_eq_ok {f : Checked (α → β)} {x : Checked α} {b : β} (h : f <*> x = .ok b) :
    ∃ g a, f = .ok g ∧ x = .ok a ∧ g a = b := by
  cases f with
  | ok g =>
    cases x with
    | ok a =>
      cases h
      exact ⟨g, a, rfl, rfl, rfl⟩
    | faulty fs => cases h
  | faulty fs => cases x <;> cases h

theorem within_eq_ok {step : DataStep} {x : Checked α} {a : α} (h : x.within step = .ok a) :
    x = .ok a := by
  cases x with
  | ok a' => exact h
  | faulty fs => cases h

theorem andThen_eq_ok {f : α → Checked β} {x : Checked α} {b : β} (h : x.andThen f = .ok b) :
    ∃ a, x = .ok a ∧ f a = .ok b := by
  cases x with
  | ok a => exact ⟨a, rfl, h⟩
  | faulty fs => cases h

/-- Each item of a list that is accepted comes from an item that is. -/
theorem items_eq_ok {i : Nat} {xs : List (Checked α)} {as : List α} (h : items i xs = .ok as) :
    ∀ a ∈ as, .ok a ∈ xs := by
  induction xs generalizing i as with
  | nil =>
    cases h
    intro a ha
    cases ha
  | cons x xs ih =>
    obtain ⟨g, more, first, rest, rfl⟩ := seq_eq_ok h
    obtain ⟨a, found, rfl⟩ := map_eq_ok first
    intro b hb
    cases hb with
    | head => exact within_eq_ok found ▸ List.mem_cons_self
    | tail _ hb => exact List.mem_cons_of_mem _ (ih rest b hb)

end Checked

open Checked

section Fields

variable {α : Type} {check : Json → Checked α} {fields : Fields} {key : String}

theorem optional_eq_ok {default a : α} (h : Json.optional fields key default check = .ok a) :
    a = default ∨ ∃ v, fields.get? key = some v ∧ check v = .ok a := by
  unfold Json.optional at h
  cases found : fields.get? key with
  | none =>
    rw [found] at h
    cases h
    exact .inl rfl
  | some v =>
    rw [found] at h
    exact .inr ⟨v, rfl, within_eq_ok h⟩

theorem checkList_eq_ok {j : Json} {as : List α} (h : checkList check j = .ok as) :
    ∃ items, j = .array items ∧ ∀ a ∈ as, ∃ x ∈ items, check x = .ok a := by
  cases j with
  | array items =>
    refine ⟨items, rfl, fun a ha => ?_⟩
    exact List.mem_map.1 (items_eq_ok h a ha)
  | _ => cases h

/-- The items of a list that may be missing come from parts of the fields. -/
theorem optionalList_eq_ok {as : List α}
    (h : Json.optional fields key [] (checkList check) = .ok as) :
    ∀ a ∈ as, ∃ x : Json, x.size < (Json.object fields).size ∧ check x = .ok a := by
  intro a ha
  obtain rfl | ⟨v, found, list⟩ := optional_eq_ok h
  · cases ha
  · obtain ⟨items, rfl, each⟩ := checkList_eq_ok list
    obtain ⟨x, hx, checked⟩ := each a ha
    have := size_lt_of_get? found
    have := size_lt_of_mem hx
    exact ⟨x, by omega, checked⟩

theorem checkNode_eq_ok {node : Fields → Checked α} {j : Json} {a : α}
    (h : checkNode node j = .ok a) : ∃ fields, j = .object fields ∧ node fields = .ok a := by
  cases j with
  | object fields => exact ⟨fields, rfl, h⟩
  | _ => cases h

theorem checkTagged_eq_ok {node : String → Option (Fields → Checked α)} {j : Json} {a : α}
    (h : checkTagged node j = .ok a) :
    ∃ fields tag check, j = .object fields ∧ node tag = some check ∧ check fields = .ok a := by
  unfold checkTagged at h
  split at h
  · next fields =>
    split at h
    · cases h
    · next tag _ =>
      split at h
      · next check known => exact ⟨fields, tag, check, rfl, known, within_eq_ok h⟩
      · cases h
    · cases h
  · cases h

end Fields

/-! ## Enumerations -/

theorem integral_of_checkInitializer {o o' : Option Literal} (h : checkInitializer o = .ok o') :
    ∀ l ∈ o', l.kind.isIntegral = true := by
  cases o with
  | none =>
    cases h
    intro l hl
    cases hl
  | some l =>
    simp only [checkInitializer] at h
    by_cases integral : l.kind.isIntegral = true
    · rw [if_pos integral] at h
      cases h
      intro l' hl
      cases hl
      exact integral
    · rw [if_neg integral] at h
      cases h

theorem EnumMember.integral_of_check {j : Json} {m : EnumMember}
    (h : EnumMember.check j = .ok m) : m.Integral := by
  obtain ⟨fields, rfl, all⟩ := checkNode_eq_ok h
  obtain ⟨_, span, front, -, rfl⟩ := seq_eq_ok all
  obtain ⟨_, attributes, front₁, -, rfl⟩ := seq_eq_ok front
  obtain ⟨_, value, front₂, initializer, rfl⟩ := seq_eq_ok front₁
  obtain ⟨name, -, rfl⟩ := map_eq_ok front₂
  -- A member without the field has no value; a value that is there has been checked.
  obtain rfl | ⟨v, -, checked⟩ := optional_eq_ok initializer
  · intro l hl
    cases hl
  · obtain ⟨o, -, checked⟩ := andThen_eq_ok checked
    exact integral_of_checkInitializer checked

theorem EnumDecl.integral_of_check {fields : Fields} {d : EnumDecl}
    (h : EnumDecl.check fields = .ok d) : d.Integral := by
  obtain ⟨_, span, front, -, rfl⟩ := seq_eq_ok h
  obtain ⟨_, attributes, front₁, -, rfl⟩ := seq_eq_ok front
  obtain ⟨_, members, front₂, list, rfl⟩ := seq_eq_ok front₁
  obtain ⟨name, -, rfl⟩ := map_eq_ok front₂
  intro m hm
  obtain ⟨x, -, checked⟩ := optionalList_eq_ok list m hm
  exact EnumMember.integral_of_check checked

/-! ## Namespaces -/

theorem Namespace.integral_of_items {fields : Fields} {ns : Namespace}
    (items : ∀ (x : Json) (d : Declaration), x.size < (Json.object fields).size →
      Declaration.check x = .ok d → d.Integral)
    (h : Namespace.check fields = .ok ns) : ns.Integral := by
  rw [Namespace.check_eq] at h
  obtain ⟨_, span, front, -, rfl⟩ := seq_eq_ok h
  obtain ⟨_, attributes, front₁, -, rfl⟩ := seq_eq_ok front
  obtain ⟨_, ds, front₂, list, rfl⟩ := seq_eq_ok front₁
  obtain ⟨_, name, front₃, -, rfl⟩ := seq_eq_ok front₂
  obtain ⟨_, -, rfl⟩ := map_eq_ok front₃
  apply Declaration.allIntegral_iff.2
  intro d hd
  obtain ⟨x, less, checked⟩ := optionalList_eq_ok list d hd
  exact items x d less checked

theorem Declaration.integral_of_check {j : Json} {d : Declaration}
    (h : Declaration.check j = .ok d) : d.Integral := by
  -- A namespace may hold others, so the induction is on the size of the data.
  induction hn : j.size using Nat.strongRecOn generalizing j d with
  | ind n ih =>
    rw [Declaration.check_eq] at h
    obtain ⟨fields, tag, check, rfl, known, checked⟩ := checkTagged_eq_ok h
    unfold Declaration.classOf? at known
    split at known
    · cases known
      obtain ⟨ns, read, rfl⟩ := map_eq_ok checked
      refine Namespace.integral_of_items (fun x d less found => ?_) read
      exact ih x.size (by omega) found rfl
    · cases known
      obtain ⟨d, read, rfl⟩ := map_eq_ok checked
      exact EnumDecl.integral_of_check read
    · cases known
      obtain ⟨d, -, rfl⟩ := map_eq_ok checked
      trivial
    · cases known
      obtain ⟨d, -, rfl⟩ := map_eq_ok checked
      trivial
    · cases known
      obtain ⟨d, -, rfl⟩ := map_eq_ok checked
      trivial
    · cases known

/-! ## Files -/

theorem IdlFile.integral_of_check {fields : Fields} {tree : IdlFile}
    (h : IdlFile.check fields = .ok tree) : tree.Integral := by
  obtain ⟨_, nss, front, list, rfl⟩ := seq_eq_ok h
  obtain ⟨imports, -, rfl⟩ := map_eq_ok front
  intro ns hns
  obtain ⟨x, -, checked⟩ := optionalList_eq_ok list ns hns
  obtain ⟨fields, rfl, checked⟩ := checkNode_eq_ok checked
  exact Namespace.integral_of_items (fun x d _ found => Declaration.integral_of_check found) checked

end IdlFront
