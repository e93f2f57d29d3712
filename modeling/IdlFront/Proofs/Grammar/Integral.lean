import IdlFront.Proofs.Artifact.Faithful
import IdlFront.Proofs.Grammar.Productions

/-! # Values in files of the grammar

* `IsFile.integral` — the grammar has nothing but integers as values of enum members.
-/

namespace IdlFront.Grammar

variable {α : Type} {phrase : List Token → α → Prop} {ts : List Token} {as : List α} {a : α}

theorem Separated.of_mem {separator : TokenKind} (h : Separated separator phrase ts as)
    (mem : a ∈ as) : ∃ us, phrase us a := by
  induction h with
  | one first =>
    rw [List.mem_singleton] at mem
    exact ⟨_, mem ▸ first⟩
  | cons first _ _ ih =>
    cases mem with
    | head => exact ⟨_, first⟩
    | tail _ mem => exact ih mem

theorem Followed.inner {mark : TokenKind} (h : Followed mark phrase ts a) : ∃ us, phrase us a := by
  cases h with
  | bare h => exact ⟨_, h⟩
  | marked h _ => exact ⟨_, h⟩

theorem IsMember.integral {m : EnumMember} (h : Attributed IsMember ts m) : m.Integral := by
  obtain ⟨-, ⟨-, initializer⟩⟩ := h
  intro l hl
  cases initializer with
  | absent => cases hl
  | integer _ _ =>
    cases hl
    rfl
  | hex _ _ =>
    cases hl
    rfl

theorem IsEnum.integral {d : EnumDecl} (h : Attributed IsEnum ts d) : d.Integral := by
  obtain ⟨-, ⟨-, -, -, members, -⟩⟩ := h
  intro m hm
  cases members with
  | none => cases hm
  | some members =>
    obtain ⟨us, list⟩ := members.inner
    obtain ⟨vs, member⟩ := list.of_mem hm
    exact IsMember.integral member

/-- The declarations in a namespace are phrases on their own. -/
theorem IsNamespace.declarations {declaration : List Token → Declaration → Prop} {ns : Namespace}
    (h : Attributed (IsNamespace declaration) ts ns) :
    ∀ d ∈ ns.declarations, ∃ us, declaration us d := by
  obtain ⟨-, ⟨-, -, -, many, -⟩⟩ := h
  intro d hd
  obtain ⟨us, -, followed⟩ := many.of_mem hd
  exact followed.inner

theorem IsDeclaration.integral {ts : List Token} : {d : Declaration} → IsDeclaration ts d → d.Integral
  | .namespace_ ⟨name, ds, attributes, span⟩, .namespace_ h => by
    apply Declaration.allIntegral_iff.2
    intro d hd
    obtain ⟨us, inner⟩ := IsNamespace.declarations h d hd
    exact inner.integral
  | .enum d, .enum h => IsEnum.integral h
  | .struct _, _ => trivial
  | .delegate _, _ => trivial
  | .interface _, _ => trivial

theorem IsFile.integral {tree : IdlFile} (h : IsFile ts tree) : tree.Integral := by
  obtain ⟨many⟩ := h
  intro ns hns
  obtain ⟨item, hitem, eq⟩ := List.mem_filterMap.1 hns
  obtain ⟨us, -, phrase⟩ := many.of_mem hitem
  cases phrase with
  | import_ _ => cases eq
  | namespace_ h =>
    cases eq
    exact IsDeclaration.integral (.namespace_ h)

end IdlFront.Grammar
