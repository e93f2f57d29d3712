import IdlFront.Artifact.Decode
import IdlFront.Proofs.Json.RoundTrip

/-! # Trees through JSON

* `Faithful` — the JSON of a node tells the node: its text determines it, and checking it gives the
  node back.
* `faithful_list`, `faithful_option`, `faithful_word` — the ways in which nodes hold their parts.
* `IdlFile.versioned_kept` — the text of every tree tells its JSON.
* `IdlFile.check_fields` — the JSON tells the tree, as long as the values of enum members are integers.
-/

namespace IdlFront

open Json

/-! ## Checks that succeed -/

namespace Checked

variable {α β : Type}

@[simp] theorem map_ok (f : α → β) (a : α) : f <$> (.ok a : Checked α) = .ok (f a) := rfl

@[simp] theorem seq_ok (f : α → β) (a : α) : (.ok f : Checked (α → β)) <*> .ok a = .ok (f a) := rfl

@[simp] theorem within_ok (step : DataStep) (a : α) : (Checked.ok a).within step = .ok a := rfl

@[simp] theorem andThen_ok (f : α → Checked β) (a : α) : (Checked.ok a).andThen f = f a := rfl

end Checked

/-! ## Nodes that JSON tells -/

section Faithful

variable {α : Type}

/-- The text of the JSON of a node tells the JSON, and the JSON tells the node. -/
structure Faithful (toJson : α → Json) (check : Json → Checked α) (a : α) : Prop where
  kept : (toJson a).Kept
  checked : check (toJson a) = .ok a

variable {toJson : α → Json} {check : Json → Checked α} {a : α}

theorem items_map {as : List α} (h : ∀ a ∈ as, check (toJson a) = .ok a) (i : Nat) :
    Checked.items i ((as.map toJson).map check) = .ok as := by
  induction as generalizing i with
  | nil => rfl
  | cons a as ih =>
    rw [List.map_cons, List.map_cons, Checked.items, h a List.mem_cons_self,
      ih fun a ha => h a (List.mem_cons_of_mem _ ha)]
    rfl

theorem kept_list {as : List α} (h : ∀ a ∈ as, (toJson a).Kept) : (Json.array (as.map toJson)).Kept :=
  kept_array.2 (List.forall_mem_map.2 h)

theorem faithful_list {as : List α} (h : ∀ a ∈ as, Faithful toJson check a) :
    Faithful (fun as => .array (as.map toJson)) (checkList check) as where
  kept := kept_list fun a ha => (h a ha).kept
  checked := items_map (fun a ha => (h a ha).checked) 0

theorem faithful_option {o : Option α} (h : ∀ a ∈ o, Faithful toJson check a)
    (ne : ∀ a, toJson a ≠ .null) :
    Faithful (fun o => (o.map toJson).getD .null) (nullable check) o where
  kept := by
    cases o with
    | none => trivial
    | some a => exact (h a rfl).kept
  checked := by
    cases o with
    | none => rfl
    | some a =>
      show nullable check (toJson a) = _
      rw [nullable.eq_2 _ _ (ne a), (h a rfl).checked]
      rfl

theorem faithful_word {label : α → String} {ofLabel? : String → Option α}
    (inverse : ∀ a, ofLabel? (label a) = some a) (fault : FaultKind) (a : α) :
    Faithful (fun a => .string (label a)) (checkWord ofLabel? fault) a where
  kept := trivial
  checked := by rw [checkWord, inverse]

end Faithful

attribute [local simp] checkNode nameOf spanOf required Json.optional Fields.get? checkText
  checkInteger checkBool toScalar Scalar.toText Scalar.toInteger Scalar.toBool

/-! ## Parts of declarations -/

theorem Span.faithful (s : Span) : Faithful Span.toJson Span.check s where
  kept := by simp [Span.toJson]
  checked := by simp [Span.toJson, Span.check]

theorem LiteralKind.ofLabel?_label (k : LiteralKind) : ofLabel? k.label = some k := by
  cases k <;> decide

theorem Literal.faithful (l : Literal) : Faithful Literal.toJson Literal.check l where
  kept := by simp [Literal.toJson, l.span.faithful.kept]
  checked := by
    simp [Literal.toJson, Literal.check, checkWord, LiteralKind.ofLabel?_label,
      l.span.faithful.checked]

section TypeRefs

variable {α : Type}

theorem TypeRef.toJsonAll_eq (ts : List TypeRef) : toJsonAll ts = ts.map toJson := by
  induction ts with
  | nil => rfl
  | cons t ts ih => rw [toJsonAll, ih, List.map_cons]

/-- A list that is checked item by item, each known to be in it, is a list like any other. -/
theorem attached_list (fields : Fields) (key : String) (check : Json → Checked α) :
    (match _found : Fields.get? fields key with
      | none => .ok []
      | some (.array items) =>
        (Checked.items 0 (items.attach.map fun ⟨j, _⟩ => check j)).within (.key key)
      | some _ => (Checked.fail .listType).within (.key key)) =
      Json.optional fields key [] (checkList check) := by
  unfold Json.optional
  split
  · next none => rw [none]
  · next items found =>
    rw [found]
    simp [checkList]
  · next v noList found =>
    rw [found]
    simp only [checkList.eq_2 _ _ noList]

theorem TypeRef.check_object (fields : Fields) :
    TypeRef.check (.object fields) = TypeRef.mk <$> nameOf fields
      <*> Json.optional fields "type_arguments" [] (checkList TypeRef.check)
      <*> Json.optional fields "is_array" false checkBool <*> spanOf fields := by
  rw [TypeRef.check]
  congr 3
  funext
  exact attached_list fields "type_arguments" TypeRef.check

theorem TypeRef.faithful : (t : TypeRef) → Faithful TypeRef.toJson TypeRef.check t
  | ⟨name, arguments, isArray, span⟩ => by
    have all := faithful_list fun a (_ : a ∈ arguments) => TypeRef.faithful a
    constructor
    · simp [TypeRef.toJson, toJsonAll_eq, all.kept, span.faithful.kept]
    · simp [TypeRef.toJson, toJsonAll_eq, check_object, all.checked, span.faithful.checked]

end TypeRefs

theorem Modifier.ofLabel?_label (m : Modifier) : ofLabel? m.label = some m := by
  cases m <;> decide

theorem Parameter.faithful (p : Parameter) : Faithful Parameter.toJson Parameter.check p := by
  have modifier := faithful_option (o := p.modifier)
    (fun m _ => faithful_word Modifier.ofLabel?_label .enumError m) (by simp)
  constructor
  · simp [Parameter.toJson, modifier.kept, p.type.faithful.kept, p.span.faithful.kept]
  · simp [Parameter.toJson, Parameter.check, p.type.faithful.checked, modifier.checked,
      p.span.faithful.checked]

theorem Attribute.faithful (a : Attribute) : Faithful Attribute.toJson Attribute.check a := by
  have arguments := faithful_list fun l (_ : l ∈ a.arguments) => l.faithful
  constructor
  · simp [Attribute.toJson, arguments.kept, a.span.faithful.kept]
  · simp [Attribute.toJson, Attribute.check, arguments.checked, a.span.faithful.checked]

theorem faithful_attributes (as : List Attribute) :
    Faithful (fun as => .array (as.map Attribute.toJson)) (checkList Attribute.check) as :=
  faithful_list fun a _ => a.faithful

/-! ## Declarations -/

/-- The value of the member is an integer, if it has one. -/
def EnumMember.Integral (m : EnumMember) : Prop := ∀ l ∈ m.value, l.kind.isIntegral = true

/-- The values of all members are integers. -/
def EnumDecl.Integral (d : EnumDecl) : Prop := ∀ m ∈ d.members, m.Integral

theorem EnumMember.checked_value {o : Option Literal} (integral : ∀ l ∈ o, l.kind.isIntegral = true) :
    (nullable Literal.check ((o.map Literal.toJson).getD .null)).andThen checkInitializer = .ok o := by
  have value := faithful_option (o := o) (fun l _ => l.faithful) (by simp [Literal.toJson])
  rw [value.checked]
  cases o with
  | none => rfl
  | some l => simp [checkInitializer, integral l rfl]

theorem EnumMember.kept (m : EnumMember) : m.toJson.Kept := by
  have value := faithful_option (o := m.value) (fun l _ => l.faithful) (by simp [Literal.toJson])
  have attributes := faithful_attributes m.attributes
  simp [EnumMember.toJson, attributesField, value.kept, attributes.kept, m.span.faithful.kept]

theorem EnumMember.faithful {m : EnumMember} (integral : m.Integral) :
    Faithful EnumMember.toJson EnumMember.check m where
  kept := m.kept
  checked := by
    have attributes := faithful_attributes m.attributes
    simp [EnumMember.toJson, EnumMember.check, attributesField, attributesOf,
      checked_value integral, attributes.checked, m.span.faithful.checked]

theorem EnumDecl.kept (d : EnumDecl) : d.toJson.Kept := by
  have members := kept_list fun m (_ : m ∈ d.members) => m.kept
  have attributes := faithful_attributes d.attributes
  simp [EnumDecl.toJson, attributesField, members, attributes.kept, d.span.faithful.kept]

theorem EnumDecl.faithful {d : EnumDecl} (integral : d.Integral) :
    Faithful EnumDecl.toJson (checkNode EnumDecl.check) d where
  kept := d.kept
  checked := by
    have members := faithful_list fun m hm => EnumMember.faithful (integral m hm)
    have attributes := faithful_attributes d.attributes
    simp [EnumDecl.toJson, EnumDecl.check, attributesField, attributesOf, members.checked,
      attributes.checked, d.span.faithful.checked]

theorem StructField.faithful (f : StructField) :
    Faithful StructField.toJson StructField.check f := by
  constructor
  · simp [StructField.toJson, f.type.faithful.kept, f.span.faithful.kept]
  · simp [StructField.toJson, StructField.check, f.type.faithful.checked, f.span.faithful.checked]

theorem StructDecl.faithful (d : StructDecl) :
    Faithful StructDecl.toJson (checkNode StructDecl.check) d := by
  have fields := faithful_list fun f (_ : f ∈ d.fields) => f.faithful
  have attributes := faithful_attributes d.attributes
  constructor
  · simp [StructDecl.toJson, attributesField, fields.kept, attributes.kept, d.span.faithful.kept]
  · simp [StructDecl.toJson, StructDecl.check, attributesField, attributesOf, fields.checked,
      attributes.checked, d.span.faithful.checked]

theorem DelegateDecl.faithful (d : DelegateDecl) :
    Faithful DelegateDecl.toJson (checkNode DelegateDecl.check) d := by
  have parameters := faithful_list fun p (_ : p ∈ d.parameters) => p.faithful
  have attributes := faithful_attributes d.attributes
  constructor
  · simp [DelegateDecl.toJson, attributesField, d.returnType.faithful.kept, parameters.kept,
      attributes.kept, d.span.faithful.kept]
  · simp [DelegateDecl.toJson, DelegateDecl.check, attributesField, attributesOf, parametersOf,
      d.returnType.faithful.checked, parameters.checked, attributes.checked, d.span.faithful.checked]

/-! ## Interfaces -/

theorem Method.faithful (m : Method) : Faithful Method.toJson (checkNode Method.check) m := by
  have parameters := faithful_list fun p (_ : p ∈ m.parameters) => p.faithful
  have attributes := faithful_attributes m.attributes
  constructor
  · simp [Method.toJson, attributesField, m.returnType.faithful.kept, parameters.kept,
      attributes.kept, m.span.faithful.kept]
  · simp [Method.toJson, Method.check, attributesField, attributesOf, parametersOf,
      m.returnType.faithful.checked, parameters.checked, attributes.checked, m.span.faithful.checked]

theorem Accessor.ofLabel?_label (a : Accessor) : ofLabel? a.label = some a := by
  cases a <;> decide

theorem Property.faithful (p : Property) :
    Faithful Property.toJson (checkNode Property.check) p := by
  have accessors := faithful_list fun a (_ : a ∈ p.accessors) =>
    faithful_word Accessor.ofLabel?_label .literalError a
  have attributes := faithful_attributes p.attributes
  constructor
  · simp [Property.toJson, attributesField, p.type.faithful.kept, accessors.kept, attributes.kept,
      p.span.faithful.kept]
  · simp [Property.toJson, Property.check, attributesField, attributesOf, p.type.faithful.checked,
      accessors.checked, attributes.checked, p.span.faithful.checked]

theorem Event.faithful (e : Event) : Faithful Event.toJson (checkNode Event.check) e := by
  have attributes := faithful_attributes e.attributes
  constructor
  · simp [Event.toJson, attributesField, e.type.faithful.kept, attributes.kept, e.span.faithful.kept]
  · simp [Event.toJson, Event.check, attributesField, attributesOf, e.type.faithful.checked,
      attributes.checked, e.span.faithful.checked]

/-- A node of one of several classes is checked as one of the class that its `kind` names. -/
theorem checkTagged_ok {α β : Type} {node : String → Option (Fields → Checked β)} {tag : String}
    {check : Fields → Checked α} {wrap : α → β} {j : Json} {a : α}
    (shape : ∃ rest, j = .object (("kind", .string tag) :: rest))
    (known : node tag = some fun fields => wrap <$> check fields)
    (checked : checkNode check j = .ok a) : checkTagged node j = .ok (wrap a) := by
  obtain ⟨rest, rfl⟩ := shape
  simp only [checkNode] at checked
  simp [checkTagged, known, checked]

theorem InterfaceMember.faithful (m : InterfaceMember) :
    Faithful InterfaceMember.toJson (checkTagged InterfaceMember.classOf?) m := by
  cases m with
  | method m => exact ⟨m.faithful.kept, checkTagged_ok ⟨_, rfl⟩ rfl m.faithful.checked⟩
  | property p => exact ⟨p.faithful.kept, checkTagged_ok ⟨_, rfl⟩ rfl p.faithful.checked⟩
  | event e => exact ⟨e.faithful.kept, checkTagged_ok ⟨_, rfl⟩ rfl e.faithful.checked⟩

theorem InterfaceDecl.faithful (d : InterfaceDecl) :
    Faithful InterfaceDecl.toJson (checkNode InterfaceDecl.check) d := by
  have bases := faithful_list fun t (_ : t ∈ d.bases) => t.faithful
  have members := faithful_list fun m (_ : m ∈ d.members) => m.faithful
  have attributes := faithful_attributes d.attributes
  constructor
  · simp [InterfaceDecl.toJson, attributesField, bases.kept, members.kept, attributes.kept,
      d.span.faithful.kept]
  · simp [InterfaceDecl.toJson, InterfaceDecl.check, attributesField, attributesOf, bases.checked,
      members.checked, attributes.checked, d.span.faithful.checked]

/-! ## Namespaces -/

mutual

/-- The values of all enum members in a namespace are integers. -/
def Namespace.Integral : Namespace → Prop
  | ⟨_, ds, _, _⟩ => Declaration.AllIntegral ds

/-- The same for a declaration. -/
def Declaration.Integral : Declaration → Prop
  | .namespace_ ns => ns.Integral
  | .enum d => d.Integral
  | .struct _ | .delegate _ | .interface _ => True

/-- The same for several declarations. -/
def Declaration.AllIntegral : List Declaration → Prop
  | [] => True
  | d :: ds => d.Integral ∧ Declaration.AllIntegral ds

end

theorem Declaration.allIntegral_iff {ds : List Declaration} :
    AllIntegral ds ↔ ∀ d ∈ ds, d.Integral := by
  induction ds with
  | nil => simp [AllIntegral]
  | cons d ds ih => simp [AllIntegral, ih]

theorem Declaration.toJsonAll_eq (ds : List Declaration) : toJsonAll ds = ds.map toJson := by
  induction ds with
  | nil => rfl
  | cons d ds ih => rw [toJsonAll, ih, List.map_cons]

theorem Namespace.check_eq (fields : Fields) :
    Namespace.check fields =
      (fun _ name ds attributes span => ⟨name, ds, attributes, span⟩) <$> namespaceKind fields
        <*> required fields "name" (checkList checkText)
        <*> Json.optional fields "declarations" [] (checkList Declaration.check)
        <*> attributesOf fields <*> spanOf fields := by
  rw [Namespace.check]
  congr 3
  funext
  exact attached_list fields "declarations" Declaration.check

theorem Declaration.classOf?_applied (check : Fields → Checked Namespace) (fields : Fields)
    (tag : String) :
    (classOf? (fun _ => check fields) tag).map (fun check => check fields) =
      (classOf? check tag).map fun check => check fields := by
  unfold classOf?
  split <;> rfl

theorem Declaration.check_eq (j : Json) :
    Declaration.check j = checkTagged (Declaration.classOf? Namespace.check) j := by
  cases j with
  | object fields =>
    rw [Declaration.check]
    simp only [checkTagged]
    cases Fields.get? fields "kind" with
    | none => rfl
    | some v =>
      cases v with
      | string tag =>
        have same := classOf?_applied Namespace.check fields tag
        simp only
        -- The class is found in both or in neither, and is the same on these fields.
        revert same
        cases classOf? (fun _ => Namespace.check fields) tag <;>
          cases classOf? Namespace.check tag <;> simp
        intro same
        rw [same]
      | _ => rfl
  | _ => simp [Declaration.check, checkTagged]

mutual

theorem Namespace.kept : (ns : Namespace) → ns.toJson.Kept
  | ⟨name, ds, attributes, span⟩ => by
    have declarations := kept_list fun d (_ : d ∈ ds) => Declaration.kept d
    have names : (Json.array (name.map Json.string)).Kept := kept_list fun _ _ => kept_string
    have attributes := faithful_attributes attributes
    simp [Namespace.toJson, Declaration.toJsonAll_eq, Json.strings, attributesField, names, declarations,
      attributes.kept, span.faithful.kept]

theorem Declaration.kept : (d : Declaration) → d.toJson.Kept
  | .namespace_ ns => Namespace.kept ns
  | .enum d => d.kept
  | .struct d => d.faithful.kept
  | .delegate d => d.faithful.kept
  | .interface d => d.faithful.kept

end

mutual

theorem Namespace.faithful : (ns : Namespace) → ns.Integral →
    Faithful Namespace.toJson (checkNode Namespace.check) ns
  | ⟨name, ds, attributes, span⟩, integral => by
    -- A namespace is faithful because its declarations are; that is the only nesting there is.
    have declarations := faithful_list fun d (hd : d ∈ ds) =>
      Declaration.faithful d (Declaration.allIntegral_iff.1 integral d hd)
    have names := faithful_list fun s (_ : s ∈ name) =>
      (⟨trivial, rfl⟩ : Faithful Json.string checkText s)
    have attributes := faithful_attributes attributes
    refine ⟨Namespace.kept _, ?_⟩
    simp [Namespace.toJson, Declaration.toJsonAll_eq, Namespace.check_eq, namespaceKind, checkWord,
      Json.strings, attributesField, attributesOf, names.checked, declarations.checked,
      attributes.checked, span.faithful.checked]

theorem Declaration.faithful : (d : Declaration) → d.Integral →
    Faithful Declaration.toJson Declaration.check d
  | .namespace_ ns, integral => by
    have h := Namespace.faithful ns integral
    refine ⟨h.kept, ?_⟩
    rw [Declaration.check_eq]
    cases ns with
    | mk name ds attributes span => exact checkTagged_ok ⟨_, rfl⟩ rfl h.checked
  | .enum d, integral => by
    have h := EnumDecl.faithful integral
    refine ⟨h.kept, ?_⟩
    rw [Declaration.check_eq]
    exact checkTagged_ok ⟨_, rfl⟩ rfl h.checked
  | .struct d, _ => by
    refine ⟨d.faithful.kept, ?_⟩
    rw [Declaration.check_eq]
    exact checkTagged_ok ⟨_, rfl⟩ rfl d.faithful.checked
  | .delegate d, _ => by
    refine ⟨d.faithful.kept, ?_⟩
    rw [Declaration.check_eq]
    exact checkTagged_ok ⟨_, rfl⟩ rfl d.faithful.checked
  | .interface d, _ => by
    refine ⟨d.faithful.kept, ?_⟩
    rw [Declaration.check_eq]
    exact checkTagged_ok ⟨_, rfl⟩ rfl d.faithful.checked

end

/-! ## Files -/

theorem Import.faithful (i : Import) : Faithful Import.toJson Import.check i where
  kept := by simp [Import.toJson, i.span.faithful.kept]
  checked := by simp [Import.toJson, Import.check, i.span.faithful.checked]

/-- The values of all enum members in a file are integers. -/
def IdlFile.Integral (tree : IdlFile) : Prop := ∀ ns ∈ tree.namespaces, ns.Integral

section Files

variable {tree : IdlFile}

theorem IdlFile.versioned_kept (tree : IdlFile) :
    (Json.object ((Artifact.versionKey, .string Artifact.version) :: tree.fields)).Kept := by
  have imports := kept_list fun i (_ : i ∈ tree.imports) => i.faithful.kept
  have namespaces := kept_list fun ns (_ : ns ∈ tree.namespaces) => Namespace.kept ns
  simp [fields, Artifact.versionKey, imports, namespaces]

theorem IdlFile.check_fields (integral : tree.Integral) : IdlFile.check tree.fields = .ok tree := by
  have imports := faithful_list fun i (_ : i ∈ tree.imports) => i.faithful
  have namespaces := faithful_list fun ns hns => Namespace.faithful ns (integral ns hns)
  simp [IdlFile.check, fields, imports.checked, namespaces.checked]

end Files

end IdlFront
