import IdlFront.Proofs.Parser.Running

/-! # Judgements on parsers

What is claimed of a parser is shown of the steps that it is put together from. The parsers of the
language are gone through once, for any judgement that follows the rules.

* `Judgement` — a claim on parsers, also where the next token is known.
* `Holds` — the class of parsers a judgement holds of, found by how they are put together.
* `Phrasal` — the rules for phrases: they look at tokens, consume what is no brace, and give up.
* `Reporting` — a phrase may also report a problem and go on.
* `Resuming` — a list may also consume braces, and skip after an item that has failed.
* `Lenient` — it does not matter what a phrase says it expects.
-/

namespace IdlFront

/-- A kind of token that is no brace. -/
class Unbraced (kind : TokenKind) : Prop where
  open_ : kind ≠ .punct .lbrace
  close : kind ≠ .punct .rbrace

instance (word : Keyword) : Unbraced (.keyword word) := ⟨TokenKind.noConfusion, TokenKind.noConfusion⟩

instance : Unbraced .identifier := ⟨TokenKind.noConfusion, TokenKind.noConfusion⟩

instance : Unbraced .string := ⟨TokenKind.noConfusion, TokenKind.noConfusion⟩

instance : Unbraced (.punct .lparen) := ⟨by decide, by decide⟩

instance : Unbraced (.punct .rparen) := ⟨by decide, by decide⟩

instance : Unbraced (.punct .lbracket) := ⟨by decide, by decide⟩

instance : Unbraced (.punct .rbracket) := ⟨by decide, by decide⟩

instance : Unbraced (.punct .langle) := ⟨by decide, by decide⟩

instance : Unbraced (.punct .rangle) := ⟨by decide, by decide⟩

instance : Unbraced (.punct .comma) := ⟨by decide, by decide⟩

instance : Unbraced (.punct .dot) := ⟨by decide, by decide⟩

instance : Unbraced (.punct .semicolon) := ⟨by decide, by decide⟩

instance : Unbraced (.punct .colon) := ⟨by decide, by decide⟩

instance : Unbraced (.punct .equals) := ⟨by decide, by decide⟩

/-- A problem that is found at a token. Where something else is expected, the token is not of an
    expected kind. -/
inductive Problem.Fits (t : Token) : Problem → Prop where
  | expected {kinds : List TokenKind} : t.kind ∉ kinds → Fits t (.expected kinds t)
  | expectedArgument : Fits t (.expectedArgument t)
  | expectedAccessor : Fits t (.expectedAccessor t)
  | noAccessors : Fits t .noAccessors
  | duplicateAccessor (name : String) : Fits t (.duplicateAccessor name)

namespace Parser

/-! ## Judgements and their rules -/

/-- A claim on parsers, made where the given token comes next and has been looked at, or anywhere. -/
abbrev Judgement := Option Token → (α : Type) → Parser α → Prop

class Holds (J : Judgement) (ahead : Option Token) {α : Type} (p : Parser α) : Prop where
  holds : J ahead α p

/-- The rules for phrases. A look makes the next token known, up to the step that may consume it. Loops
    and nested phrases go by the number of tokens to come, which is what `measured` is for. -/
class Phrasal (J : Judgement) : Prop where
  anywhere : ∀ {α : Type} {p : Parser α} {t : Token}, J none α p → J (some t) α p
  pure : ∀ {α : Type} (a : α), J none α (EStateM.pure a)
  bind : ∀ {α β : Type} {ahead : Option Token} {p : Parser α} {f : α → Parser β},
    J ahead α p → (∀ a, J none β (f a)) → J ahead β (p >>= f)
  look : ∀ {α : Type} {f : Token → Parser α}, (∀ t, J (some t) α (f t)) → J none α (current >>= f)
  lookAgain : ∀ {α : Type} {f : Token → Parser α} {t : Token},
    J (some t) α (f t) → J (some t) α (current >>= f)
  measured : ∀ {α : Type} {p : Nat → Parser α},
    (∀ n, J none α (p n)) → J none α fun s => p s.remaining s
  advance : ∀ {t : Token}, Unbraced t.kind → J (some t) Token advance
  refuse : ∀ {α : Type} {t : Token} {problem : Problem},
    problem.Fits t → J (some t) α (refuse t problem)
  spanFrom : ∀ start : Token, J none Span (spanFrom start)

/-- The rules for reports, which leave the next token as it is. An accessor may be reported as repeated
    after it has been taken. -/
class Reporting (J : Judgement) : Prop extends Phrasal J where
  reportThen : ∀ {α : Type} {t : Token} {problem : Problem} {p : Parser α},
    problem.Fits t → J (some t) α p → J (some t) α (do report t problem; p)
  repeated : ∀ {t : Token} {name : String}, Unbraced t.kind →
    J (some t) Unit (do discard Parser.advance; report t (.duplicateAccessor name))

/-- The rules for lists, which may also consume braces and skip ahead. -/
class Resuming (J : Judgement) : Prop extends Reporting J where
  consume : J none Token Parser.advance
  synchronize : ∀ resume : List TokenKind, J none Unit (synchronize resume)
  recovering : ∀ {α : Type} {resume : List TokenKind} {eager : Bool} {item : Parser α},
    J none α item → J none (Option α) (recovering resume eager item)

/-- The rule for judgements that do not depend on what is expected. -/
class Lenient (J : Judgement) : Prop extends Phrasal J where
  unexpected : ∀ {α : Type} (kinds : List TokenKind), J none α (unexpected kinds)

-- The body of a parser is a chain of steps, and the search for its instance goes through all of them.
set_option synthInstance.maxSize 100000

variable {J : Judgement} {ahead : Option Token} {t : Token} {kind : TokenKind} {α β : Type}

instance holds_ite (c : Prop) [Decidable c] (p q : Parser α) [Holds J ahead p] [Holds J ahead q] :
    Holds J ahead (if c then p else q) := by
  split <;> infer_instance

/-- In each branch the condition is known. -/
theorem Holds.ite {c : Prop} [Decidable c] {p q : Parser α} (yes : c → Holds J ahead p)
    (no : ¬ c → Holds J ahead q) : Holds J ahead (if c then p else q) := by
  split
  · exact yes ‹_›
  · exact no ‹_›

section Phrasal

variable [Phrasal J]

/-! ## Steps -/

instance (priority := low) holds_anywhere (p : Parser α) [hp : Holds J none p] :
    Holds J (some t) p := ⟨Phrasal.anywhere hp.holds⟩

instance (a : α) : Holds J none (pure a : Parser α) := ⟨Phrasal.pure a⟩

instance holds_bind (p : Parser α) (f : α → Parser β) [hp : Holds J ahead p]
    [hf : ∀ a, Holds J none (f a)] : Holds J ahead (p >>= f) :=
  ⟨Phrasal.bind hp.holds fun a => (hf a).holds⟩

-- A look alone is not judged, so the search never misses what is known behind it.
instance holds_current (f : Token → Parser α) [hf : ∀ t, Holds J (some t) (f t)] :
    Holds J none (current >>= f) := ⟨Phrasal.look fun t => (hf t).holds⟩

/-- A look finds the token that is known to come next. -/
instance holds_currentAgain (f : Token → Parser α) [hf : Holds J (some t) (f t)] :
    Holds J (some t) (current >>= f) := ⟨Phrasal.lookAgain hf.holds⟩

instance (f : α → β) (p : Parser α) [Holds J ahead p] : Holds J ahead (f <$> p) := by
  rw [map_eq_pure_bind]
  infer_instance

instance (p : Parser α) [Holds J ahead p] : Holds J ahead (discard p) :=
  inferInstanceAs (Holds J ahead ((fun _ => ()) <$> p))

instance [h : Unbraced t.kind] : Holds J (some t) advance := ⟨Phrasal.advance h⟩

instance : Holds J (some t) (refuse t (.expectedArgument t) : Parser α) :=
  ⟨Phrasal.refuse .expectedArgument⟩

instance (start : Token) : Holds J none (spanFrom start) := ⟨Phrasal.spanFrom start⟩

instance (kinds : List TokenKind) : Holds J none (check kinds) := by unfold check; infer_instance

theorem holds_unexpected {kinds : List TokenKind} (other : t.kind ∉ kinds) :
    Holds J (some t) (unexpected kinds : Parser α) :=
  have : Holds J (some t) (refuse t (.expected kinds t) : Parser α) := ⟨Phrasal.refuse (.expected other)⟩
  holds_currentAgain _

section Kind

variable (takes : ∀ t : Token, t.kind = kind → Holds J (some t) advance)

include takes

theorem holds_expect : Holds J none (expect kind) :=
  @holds_current _ _ _ _ fun t => .ite (takes t) fun other => holds_unexpected (by simpa using other)

/-- Where a token is not accepted, it is of another kind, which the other branch can rely on. -/
theorem holds_acceptThen {f : Bool → Parser α} (yes : Holds J none (f true))
    (no : ∀ t : Token, t.kind ≠ kind → Holds J (some t) (f false)) :
    Holds J none (accept kind >>= f) := by
  rw [accept_bind]
  refine @holds_current _ _ _ _ fun t => .ite (fun eq => ?_) (no t)
  have := takes t eq
  infer_instance

theorem holds_accept : Holds J none (accept kind) := by
  have : Holds J none (accept kind >>= pure) :=
    holds_acceptThen takes inferInstance fun _ _ => inferInstance
  rwa [bind_pure] at this

end Kind

theorem takes_unbraced (unbraced : Unbraced kind) (t : Token) (eq : t.kind = kind) :
    Holds J (some t) advance := by
  have : Unbraced t.kind := eq ▸ unbraced
  infer_instance

instance [unbraced : Unbraced kind] : Holds J none (expect kind) :=
  holds_expect (takes_unbraced unbraced)

instance [unbraced : Unbraced kind] : Holds J none (accept kind) :=
  holds_accept (takes_unbraced unbraced)

/-! ## Loops and nesting -/

section Calls

variable {ι : Type} (p stuck : ι → Parser α) (body : ι → Nat → Parser α)
  (apply : ∀ i s, p i s = body i s.remaining s) (ends : ∀ i, Holds J none (stuck i))
  (calls : ∀ i n, (∀ j, Holds J none (limited n (stuck j) (p j))) → Holds J none (body i n))

include apply ends calls

/-- Parsers that call each other for fewer tokens: by induction on the tokens that are left, it is
    enough to look at one call. -/
theorem holds_limited_of_calls (n : Nat) (i : ι) : Holds J none (limited n (stuck i) (p i)) := by
  induction n using Nat.strongRecOn generalizing i with
  | ind n ih =>
    have eq : limited n (stuck i) (p i) =
        fun s => (if s.remaining < n then body i s.remaining else stuck i) s := by
      funext s
      unfold limited
      split
      · exact apply i s
      · rfl
    rw [eq]
    exact ⟨Phrasal.measured fun m => (Holds.ite (fun less => calls i m (ih m less)) fun _ =>
      ends i).holds⟩

theorem holds_of_calls (i : ι) : Holds J none (p i) := by
  rw [show p i = fun s => body i s.remaining s from funext (apply i)]
  exact ⟨Phrasal.measured fun n =>
    (calls i n (holds_limited_of_calls p stuck body apply ends calls n)).holds⟩

end Calls

/-- A loop, each round of which may rely on the token that it goes on for. -/
theorem holds_iterate {continues : TokenKind → Bool} {round : β → Parser β}
    (rounds : ∀ b (t : Token), continues t.kind = true → Holds J (some t) (round b)) (b : β) :
    Holds J none (iterate continues round b) := by
  refine holds_of_calls _ Pure.pure (iterateWithin continues round) (iterate_apply continues round)
    (fun _ => inferInstance) (fun b n later => ?_) b
  refine @holds_current _ _ _ _ fun t => .ite (fun more => ?_) fun _ => inferInstance
  have := rounds b t more
  infer_instance

instance (continues : TokenKind → Bool) (round : β → Parser β) (b : β)
    [∀ b, Holds J none (round b)] : Holds J none (iterate continues round b) :=
  holds_iterate (fun _ _ _ => inferInstance) b

instance (separator : TokenKind) [unbraced : Unbraced separator] (item : Parser α) [Holds J none item] :
    Holds J none (separated separator item) := by
  have loop : ∀ first : α, Holds J none (iterate (· == separator) (fun items => do
      let _ ← advance
      let next ← item
      return items ++ [next]) [first]) := fun first => holds_iterate (fun items t more => by
    have := takes_unbraced (J := J) unbraced t (eq_of_beq more)
    infer_instance) [first]
  unfold separated
  infer_instance

section Nested

variable (stuck : Parser α) (phrase : Parser α → Parser α) [Holds J none stuck]
  (inside : ∀ n, Holds J none (limited n stuck (nested stuck phrase)) →
    Holds J none (phrase (limited n stuck (nested stuck phrase))))

include inside

theorem holds_limited_nested (n : Nat) : Holds J none (limited n stuck (nested stuck phrase)) :=
  holds_limited_of_calls (fun _ => nested stuck phrase) (fun _ => stuck) _
    (fun _ => nested_apply stuck phrase) (fun _ => inferInstance) (fun _ n h => inside n (h ())) n ()

/-- A nested phrase is judged like the phrase over inner ones. -/
theorem holds_nested : Holds J none (nested stuck phrase) :=
  holds_of_calls (fun _ => nested stuck phrase) (fun _ => stuck) _ (fun _ => nested_apply stuck phrase)
    (fun _ => inferInstance) (fun _ n h => inside n (h ())) ()

end Nested

/-! ## Phrases -/

theorem unbraced_of_literal {found : Token} {l : Literal} (h : found.literal? = some l) :
    Unbraced found.kind := by
  obtain ⟨kind, hkind, -⟩ := Option.map_eq_some_iff.1 h
  cases eq : found.kind with
  | punct mark =>
    rw [eq] at hkind
    cases hkind
  | _ => exact ⟨TokenKind.noConfusion, TokenKind.noConfusion⟩

instance : Holds J none segments := by unfold segments; infer_instance

instance : Holds J none dottedName := by unfold dottedName; infer_instance

instance (type : Parser TypeRef) [Holds J none type] : Holds J none (typeArguments type) := by
  unfold typeArguments; infer_instance

instance : Holds J none arrayMark := by unfold arrayMark; infer_instance

instance (inner : Parser TypeRef) [Holds J none inner] : Holds J none (typePhrase inner) := by
  unfold typePhrase; infer_instance

instance : Holds J none modifier := by unfold modifier; infer_instance

instance : Holds J none attributeArgument := by
  unfold attributeArgument
  refine @holds_current _ _ _ _ fun t => ?_
  cases literal : t.literal? with
  | some l =>
    have := unbraced_of_literal literal
    infer_instance
  | none => infer_instance

instance : Holds J none attributeArguments := by unfold attributeArguments; infer_instance

instance : Holds J none attributeUse := by unfold attributeUse; infer_instance

instance : Holds J none attributeLists :=
  holds_iterate (fun attributes t more => by
    have bracket : Unbraced (.punct .lbracket) := inferInstance
    have := takes_unbraced (J := J) bracket t (eq_of_beq more)
    infer_instance) []

instance [Holds J none initializer] : Holds J none enumMember := by unfold enumMember; infer_instance

section Types

variable [Holds J none typeRef]

instance : Holds J none parameter := by unfold parameter; infer_instance

instance : Holds J none parameters := by unfold parameters; infer_instance

instance : Holds J none bases := by unfold bases; infer_instance

end Types

end Phrasal

instance [Lenient J] (kinds : List TokenKind) : Holds J none (unexpected kinds : Parser α) :=
  ⟨Lenient.unexpected kinds⟩

instance [Lenient J] : Holds J none typeRef := holds_nested _ _ fun _ _ => inferInstance

/-! ## Items that may report and go on -/

theorem accessorOf?_eq_some_iff {a : Accessor} {t : Token} :
    accessorOf? t = some a ↔ t.kind = .identifier ∧ t.value = a.label := by
  unfold accessorOf?
  split
  · next eq =>
    constructor
    · intro h
      have label := List.find?_some h
      exact ⟨eq, (eq_of_beq label).symm⟩
    · rintro ⟨-, label⟩
      rw [label]
      cases a <;> rfl
  · next ne => simp [ne]

section Reporting

variable [Reporting J]

theorem holds_reportThen {problem : Problem} {p : Parser α} (fits : problem.Fits t)
    [hp : Holds J (some t) p] : Holds J (some t) (do report t problem; p) :=
  ⟨Reporting.reportThen fits hp.holds⟩

theorem holds_report {problem : Problem} (fits : problem.Fits t) :
    Holds J (some t) (report t problem) := by
  have : Holds J (some t) (do report t problem; pure ()) := holds_reportThen fits
  rwa [bind_pure_unit] at this

instance : Holds J (some t) (report t (.expectedAccessor t)) := holds_report .expectedAccessor

instance : Holds J (some t) (report t .noAccessors) := holds_report .noAccessors

theorem holds_expectOrReport (takes : ∀ t : Token, t.kind = kind → Holds J (some t) advance) :
    Holds J none (expectOrReport kind) := by
  refine @holds_current _ _ _ _ fun t => .ite (fun eq => ?_) fun other =>
    holds_report (.expected (by simpa using other))
  have := takes t eq
  infer_instance

instance [unbraced : Unbraced kind] : Holds J none (expectOrReport kind) :=
  holds_expectOrReport (takes_unbraced unbraced)

/-- A value that is no integer is reported as one that an integer is expected for. -/
instance : Holds J none initializer := by
  unfold initializer
  refine @holds_current _ _ _ _ fun t => .ite (fun number => ?_) fun noInteger => ?_
  · have : Unbraced t.kind := by
      obtain eq | eq := number
      · exact ⟨by simp [eq], by simp [eq]⟩
      · exact ⟨by simp [eq], by simp [eq]⟩
    infer_instance
  have fits : (Problem.expected [.integer, .hex] t).Fits t := .expected (by simpa using noInteger)
  refine .ite (fun mistaken => ?_) fun _ => ⟨Phrasal.refuse fits⟩
  have : Unbraced t.kind := by
    refine ⟨fun eq => ?_, fun eq => ?_⟩
    · simp [eq, isMistakenInitializer] at mistaken
    · simp [eq, isMistakenInitializer] at mistaken
  exact holds_reportThen fits

instance [Holds J none (synchronize blockResume)] (before : List Accessor) :
    Holds J none (accessor before) := by
  unfold accessor
  refine @holds_current _ _ _ _ fun t => ?_
  cases found : accessorOf? t with
  | none => infer_instance
  | some a =>
    have : Unbraced t.kind := by
      rw [(accessorOf?_eq_some_iff.1 found).1]
      infer_instance
    by_cases repeated : a ∈ before
    -- Taking the token and reporting it is one step: behind it nothing is known of the next token.
    · have told : Holds J (some t) (do discard advance; report t (.duplicateAccessor t.value)) :=
        ⟨Reporting.repeated inferInstance⟩
      have : Holds J (some t) ((do discard advance; report t (.duplicateAccessor t.value)) >>=
          fun _ => do expectOrReport (.punct .semicolon); return before) := inferInstance
      simpa [repeated] using this
    · simp only [repeated, if_false]
      infer_instance

instance : Holds J none importDirective := by unfold importDirective; infer_instance

/-- Neither a comma nor the end of the list comes next where one of these is missed. -/
instance [Holds J none (synchronize enumResume)] : Holds J none memberSeparator := by
  refine holds_acceptThen (takes_unbraced inferInstance) (inferInstance : Holds J none (pure ()))
    fun t noComma => ?_
  refine @holds_currentAgain _ _ _ _ _ (.ite (fun _ => inferInstance) fun inside => ?_)
  have other : t.kind ∉ [.punct .comma, .punct .rbrace] := by simp [noComma, (not_or.1 inside).1]
  have := holds_report (J := J) (.expected other)
  infer_instance

section Types

variable [Holds J none typeRef]

instance : Holds J none structField := by unfold structField; infer_instance

instance (start : Token) (attributes : List Attribute) :
    Holds J none (delegateDecl start attributes) := by
  unfold delegateDecl; infer_instance

instance [Holds J none accessors] : Holds J none interfaceMember := by
  unfold interfaceMember; infer_instance

end Types

end Reporting

/-! ## Lists and blocks -/

section Resuming

variable [Resuming J]

instance : Holds J none advance := ⟨Resuming.consume⟩

instance (kind : TokenKind) : Holds J none (expect kind) := holds_expect fun _ _ => inferInstance

instance (kind : TokenKind) : Holds J none (accept kind) := holds_accept fun _ _ => inferInstance

instance (kind : TokenKind) : Holds J none (expectOrReport kind) :=
  holds_expectOrReport fun _ _ => inferInstance

instance (resume : List TokenKind) : Holds J none (synchronize resume) :=
  ⟨Resuming.synchronize resume⟩

instance (resume : List TokenKind) (eager : Bool) (item : Parser α) [hi : Holds J none item] :
    Holds J none (recovering resume eager item) := ⟨Resuming.recovering hi.holds⟩

instance (members : List EnumMember) : Holds J none (enumMemberRound members) := by
  unfold enumMemberRound; infer_instance

instance : Holds J none enumMembers := by unfold enumMembers; infer_instance

instance (start : Token) (attributes : List Attribute) : Holds J none (enumDecl start attributes) := by
  unfold enumDecl; infer_instance

instance : Holds J none accessors := by unfold accessors; infer_instance

section Types

variable [Holds J none typeRef]

instance : Holds J none structFields := by unfold structFields; infer_instance

instance (start : Token) (attributes : List Attribute) :
    Holds J none (structDecl start attributes) := by
  unfold structDecl; infer_instance

instance : Holds J none interfaceMembers := by unfold interfaceMembers; infer_instance

instance (start : Token) (attributes : List Attribute) :
    Holds J none (interfaceDecl start attributes) := by
  unfold interfaceDecl; infer_instance

instance (inner : Parser Declaration) [Holds J none inner] (ds : List Declaration) :
    Holds J none (declarationRound inner ds) := by
  unfold declarationRound
  refine @holds_bind _ _ _ _ _ _ _ _ fun d => ?_
  cases d <;> infer_instance

instance (inner : Parser Declaration) [Holds J none inner] : Holds J none (declarations inner) := by
  unfold declarations; infer_instance

instance (inner : Parser Declaration) [Holds J none inner] (start : Token)
    (attributes : List Attribute) : Holds J none (namespacePhrase inner start attributes) := by
  unfold namespacePhrase; infer_instance

/-- Every keyword that is expected has a branch of its own. -/
instance (inner : Parser Declaration) [Holds J none inner] (start : Token)
    (attributes : List Attribute) : Holds J none (declarationBody inner start attributes) := by
  unfold declarationBody
  refine @holds_current _ _ _ _ fun t => ?_
  split
  case h_6 => exact holds_unexpected (by simp_all [declarationKeywords])
  all_goals infer_instance

instance (inner : Parser Declaration) [Holds J none inner] : Holds J none (declarationPhrase inner) := by
  unfold declarationPhrase; infer_instance

instance [Lenient J] : Holds J none declaration := holds_nested _ _ fun _ _ => inferInstance

end Types

/-! ## Files -/

instance [Holds J none declaration] (start : Token) (attributes : List Attribute) :
    Holds J none (namespaceDecl start attributes) := by
  unfold namespaceDecl; infer_instance

instance [Lenient J] : Holds J none topLevel := by unfold topLevel; infer_instance

instance [Holds J none topLevel] (tree : IdlFile) : Holds J none (topLevelRound tree) := by
  unfold topLevelRound; infer_instance

instance [Holds J none topLevel] : Holds J none file := by unfold file; infer_instance

end Resuming

end Parser

end IdlFront
