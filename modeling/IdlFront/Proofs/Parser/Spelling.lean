import IdlFront.Proofs.Grammar.Soundness
import IdlFront.Proofs.Parser.Termination
import IdlFront.Proofs.Tree.Spelling

/-! # Names and literals come from the source

Whatever has been skipped or reported, names and literals are put together from tokens of the source
that stand next to each other, so they are what the source says.

* `ParserState.Reads` — a state whose tokens to come are the last ones of a source.
* `Consumed` — the tokens between two states.
* `segments_ok` — the tokens that a dotted name is made of.
* `Draws` — a parser all of whose values over a source have a property.
* `parse_spelled` — the tree of any source text is spelled in it.
-/

namespace IdlFront

open Lexical Grammar

/-! ## Tokens of a source -/

namespace Grammar

variable {ts us rest : List Token} {names : List String} {source : String}

theorem IsQualified.areNames (h : IsQualified ts names) (lexed : ∀ t ∈ ts, t.LexedIn source) :
    names ≠ [] ∧ ∀ n ∈ names, IsPlainName n := by
  induction h with
  | one first =>
    cases first with
    | mk identifier => simpa using (lexed _ (by simp)).isName identifier
  | cons first _ _ ih =>
    cases first with
    | mk identifier =>
      refine ⟨List.cons_ne_nil _ _, List.forall_mem_cons.2 ⟨(lexed _ (by simp)).isName identifier, ?_⟩⟩
      exact (ih fun t mem => lexed t (by simp [mem])).2

/-- A dotted name is put together from the values of its tokens. -/
theorem IsQualified.values (h : IsQualified ts names) (lexed : ∀ t ∈ ts, t.LexedIn source) :
    (".".intercalate names).toList = ts.flatMap fun t => t.value.toList := by
  induction h with
  | one first =>
    cases first
    simp
  | @cons ts us n c names first dot later ih =>
    cases first with
    | mk identifier =>
      have mark : c.value.toList = ['.'] := (lexed c (by simp)).mark dot
      have more : names ≠ [] := by cases later <;> simp
      rw [String.intercalate_cons_of_ne_nil more]
      simp [ih fun t mem => lexed t (by simp [mem]), mark]

/-- A dotted name is read off the source from its first to its last token. -/
theorem IsQualified.readsAs (h : IsQualified ts names)
    (lexed : ∀ t ∈ ts, t.LexedIn source ∧ t.kind ≠ .eof)
    (eq : (tokenize source).tokens = us ++ (ts ++ rest)) :
    ReadsAs source (spanOver ts).start (spanOver ts).stop (".".intercalate names) := by
  have values := h.values fun t mem => (lexed t mem).1
  obtain ⟨t, ts, rfl⟩ := List.exists_cons_of_ne_nil h.ne_nil
  rw [← String.ofList_toList (s := ".".intercalate names), values]
  exact tokens_readsAs (fun t mem => (lexed t mem).2) eq

end Grammar

theorem Token.LexedIn.literal {source : String} {t : Token} {l : Literal} (h : t.LexedIn source)
    (noEof : t.kind ≠ .eof) (literal : t.literal? = some l) : l.SpelledIn source := by
  obtain ⟨kind, isLiteral, rfl⟩ := Option.map_eq_some_iff.1 literal
  have value : t.value = textBetween source t.offset t.stop := (h.exactIn noEof).value
  rw [← isLiteralKind_iff] at isLiteral
  have noName : kind ≠ .name := by
    generalize t.kind = k at isLiteral
    cases isLiteral <;> exact LiteralKind.noConfusion
  unfold Literal.SpelledIn
  split
  · next name => exact absurd name noName
  · exact value

namespace ParserState

variable {source : String} {s t u : ParserState} {ts us : List Token}

/-! ## States over a source -/

/-- The tokens to come are the last ones of the source. -/
def Reads (source : String) (s : ParserState) : Prop :=
  s.tokens ++ [s.ending] <:+ (tokenize source).tokens

theorem reads_initial (source : String) : (initial (.ofSource source)).Reads source := by
  refine ⟨[], ?_⟩
  rw [List.nil_append, tokens_ofSource]

namespace Reads

theorem reaches (h : s.Reads source) (reaches : s.Reaches t) : t.Reads source := by
  obtain ⟨us, eq⟩ := reaches.tokens
  have less : t.tokens ++ [t.ending] <:+ s.tokens ++ [s.ending] :=
    ⟨us, by rw [← eq, reaches.ending, List.append_assoc]⟩
  exact less.trans h

theorem lexed (h : s.Reads source) : s.ending.kind = .eof ∧
    ∀ t ∈ s.tokens, t ∈ (tokenize source).tokens ∧ t.LexedIn source ∧ t.kind ≠ .eof := by
  obtain ⟨us, eq⟩ := h
  obtain ⟨ts, tokens, lexed⟩ := tokens_lexed source
  have same := eq.trans tokens
  rw [← List.append_assoc] at same
  obtain ⟨front, ending⟩ := List.append_inj' same rfl
  refine ⟨by rw [(List.cons.inj ending).1]; rfl, fun t mem => ⟨?_, lexed t ?_⟩⟩
  · rw [← eq]
    simp [mem]
  · rw [← front]
    exact List.mem_append_right us mem

theorem tokens_eq_cons (h : s.Reads source) (more : s.current.kind ≠ .eof) :
    s.tokens = s.current :: s.tokens.tail :=
  ParserState.tokens_eq_cons (Parser.remaining_pos h.lexed.1 more)

theorem current (h : s.Reads source) (more : s.current.kind ≠ .eof) :
    s.current ∈ (tokenize source).tokens ∧ s.current.LexedIn source :=
  have mem : s.current ∈ s.tokens := h.tokens_eq_cons more ▸ List.mem_cons_self
  ⟨(h.lexed.2 _ mem).1, (h.lexed.2 _ mem).2.1⟩

theorem literal (h : s.Reads source) {l : Literal} (isLiteral : s.current.literal? = some l) :
    l.SpelledIn source := by
  have inside : s.current.kind ≠ .eof := by
    intro eof
    rw [Token.literal?, eof] at isLiteral
    cases isLiteral
  exact (h.current inside).2.literal inside isLiteral

end Reads

/-- From one state to the other the tokens `ts` are consumed. -/
structure Consumed (s : ParserState) (ts : List Token) (t : ParserState) : Prop where
  tokens : s.tokens = ts ++ t.tokens
  prevStop : t.prevStop = stopAfter s.prevStop ts

namespace Consumed

theorem looked (s : ParserState) : Consumed s [] s.looked := ⟨(tokens_looked s).symm, rfl⟩

theorem advanced (tokens : s.tokens = s.current :: s.tokens.tail) :
    Consumed s [s.current] s.advanced where
  tokens := by
    rw [tokens_advanced]
    exact tokens
  prevStop := by
    rw [prevStop_advanced, tokens]
    rfl

theorem trans (h : Consumed s ts t) (h' : Consumed t us u) : Consumed s (ts ++ us) u where
  tokens := by rw [h.tokens, h'.tokens, List.append_assoc]
  prevStop := by rw [h'.prevStop, h.prevStop, stopAfter_append]

/-- Where something is consumed, the next token is the first that is. -/
theorem head (h : Consumed s ts t) (nonempty : ts ≠ []) : ts.head? = some s.current := by
  obtain ⟨first, ts, rfl⟩ := List.exists_cons_of_ne_nil nonempty
  rw [s.current_eq, h.tokens]
  rfl

theorem span (h : Consumed s ts t) (nonempty : ts ≠ []) :
    s.current.spanUntil t.prevStop = spanOver ts := by
  rw [h.prevStop]
  exact spanUntil_stopAfter (h.head nonempty) _

end Consumed

theorem Reads.lexed_of_consumed (reads : s.Reads source) (h : Consumed s ts t) :
    ∀ t ∈ ts, t ∈ (tokenize source).tokens ∧ t.LexedIn source ∧ t.kind ≠ .eof := fun t mem =>
  reads.lexed.2 t (h.tokens ▸ List.mem_append_left _ mem)

end ParserState

namespace Parser

open ParserState

variable {α β : Type} {source : String} {s t : ParserState} {found : Token} {kind : TokenKind}

/-! ## What names are made of -/

theorem consumed_current (reads : s.Reads source) (inside : s.current.kind ≠ .eof) :
    Consumed s [s.current] s.looked.advanced := by
  have tokens : s.looked.tokens = s.looked.current :: s.looked.tokens.tail := by
    rw [tokens_looked, s.current_looked]
    exact reads.tokens_eq_cons inside
  have taken := (Consumed.looked s).trans (.advanced tokens)
  rwa [s.current_looked] at taken

theorem expect_ok (reads : s.Reads source) (inside : kind ≠ .eof)
    (run : expect kind s = .ok found t) : found.kind = kind ∧ Consumed s [found] t := by
  obtain ⟨next, u, look, run⟩ := bind_ok run
  cases look
  split at run
  · next eq =>
    cases run
    rw [s.current_looked]
    exact ⟨eq, consumed_current reads (eq ▸ inside)⟩
  · cases run

/-- One more name behind others, with the dot in front of it. -/
theorem nextName_ok {start : ParserState} {names names' ts : List Token} (reads : s.Reads source)
    (dot : s.current.kind = .punct .dot) (before : Consumed start ts s)
    (isName : IsQualified ts (names.map Token.value))
    (run : nextItem (expect .identifier) names s.looked = .ok names' t) :
    ∃ us, Consumed start us t ∧ IsQualified us (names'.map Token.value) := by
  obtain ⟨_, u, taken, run⟩ := bind_ok run
  cases taken
  obtain ⟨next, v, run, rest⟩ := bind_ok run
  cases rest
  have behind : s.looked.advanced.Reads source :=
    (reads.reaches (.single (.look s))).reaches (.single (.advance _))
  obtain ⟨identifier, consumed⟩ := expect_ok behind (by decide) run
  have separator := consumed_current reads (by rw [dot]; decide)
  refine ⟨ts ++ s.current :: [next], before.trans (separator.trans consumed), ?_⟩
  rw [List.map_append, List.map_singleton]
  exact isName.snoc dot (.mk identifier)

/-- The tokens that have been consumed for the segments of a name make up the name. -/
theorem segments_ok {names : List String} (reads : s.Reads source) (run : segments s = .ok names t) :
    ∃ ts, Consumed s ts t ∧ IsQualified ts names := by
  have uniform : ∀ names, Uniform (nextItem (expect .identifier) names) := by
    intro names
    unfold nextItem
    infer_instance
  obtain ⟨found, u, run, rest⟩ := bind_ok run
  cases rest
  obtain ⟨first, v, run, loop⟩ := bind_ok run
  obtain ⟨identifier, consumed⟩ := expect_ok reads (by decide) run
  have all : t.Reads source ∧ ∃ ts, Consumed s ts t ∧ IsQualified ts (found.map Token.value) := by
    refine iterate_ok (I := fun names u => u.Reads source ∧ ∃ ts, Consumed s ts u ∧
      IsQualified ts (names.map Token.value)) ?_ ?_ ?_ loop
    · rintro names u ⟨reads, ts, before, isName⟩
      refine ⟨reads.reaches (.single (.look u)), ts, ?_, isName⟩
      simpa using before.trans (.looked u)
    · rintro names names' u v dot ⟨reads, ts, before, isName⟩ round
      have looked : u.looked.Reads source := reads.reaches (.single (.look u))
      exact ⟨looked.reaches (reaches_ok round), nextName_ok reads (by simpa using dot) before isName round⟩
    · exact ⟨reads.reaches (reaches_ok run), [first], consumed, .one (.mk identifier)⟩
  exact all.2

/-! ## Parsers over a source -/

/-- Every value that the parser gives over the source has the property. -/
def Draws (source : String) (P : α → Prop) (p : Parser α) : Prop :=
  ∀ ⦃s t : ParserState⦄ ⦃a : α⦄, s.Reads source → p s = .ok a t → P a

section Draws

variable {P : α → Prop} {Q : β → Prop} {p : Parser α}

theorem Draws.bind [Uniform p] {f : α → Parser β} (first : Draws source P p)
    (next : ∀ a, P a → Draws source Q (f a)) : Draws source Q (p >>= f) := by
  intro s t b reads run
  obtain ⟨a, u, run, run'⟩ := bind_ok run
  exact next a (first reads run) (reads.reaches (reaches_ok run)) run'

/-- A step that the property does not depend on. -/
theorem Draws.behind [Uniform p] {f : α → Parser β} (next : ∀ a, Draws source Q (f a)) :
    Draws source Q (p >>= f) := by
  intro s t b reads run
  obtain ⟨a, u, run, run'⟩ := bind_ok run
  exact next a (reads.reaches (reaches_ok run)) run'

theorem Gives.draws (h : Gives P p) : Draws source P p := fun _ _ _ _ run => h run

theorem draws_pure {a : α} (good : P a) : Draws source P (pure a : Parser α) := (Gives.pure good).draws

theorem Draws.map {f : α → β} (h : Draws source (fun a => Q (f a)) p) : Draws source Q (f <$> p) := by
  intro s t b reads run
  obtain ⟨a, first, rfl⟩ := map_ok run
  exact h reads first

theorem Draws.recovering {resume : List TokenKind} {eager : Bool} (h : Draws source P p) :
    Draws source (fun o : Option α => ∀ a ∈ o, P a) (recovering resume eager p) := by
  intro s t o reads run
  rw [recovering_apply] at run
  cases item : p s with
  | ok a u =>
    rw [item] at run
    cases run
    rintro _ ⟨⟩
    exact h reads item
  | error d u =>
    rw [item] at run
    cases run
    rintro _ ⟨⟩

theorem Draws.iterate {continues : TokenKind → Bool} {round : β → Parser β} [∀ b, Uniform (round b)]
    (h : ∀ b, Q b → Draws source Q (round b)) {b : β} (good : Q b) :
    Draws source Q (Parser.iterate continues round b) := by
  intro s t b' reads run
  have looked : ∀ {s : ParserState}, s.Reads source → s.looked.Reads source := fun reads =>
    reads.reaches (.single (.look _))
  refine (iterate_ok (I := fun b s => s.Reads source ∧ Q b) ?_ ?_ ⟨reads, good⟩ run).2
  · exact fun ⟨reads, good⟩ => ⟨looked reads, good⟩
  · exact fun _ ⟨reads, good⟩ round =>
      ⟨(looked reads).reaches (reaches_ok round), h _ good (looked reads) round⟩

/-- A loop that adds items to a list in every round. -/
theorem Draws.items {continues : TokenKind → Bool} {round : List α → Parser (List α)}
    [∀ as, Uniform (round as)]
    (h : ∀ as, (∀ a ∈ as, P a) → Draws source (fun as => ∀ a ∈ as, P a) (round as)) :
    Draws source (fun as => ∀ a ∈ as, P a) (Parser.iterate continues round []) :=
  .iterate h (by simp)

theorem Draws.separated [Uniform p] {separator : TokenKind} (h : Draws source P p) :
    Draws source (fun as => ∀ a ∈ as, P a) (separated separator p) := by
  refine h.bind fun first good => .iterate (fun items all => ?_) (by simpa using good)
  exact .behind fun _ => h.bind fun next good => draws_pure
    (List.forall_mem_append.2 ⟨all, by simpa using good⟩)

theorem Draws.nested {stuck : Parser α} [Uniform stuck] {phrase : Parser α → Parser α}
    (uniform : ∀ inner, Uniform inner → Uniform (phrase inner)) (hs : Draws source P stuck)
    (hp : ∀ inner, Uniform inner → Draws source P inner → Draws source P (phrase inner)) :
    Draws source P (nested stuck phrase) := by
  -- By induction on the tokens that are left; at every level the inner phrase has fewer.
  intro s t a reads run
  induction hn : s.remaining using Nat.strongRecOn generalizing s t a with
  | ind n ih =>
    subst hn
    rw [nested_apply] at run
    refine hp _ (Uniform.limited_nested stuck phrase uniform s.remaining) ?_ reads run
    intro u v b reads' inner
    unfold limited at inner
    split at inner
    · next less => exact ih _ less reads' inner rfl
    · exact hs reads' inner

theorem draws_unexpected {kinds : List TokenKind} : Draws source P (unexpected kinds) :=
  gives_unexpected.draws

end Draws

/-! ## Names and types -/

theorem draws_identifier : Draws source (fun t => IsPlainName t.value) (expect .identifier) := by
  intro s t found reads run
  obtain ⟨identifier, consumed⟩ := expect_ok reads (by decide) run
  have mem : found ∈ s.tokens := by simp [consumed.tokens]
  exact (reads.lexed.2 found mem).2.1.isName identifier

theorem draws_segments : Draws source (fun names => names ≠ [] ∧ ∀ n ∈ names, IsPlainName n) segments := by
  intro s t names reads run
  obtain ⟨ts, consumed, isName⟩ := segments_ok reads run
  exact isName.areNames fun t mem => (reads.lexed_of_consumed consumed t mem).2.1

theorem draws_dottedName : Draws source IsDottedName dottedName :=
  draws_segments.bind fun names ⟨nonempty, all⟩ => draws_pure ⟨names, nonempty, all, rfl⟩

/-- A name where a literal could stand. -/
theorem nameLiteral_ok {name : String} {u : ParserState} (reads : s.Reads source)
    (run : dottedName s = .ok name u) :
    Literal.SpelledIn source ⟨.name, name, s.current.spanUntil u.prevStop⟩ := by
  obtain ⟨names, v, run', rest⟩ := bind_ok run
  cases rest
  obtain ⟨ts, consumed, isName⟩ := segments_ok reads run'
  have lexed := reads.lexed_of_consumed consumed
  refine ⟨draws_dottedName reads run, ?_⟩
  obtain ⟨us, eq⟩ := reads
  rw [consumed.tokens, List.append_assoc] at eq
  rw [consumed.span isName.ne_nil]
  exact isName.readsAs (fun t mem => (lexed t mem).2) eq.symm

/-- A name starts with an identifier. -/
theorem dottedName_begins {name : String} (reads : s.Reads source) (run : dottedName s = .ok name t) :
    s.current.kind = .identifier := by
  obtain ⟨names, v, run, -⟩ := bind_ok run
  obtain ⟨ts, consumed, isName⟩ := segments_ok reads run
  have begins := isName.begins
  rw [nextKind, consumed.head isName.ne_nil] at begins
  simpa using begins

theorem draws_typeArguments {inner : Parser TypeRef} [Uniform inner]
    (h : Draws source (TypeRef.SpelledIn source) inner) :
    Draws source (fun ts => ∀ t ∈ ts, t.SpelledIn source) (typeArguments inner) := by
  refine .behind fun opens => ?_
  split
  · exact h.separated.bind fun arguments all => .behind fun _ => draws_pure all
  · exact draws_pure (by simp)

theorem gives_spanFrom (start : Token) :
    Gives (fun span : Span => span.start = start.offset) (spanFrom start) := by
  rintro s t span ⟨⟩
  rfl

theorem draws_typePhrase {inner : Parser TypeRef} [Uniform inner]
    (h : Draws source (TypeRef.SpelledIn source) inner) :
    Draws source (TypeRef.SpelledIn source) (typePhrase inner) := by
  intro s t type reads run
  obtain ⟨start, u, look, run⟩ := bind_ok run
  cases look
  obtain ⟨void, v, accepted, run⟩ := bind_ok run
  have looked : s.looked.Reads source := reads.reaches (.single (.look s))
  have further := looked.reaches (reaches_ok accepted)
  rw [accept_apply, s.current_looked] at accepted
  split at accepted
  · next keyword =>
    -- The word for no value is a type of its own.
    cases accepted
    cases run
    have inside : s.looked.current.kind ≠ .eof := by
      rw [s.current_looked, keyword]
      decide
    have consumed := consumed_current looked inside
    have span := consumed.span (List.cons_ne_nil _ _)
    rw [← tokenSpan_eq, s.current_looked] at span
    show TypeRef.SpelledIn source
      ⟨TypeRef.voidName, [], false, s.current.spanUntil s.looked.looked.advanced.prevStop⟩
    rw [span]
    rw [s.current_looked] at inside
    exact .void (reads.current inside).1 keyword
  · -- Every other type begins with its name, and the span with the first part of it.
    cases accepted
    obtain ⟨name, w, named, run⟩ := bind_ok run
    have begins := dottedName_begins further named
    rw [s.looked.current_looked, s.current_looked] at begins
    have isName := draws_dottedName further named
    have rest : Draws source (TypeRef.SpelledIn source) (do
        let arguments ← typeArguments inner
        let isArray ← arrayMark
        return ⟨name, arguments, isArray, ← spanFrom s.current⟩) := by
      refine (draws_typeArguments h).bind fun arguments all => .behind fun isArray => ?_
      refine (gives_spanFrom s.current).draws.bind fun span starts => draws_pure ?_
      have mem := (reads.current (by rw [begins]; decide)).1
      exact .named mem begins starts.symm isName (isName.ne_text .void) all
    exact rest (further.reaches (reaches_ok named)) run

theorem draws_typeRef : Draws source (TypeRef.SpelledIn source) typeRef :=
  .nested (fun _ _ => inferInstance) draws_unexpected fun _ _ h => draws_typePhrase h

theorem draws_parameter : Draws source (Parameter.SpelledIn source) parameter := by
  refine .behind fun start => .behind fun modifier => ?_
  exact draws_typeRef.bind fun type isType => draws_identifier.bind fun name isName =>
    .behind fun span => draws_pure ⟨isName, isType⟩

theorem draws_parameters :
    Draws source (fun ps => ∀ p ∈ ps, p.SpelledIn source) parameters := by
  refine .behind fun closed => ?_
  split
  · exact draws_pure (by simp)
  · exact draws_parameter.separated

/-! ## Attributes -/

theorem draws_attributeArgument : Draws source (Literal.SpelledIn source) attributeArgument := by
  intro s t l reads run
  obtain ⟨start, u, look, run⟩ := bind_ok run
  cases look
  cases isLiteral : s.current.literal? with
  | some literal =>
    simp only [isLiteral] at run
    obtain ⟨_, v, -, rest⟩ := bind_ok run
    cases rest
    exact reads.literal isLiteral
  | none =>
    simp only [isLiteral] at run
    split at run
    · obtain ⟨name, v, named, rest⟩ := bind_ok run
      cases rest
      have looked : s.looked.Reads source := reads.reaches (.single (.look s))
      have spelled := nameLiteral_ok looked named
      rwa [s.current_looked] at spelled
    · cases run

theorem draws_attributeArguments :
    Draws source (fun ls => ∀ l ∈ ls, l.SpelledIn source) attributeArguments := by
  refine .behind fun opens => ?_
  split
  · refine .behind fun closes => ?_
    split
    · exact draws_pure (by simp)
    · exact draws_attributeArgument.separated.bind fun arguments all => .behind fun _ => draws_pure all
  · exact draws_pure (by simp)

theorem draws_attributeUse : Draws source (Attribute.SpelledIn source) attributeUse := by
  refine .behind fun start => draws_dottedName.bind fun name isName => ?_
  exact draws_attributeArguments.bind fun arguments all => .behind fun span =>
    draws_pure ⟨isName, all⟩

theorem draws_attributeLists :
    Draws source (fun as => ∀ a ∈ as, a.SpelledIn source) attributeLists := by
  refine .items fun attributes all => .behind fun _ => ?_
  exact draws_attributeUse.separated.bind fun more all' => .behind fun _ =>
    draws_pure (List.forall_mem_append.2 ⟨all, all'⟩)

/-! ## Declarations -/

theorem draws_initializer : Draws source
    (fun o : Option Literal => ∀ l ∈ o, l.SpelledIn source ∧ l.kind ∈ [.integer, .hex])
    initializer := by
  intro s t o reads run l mem
  have integral : l.kind ∈ [.integer, .hex] := by
    have isIntegral := gives_initializer run l mem
    cases kind : l.kind <;> rw [kind] at isIntegral <;> simp [LiteralKind.isIntegral] at isIntegral ⊢
  refine ⟨?_, integral⟩
  obtain ⟨start, u, look, run⟩ := bind_ok run
  cases look
  split at run
  · obtain ⟨_, v, -, rest⟩ := bind_ok run
    cases rest
    exact reads.literal mem
  · split at run
    · obtain ⟨_, v, -, run⟩ := bind_ok run
      split at run
      all_goals
        obtain ⟨_, w, -, rest⟩ := bind_ok run
        cases rest
        cases mem
    · cases run

theorem draws_enumMember : Draws source (EnumMember.SpelledIn source) enumMember := by
  refine .behind fun start => draws_attributeLists.bind fun attributes all =>
    draws_identifier.bind fun name isName => .behind fun found => ?_
  have member : ∀ o : Option Literal, (∀ l ∈ o, l.SpelledIn source ∧ l.kind ∈ [.integer, .hex]) →
      Draws source (EnumMember.SpelledIn source) (do
        return ⟨name.value, o, attributes, ← spanFrom start⟩) :=
    fun o value => .behind fun _ => draws_pure ⟨isName, value, all⟩
  split
  · exact draws_initializer.bind member
  · exact member none (by simp)

theorem draws_enumDecl (start : Token) {attributes : List Attribute}
    (all : ∀ a ∈ attributes, a.SpelledIn source) :
    Draws source (EnumDecl.SpelledIn source) (enumDecl start attributes) := by
  have members : Draws source (fun ms => ∀ m ∈ ms, m.SpelledIn source) enumMembers :=
    .items fun ms before => draws_enumMember.recovering.bind fun o one => .behind fun _ =>
      draws_pure (forall_mem_append_toList before one)
  refine .behind fun _ => draws_identifier.bind fun name isName => .behind fun _ => ?_
  exact members.bind fun ms spelled => .behind fun _ => .behind fun span =>
    draws_pure ⟨isName, spelled, all⟩

theorem draws_structField : Draws source (StructField.SpelledIn source) structField := by
  refine .behind fun start => draws_typeRef.bind fun type isType => ?_
  exact draws_identifier.bind fun name isName => .behind fun _ => .behind fun span =>
    draws_pure ⟨isName, isType⟩

theorem draws_structDecl (start : Token) {attributes : List Attribute}
    (all : ∀ a ∈ attributes, a.SpelledIn source) :
    Draws source (StructDecl.SpelledIn source) (structDecl start attributes) := by
  have fields : Draws source (fun fs => ∀ f ∈ fs, f.SpelledIn source) structFields :=
    .items fun fs before => draws_structField.recovering.bind fun o one =>
      draws_pure (forall_mem_append_toList before one)
  refine .behind fun _ => draws_identifier.bind fun name isName => .behind fun _ => ?_
  exact fields.bind fun fs spelled => .behind fun _ => .behind fun span =>
    draws_pure ⟨isName, spelled, all⟩

theorem draws_delegateDecl (start : Token) {attributes : List Attribute}
    (all : ∀ a ∈ attributes, a.SpelledIn source) :
    Draws source (DelegateDecl.SpelledIn source) (delegateDecl start attributes) := by
  refine .behind fun _ => draws_typeRef.bind fun type isType =>
    draws_identifier.bind fun name isName => .behind fun _ => ?_
  exact draws_parameters.bind fun ps spelled => .behind fun _ => .behind fun _ =>
    .behind fun span => draws_pure ⟨isName, isType, spelled, all⟩

/-- An accessor that is there is not added again. -/
theorem gives_accessor {before : List Accessor} (distinct : before.Nodup) :
    Gives List.Nodup (accessor before) := by
  refine .behind fun t => ?_
  split
  · exact .behind fun _ => .behind fun _ => .pure distinct
  · refine .behind fun _ => ?_
    split
    · exact .behind fun _ => .behind fun _ => .pure distinct
    · next new =>
      have fresh : ∀ b ∈ before, b ≠ _ := fun b mem => ne_of_mem_of_not_mem mem new
      exact .behind fun _ => .pure (List.nodup_append.2 ⟨distinct, by simp, by simpa using fresh⟩)

theorem gives_accessors : Gives List.Nodup accessors := by
  refine .behind fun _ => .bind (.iterate (fun _ => gives_accessor) List.nodup_nil)
    fun found distinct => .behind fun t => ?_
  split
  · exact .behind fun _ => .behind fun _ => .pure distinct
  · exact .behind fun _ => .pure distinct

theorem draws_interfaceMember : Draws source (InterfaceMember.SpelledIn source) interfaceMember := by
  refine .behind fun start => draws_attributeLists.bind fun attributes all => .behind fun event => ?_
  split
  · refine draws_typeRef.bind fun type isType => draws_identifier.bind fun name isName => ?_
    exact .behind fun _ => .behind fun span => draws_pure ⟨isName, isType, all⟩
  · refine draws_typeRef.bind fun type isType => draws_identifier.bind fun name isName =>
      .behind fun opens => ?_
    split
    · exact draws_parameters.bind fun ps spelled => .behind fun _ => .behind fun _ =>
        .behind fun span => draws_pure ⟨isName, isType, spelled, all⟩
    · refine .behind fun block => ?_
      split
      · exact gives_accessors.draws.bind fun found distinct => .behind fun _ => .behind fun span =>
          draws_pure ⟨isName, isType, distinct, all⟩
      · have both : Accessor.all.Nodup := by decide
        exact .behind fun _ => .behind fun span => draws_pure ⟨isName, isType, both, all⟩

theorem draws_bases : Draws source (fun bs => ∀ b ∈ bs, b.SpelledIn source) bases := by
  refine .behind fun colon => ?_
  split
  · exact draws_typeRef.separated
  · exact draws_pure (by simp)

theorem draws_interfaceDecl (start : Token) {attributes : List Attribute}
    (all : ∀ a ∈ attributes, a.SpelledIn source) :
    Draws source (InterfaceDecl.SpelledIn source) (interfaceDecl start attributes) := by
  have members : Draws source (fun ms => ∀ m ∈ ms, m.SpelledIn source) interfaceMembers :=
    .items fun ms before => draws_interfaceMember.recovering.bind fun o one =>
      draws_pure (forall_mem_append_toList before one)
  refine .behind fun _ => draws_identifier.bind fun name isName =>
    draws_bases.bind fun bs areTypes => .behind fun _ => ?_
  exact members.bind fun ms spelled => .behind fun _ => .behind fun span =>
    draws_pure ⟨isName, areTypes, spelled, all⟩

/-! ## Namespaces and files -/

theorem draws_namespacePhrase {inner : Parser Declaration} [Uniform inner]
    (h : Draws source (Declaration.SpelledIn source) inner) (start : Token)
    {attributes : List Attribute} (all : ∀ a ∈ attributes, a.SpelledIn source) :
    Draws source (Namespace.SpelledIn source) (namespacePhrase inner start attributes) := by
  have body : Draws source (fun ds => ∀ d ∈ ds, d.SpelledIn source) (declarations inner) := by
    refine .items fun ds before => h.recovering.bind fun o one => ?_
    cases o with
    | none => exact draws_pure before
    | some d => exact .behind fun _ => draws_pure (forall_mem_append_toList before one)
  refine .behind fun _ => draws_segments.bind fun name ⟨nonempty, areNames⟩ => .behind fun _ => ?_
  exact body.bind fun ds spelled => .behind fun _ => .behind fun span =>
    draws_pure (.mk nonempty areNames spelled all)

theorem draws_declaration : Draws source (Declaration.SpelledIn source) declaration := by
  refine .nested (fun _ _ => inferInstance) draws_unexpected fun inner _ h => ?_
  refine .behind fun start => draws_attributeLists.bind fun attributes all => .behind fun t => ?_
  split
  · exact .map fun _ _ _ reads run => .namespace_ (draws_namespacePhrase h start all reads run)
  · exact .map fun _ _ _ reads run => .enum (draws_enumDecl start all reads run)
  · exact .map fun _ _ _ reads run => .struct (draws_structDecl start all reads run)
  · exact .map fun _ _ _ reads run => .delegate (draws_delegateDecl start all reads run)
  · exact .map fun _ _ _ reads run => .interface (draws_interfaceDecl start all reads run)
  · exact draws_unexpected

/-- An item at the top level is spelled in the source. An import has no name. -/
def TopLevel.SpelledIn (source : String) : TopLevel → Prop
  | .import_ _ => True
  | .namespace_ ns => ns.SpelledIn source

theorem draws_topLevel : Draws source (TopLevel.SpelledIn source) topLevel := by
  refine .behind fun start => ?_
  split
  · exact .behind fun i => draws_pure trivial
  · refine draws_attributeLists.bind fun attributes all => .behind fun found => ?_
    split
    · exact (draws_namespacePhrase draws_declaration start all).bind fun ns spelled =>
        draws_pure spelled
    · exact draws_unexpected

theorem draws_file : Draws source (IdlFile.SpelledIn source) file := by
  refine .iterate (fun tree spelled => draws_topLevel.recovering.bind fun o one => draws_pure ?_) ?_
  · match o with
    | none => exact spelled
    | some (.import_ i) => exact spelled
    | some (.namespace_ ns) =>
      exact List.forall_mem_append.2 ⟨spelled, List.forall_mem_singleton.2 (one _ rfl)⟩
  · simp [IdlFile.SpelledIn, IdlFile.empty]

end Parser

open IdlFront.Parser IdlFront.ParserState

/-- In the tree of any source text, well-formed or not, every declared name and every segment of a
    namespace is an identifier and no reserved word, the names of attributes and types are such
    identifiers joined by dots, and literals are what the text has at their spans. A type is `void`
    where this keyword stands, and then has no arguments and is no array, and nowhere else. No
    accessor is named twice, and the values of enum members are integers. -/
theorem parse_spelled (source : String) : (parse source).tree.SpelledIn source := by
  obtain ⟨tree, t, run⟩ := Total.succeeds (p := file) (initial (.ofSource source))
  have result : (parse source).tree = tree := by
    simp only [parse, parseStream, run, ParserState.run]
  rw [result]
  exact draws_file (reads_initial source) run

end IdlFront
