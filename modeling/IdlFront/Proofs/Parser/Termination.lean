import IdlFront.Proofs.Artifact.Faithful
import IdlFront.Proofs.Grammar.Recognition
import IdlFront.Proofs.Parser.Blocks

/-! # Parsing comes to an end

The loops of the language are run under a watch on the tokens to come, and so are phrases inside
phrases of their own class. No watch ever steps in.

* `Rounds` — a loop without the watch. A loop that goes on for ever has no result.
* `SameBelow` — parsers that do the same where fewer than so many tokens are left.
* `Proceeds` — every loop and every recursion of the language ends by itself.
* `Gives` — a parser all of whose values have a property.
* `parseTokens_total` — a token list is always parsed, to its end, and gives a tree that is sound.
-/

namespace IdlFront.Parser

open IdlFront.ParserState

variable {α β : Type}

/-! ## Loops -/

/-- The rounds of a loop one after the other, for as long as the next token allows. Nothing else ends
    them but a failure. -/
inductive Rounds (continues : TokenKind → Bool) (round : β → Parser β) :
    β → ParserState → EStateM.Result Diagnostic ParserState β → Prop where
  | ended {b : β} {s : ParserState} :
      continues s.current.kind = false → Rounds continues round b s (.ok b s.looked)
  | failed {b : β} {s t : ParserState} {d : Diagnostic} :
      continues s.current.kind = true → round b s.looked = .error d t →
      Rounds continues round b s (.error d t)
  | round {b b' : β} {s t : ParserState} {r : EStateM.Result Diagnostic ParserState β} :
      continues s.current.kind = true → round b s.looked = .ok b' t →
      Rounds continues round b' t r → Rounds continues round b s r

section Rounds

variable {continues : TokenKind → Bool} (round : β → Parser β) [∀ b, Uniform (round b)]

/-- Where every round consumes something, the watch never steps in. -/
theorem rounds_iterate
    (lowers : ∀ {s t : ParserState} {b b' : β}, s.ending.kind = .eof →
      continues s.current.kind = true → round b s = .ok b' t → t.remaining < s.remaining)
    (b : β) {s : ParserState} (ended : s.ending.kind = .eof) :
    Rounds continues round b s (iterate continues round b s) := by
  revert ended
  apply iterate_induction (motive := fun b s r => s.ending.kind = .eof → Rounds continues round b s r)
  case ended => exact fun b s ends _ => .ended (by simpa using ends)
  case failed => exact fun b s d t more run _ => .failed more run
  case last =>
    intro b s b' t more run stuck ended
    have less := lowers (by rwa [ending_looked]) (by rwa [s.current_looked]) run
    rw [remaining_looked] at less
    exact absurd less stuck
  case step =>
    intro b s b' t more run _ ih ended
    have reaches : s.Reaches t := .head (.look s) (reaches_ok run)
    exact .round more run (ih (by rwa [reaches.ending]))

end Rounds

/-- A round that starts with a token consumes it. -/
theorem advanceThen_lowers {f : Token → Parser β} [∀ t, Uniform (f t)] {s t : ParserState} {b : β}
    (ended : s.ending.kind = .eof) (more : s.current.kind ≠ .eof)
    (run : (advance >>= f) s = .ok b t) : t.remaining < s.remaining := by
  obtain ⟨_, u, taken, run⟩ := bind_ok run
  cases taken
  have pos := remaining_pos ended more
  have less := remaining_advanced s
  have := (reaches_ok run).remaining_le
  omega

/-! ## The rounds of the language -/

/-- One more item of a list, with the separator in front of it. -/
def nextItem (item : Parser α) (items : List α) : Parser (List α) := do
  let _ ← advance
  let next ← item
  return items ++ [next]

/-- One more list of attributes in brackets. -/
def attributeListRound (attributes : List Attribute) : Parser (List Attribute) := do
  let _ ← advance
  let more ← separated (.punct .comma) attributeUse
  discard (expect (.punct .rbracket))
  return attributes ++ more

/-- One more field of a struct. -/
def structFieldRound (fields : List StructField) : Parser (List StructField) := do
  let field ← recovering blockResume true structField
  return fields ++ field.toList

/-- One more member of an interface. -/
def interfaceMemberRound (members : List InterfaceMember) : Parser (List InterfaceMember) := do
  let member ← recovering interfaceResume true interfaceMember
  return members ++ member.toList

theorem rounds_separated {separator : TokenKind} (inside : separator ≠ .eof) (item : Parser α)
    [Uniform item] (items : List α) {s : ParserState} (ended : s.ending.kind = .eof) :
    Rounds (· == separator) (nextItem item) items s
      (iterate (· == separator) (nextItem item) items s) := by
  have uniform : ∀ items, Uniform (nextItem item items) := by
    intro items
    unfold nextItem
    infer_instance
  refine rounds_iterate (nextItem item) (fun ended more run => ?_) items ended
  exact advanceThen_lowers ended (by rw [eq_of_beq more]; exact inside) run

theorem rounds_attributeLists {s : ParserState} (ended : s.ending.kind = .eof) :
    Rounds (· == .punct .lbracket) attributeListRound [] s (attributeLists s) := by
  have uniform : ∀ attributes, Uniform (attributeListRound attributes) := by
    intro attributes
    unfold attributeListRound
    infer_instance
  refine rounds_iterate attributeListRound (fun ended more run => ?_) [] ended
  exact advanceThen_lowers ended (by rw [eq_of_beq more]; decide) run

theorem rounds_structFields {s : ParserState} (ended : s.ending.kind = .eof) :
    Rounds untilClosed structFieldRound [] s (structFields s) := by
  have uniform : ∀ fields, Uniform (structFieldRound fields) := by
    intro fields
    unfold structFieldRound
    infer_instance
  exact rounds_iterate structFieldRound
    (eager_lowers (f := fun fields field => pure (fields ++ field.toList))) [] ended

theorem rounds_interfaceMembers {s : ParserState} (ended : s.ending.kind = .eof) :
    Rounds untilClosed interfaceMemberRound [] s (interfaceMembers s) := by
  have uniform : ∀ members, Uniform (interfaceMemberRound members) := by
    intro members
    unfold interfaceMemberRound
    infer_instance
  exact rounds_iterate interfaceMemberRound
    (eager_lowers (f := fun members member => pure (members ++ member.toList))) [] ended

/-! ## Recursion -/

/-- Parsers that do the same where fewer than `n` tokens are left. -/
def SameBelow (n : Nat) (p q : Parser α) : Prop :=
  ∀ s : ParserState, s.ending.kind = .eof → s.remaining < n → p s = q s

section SameBelow

variable {n : Nat} {p q : Parser α}

theorem SameBelow.refl (n : Nat) (p : Parser α) : SameBelow n p p := fun _ _ _ => rfl

theorem SameBelow.bind {f g : α → Parser β} [Uniform p] (first : SameBelow n p q)
    (next : ∀ a, SameBelow n (f a) (g a)) : SameBelow n (p >>= f) (q >>= g) := by
  intro s ended low
  rw [bind_apply, bind_apply, ← first s ended low]
  cases run : p s with
  | error d t => rfl
  | ok a t =>
    have reaches := reaches_ok run
    exact next a t (by rwa [reaches.ending]) (Nat.lt_of_le_of_lt reaches.remaining_le low)

/-- Behind a step that consumes something fewer tokens are left. -/
theorem SameBelow.behind {f g : α → Parser β} [Uniform p] [Consumes p]
    (next : ∀ a, SameBelow n (f a) (g a)) : SameBelow (n + 1) (p >>= f) (p >>= g) := by
  intro s ended low
  rw [bind_apply, bind_apply]
  cases run : p s with
  | error d t => rfl
  | ok a t =>
    have less := Consumes.lowers ended run
    exact next a t (by rwa [(reaches_ok run).ending]) (by omega)

theorem SameBelow.map {f : α → β} (h : SameBelow n p q) : SameBelow n (f <$> p) (f <$> q) := by
  intro s ended low
  rw [map_apply, map_apply, h s ended low]

theorem SameBelow.ite {c : Prop} [Decidable c] {p' q' : Parser α} (yes : SameBelow n p q)
    (no : SameBelow n p' q') : SameBelow n (if c then p else p') (if c then q else q') := by
  split
  · exact yes
  · exact no

theorem SameBelow.recovering {resume : List TokenKind} {eager : Bool} (h : SameBelow n p q) :
    SameBelow n (recovering resume eager p) (recovering resume eager q) := by
  intro s ended low
  rw [recovering_apply, recovering_apply, h s ended low]

theorem SameBelow.iterate {continues : TokenKind → Bool} {round round' : β → Parser β}
    [∀ b, Uniform (round b)] (h : ∀ b, SameBelow n (round b) (round' b)) (b : β) :
    SameBelow n (iterate continues round b) (iterate continues round' b) := by
  intro s
  induction hn : s.remaining using Nat.strongRecOn generalizing s b with
  | ind m ih =>
    intro ended low
    have same := h b s.looked (by rwa [ending_looked]) (by rwa [remaining_looked, hn])
    by_cases more : continues s.current.kind = true
    · cases run : round b s.looked with
      | error d t => rw [iterate_error more run, iterate_error more (same ▸ run)]
      | ok b' t =>
        have reaches : s.Reaches t := .head (.look s) (reaches_ok run)
        by_cases less : t.remaining < s.remaining
        · rw [iterate_step more run less, iterate_step more (same ▸ run) less]
          exact ih t.remaining (hn ▸ less) b' t rfl (by rwa [reaches.ending]) (by omega)
        · rw [iterate_last more run less, iterate_last more (same ▸ run) less]
    · rw [iterate_end more, iterate_end more]

theorem SameBelow.separated {separator : TokenKind} [Uniform p] (h : SameBelow n p q) :
    SameBelow n (separated separator p) (separated separator q) :=
  h.bind fun _ => .iterate (fun items => (SameBelow.refl n advance).bind fun _ => h.bind fun next =>
    .refl n (Pure.pure (items ++ [next]))) _

end SameBelow

section Nested

variable (phrase : Parser α → Parser α) (uniform : ∀ inner, Uniform inner → Uniform (phrase inner))
  (descends : ∀ {n : Nat} {p q : Parser α}, Uniform p → SameBelow n p q →
    SameBelow (n + 1) (phrase p) (phrase q))

include uniform descends

/-- A phrase that consumes something before it nests another one of its class never gets stuck. -/
theorem nested_never_stuck (stuck stuck' : Parser α) [Uniform stuck] [Uniform stuck'] (n : Nat) :
    SameBelow n (nested stuck phrase) (nested stuck' phrase) := by
  induction n with
  | zero => exact fun _ _ low => absurd low (Nat.not_lt_zero _)
  | succ n ih =>
    intro s ended low
    rw [nested_apply, nested_apply]
    refine descends (Uniform.limited_nested stuck phrase uniform s.remaining) ?_ s ended
      (Nat.lt_succ_self _)
    intro t ended less
    rw [limited, limited, if_pos less, if_pos less]
    exact ih t ended (by omega)

end Nested

theorem typePhrase_descends {n : Nat} {inner inner' : Parser TypeRef} (_ : Uniform inner)
    (h : SameBelow n inner inner') : SameBelow (n + 1) (typePhrase inner) (typePhrase inner') := by
  refine (SameBelow.refl _ current).bind fun start => (SameBelow.refl _ _).bind fun void =>
    .ite (.refl _ _) ?_
  refine .behind fun name => SameBelow.bind ?_ fun arguments => .refl _ _
  exact (SameBelow.refl _ _).bind fun opens => .ite (h.separated.bind fun arguments => .refl _ _)
    (.refl _ _)

theorem declarationRound_same {n : Nat} {inner inner' : Parser Declaration} [Uniform inner]
    (h : SameBelow n inner inner') (ds : List Declaration) :
    SameBelow n (declarationRound inner ds) (declarationRound inner' ds) :=
  h.recovering.bind fun _ => .refl _ _

theorem declarationPhrase_descends {n : Nat} {inner inner' : Parser Declaration} (_ : Uniform inner)
    (h : SameBelow n inner inner') :
    SameBelow (n + 1) (declarationPhrase inner) (declarationPhrase inner') := by
  refine (SameBelow.refl _ current).bind fun start => (SameBelow.refl _ _).bind fun attributes =>
    (SameBelow.refl _ current).bind fun t => ?_
  -- Only namespaces hold declarations, behind the word that they start with.
  have deeper : SameBelow (n + 1) (namespacePhrase inner start attributes)
      (namespacePhrase inner' start attributes) := by
    have word : Consumes (discard (expect (.keyword .namespace_))) := consumes_discardExpect (by decide)
    refine SameBelow.behind fun _ => (SameBelow.refl _ _).bind fun name => (SameBelow.refl _ _).bind
      fun _ => SameBelow.bind ?_ fun ds => .refl _ _
    exact .iterate (declarationRound_same h) []
  split
  · exact deeper.map
  all_goals exact .refl _ _

/-- The declarations in a namespace are read like any other, since they start behind it. -/
theorem declaration_unfold {s : ParserState} (ended : s.ending.kind = .eof) :
    declaration s = declarationPhrase declaration s := by
  rw [declaration_apply]
  refine declarationPhrase_descends inferInstance ?_ s ended (Nat.lt_succ_self s.remaining)
  intro t _ less
  rw [limited, if_pos less]

/-! ## No watch steps in -/

/-- Every loop of the language ends by its own rounds, and in every recursion the inner phrase starts
    behind a token of the outer one, so that nothing depends on what would happen elsewhere. -/
structure Proceeds : Prop where
  file : ∀ s : ParserState, s.ending.kind = .eof →
    Rounds (· != .eof) topLevelRound .empty s (file s)
  declarations : ∀ s : ParserState, s.ending.kind = .eof →
    Rounds untilClosed (declarationRound declaration) [] s (declarations declaration s)
  enumMembers : ∀ s : ParserState, s.ending.kind = .eof →
    Rounds untilClosed enumMemberRound [] s (enumMembers s)
  structFields : ∀ s : ParserState, s.ending.kind = .eof →
    Rounds untilClosed structFieldRound [] s (structFields s)
  interfaceMembers : ∀ s : ParserState, s.ending.kind = .eof →
    Rounds untilClosed interfaceMemberRound [] s (interfaceMembers s)
  accessors : ∀ s : ParserState, s.ending.kind = .eof →
    Rounds untilClosed accessor [] s (iterate untilClosed accessor [] s)
  attributeLists : ∀ s : ParserState, s.ending.kind = .eof →
    Rounds (· == .punct .lbracket) attributeListRound [] s (attributeLists s)
  separated : ∀ {α : Type} (separator : TokenKind) (item : Parser α) [Uniform item] (items : List α)
    (s : ParserState), separator ≠ .eof → s.ending.kind = .eof →
    Rounds (· == separator) (nextItem item) items s
      (iterate (· == separator) (nextItem item) items s)
  typeRef : ∀ (stuck : Parser TypeRef) [Uniform stuck] (s : ParserState), s.ending.kind = .eof →
    typeRef s = nested stuck typePhrase s
  declaration : ∀ (stuck : Parser Declaration) [Uniform stuck] (s : ParserState),
    s.ending.kind = .eof → declaration s = nested stuck declarationPhrase s

theorem topLevelRound_lowers {tree tree' : IdlFile} {s t : ParserState} (ended : s.ending.kind = .eof)
    (more : (s.current.kind != .eof) = true) (run : topLevelRound tree s = .ok tree' t) :
    t.remaining < s.remaining := by
  obtain ⟨o, u, item, rest⟩ := bind_ok run
  cases rest
  exact recovering_lowers ended (remaining_pos ended (by simpa using more)) item

theorem declarationRound_lowers {ds ds' : List Declaration} {s t : ParserState}
    (ended : s.ending.kind = .eof) (goesOn : untilClosed s.current.kind = true)
    (run : declarationRound declaration ds s = .ok ds' t) : t.remaining < s.remaining := by
  obtain ⟨o, u, item, rest⟩ := bind_ok run
  have less := recovering_lowers ended (remaining_pos_of_goesOn ended goesOn) item
  cases o with
  | none =>
    cases rest
    exact less
  | some d => exact Nat.lt_of_le_of_lt (reaches_ok rest).remaining_le less

theorem proceeds : Proceeds where
  file _ := rounds_iterate topLevelRound topLevelRound_lowers _
  declarations _ := rounds_iterate (declarationRound declaration) declarationRound_lowers _
  enumMembers _ := rounds_iterate enumMemberRound enumMemberRound_lowers _
  structFields _ := rounds_structFields
  interfaceMembers _ := rounds_interfaceMembers
  accessors _ := rounds_iterate accessor accessor_lowers _
  attributeLists _ := rounds_attributeLists
  separated _ item _ items _ inside := rounds_separated inside item items
  typeRef stuck _ s ended := nested_never_stuck typePhrase (fun _ _ => inferInstance)
    typePhrase_descends _ stuck (s.remaining + 1) s ended (Nat.lt_succ_self _)
  declaration stuck _ s ended := nested_never_stuck declarationPhrase (fun _ _ => inferInstance)
    declarationPhrase_descends _ stuck (s.remaining + 1) s ended (Nat.lt_succ_self _)

/-! ## What parsers give -/

/-- A parser all of whose values have the property. -/
def Gives (P : α → Prop) (p : Parser α) : Prop :=
  ∀ ⦃s t : ParserState⦄ ⦃a : α⦄, p s = .ok a t → P a

section Gives

variable {P : α → Prop} {Q : β → Prop} {p : Parser α}

theorem Gives.bind {f : α → Parser β} (first : Gives P p) (next : ∀ a, P a → Gives Q (f a)) :
    Gives Q (p >>= f) := by
  intro s t b run
  obtain ⟨a, u, run, run'⟩ := bind_ok run
  exact next a (first run) run'

/-- A step that the property does not depend on. -/
theorem Gives.behind {f : α → Parser β} (next : ∀ a, Gives Q (f a)) : Gives Q (p >>= f) := by
  intro s t b run
  obtain ⟨a, u, -, run⟩ := bind_ok run
  exact next a run

theorem Gives.pure {a : α} (good : P a) : Gives P (Pure.pure a : Parser α) := by
  intro s t b run
  cases run
  exact good

theorem Gives.map {f : α → β} (h : Gives (fun a => Q (f a)) p) : Gives Q (f <$> p) := by
  intro s t b run
  obtain ⟨a, first, rfl⟩ := map_ok run
  exact h first

theorem Gives.recovering {resume : List TokenKind} {eager : Bool} (h : Gives P p) :
    Gives (fun o : Option α => ∀ a ∈ o, P a) (recovering resume eager p) := by
  intro s t o run
  rw [recovering_apply] at run
  cases item : p s with
  | ok a u =>
    rw [item] at run
    cases run
    rintro _ ⟨⟩
    exact h item
  | error d u =>
    rw [item] at run
    cases run
    rintro _ ⟨⟩

theorem Gives.iterate {continues : TokenKind → Bool} {round : β → Parser β}
    (h : ∀ b, Q b → Gives Q (round b)) {b : β} (good : Q b) :
    Gives Q (Parser.iterate continues round b) := fun _ _ _ run =>
  iterate_ok (I := fun b _ => Q b) (fun good => good) (fun _ good run => h _ good run) good run

/-- A loop that adds an item to a list in every round. -/
theorem Gives.items {continues : TokenKind → Bool} {round : List α → Parser (List α)}
    (h : ∀ as, (∀ a ∈ as, P a) → Gives (fun as => ∀ a ∈ as, P a) (round as)) :
    Gives (fun as => ∀ a ∈ as, P a) (Parser.iterate continues round []) :=
  .iterate h (by simp)

theorem forall_mem_append_toList {as : List α} {o : Option α} (all : ∀ a ∈ as, P a)
    (one : ∀ a ∈ o, P a) : ∀ a ∈ as ++ o.toList, P a := by
  intro a mem
  rw [List.mem_append, Option.mem_toList] at mem
  exact mem.elim (all a) (one a)

theorem Gives.nested {stuck : Parser α} {phrase : Parser α → Parser α} (hs : Gives P stuck)
    (hp : ∀ inner, Gives P inner → Gives P (phrase inner)) : Gives P (nested stuck phrase) := by
  -- By induction on the tokens that are left; at every level the inner phrase has fewer.
  intro s t a run
  induction hn : s.remaining using Nat.strongRecOn generalizing s t a with
  | ind n ih =>
    subst hn
    rw [nested_apply] at run
    refine hp _ (fun {u v b} inner => ?_) run
    unfold limited at inner
    split at inner
    · next less => exact ih _ less inner rfl
    · exact hs inner

theorem gives_unexpected {kinds : List TokenKind} : Gives P (unexpected kinds) := by
  refine .behind fun t => ?_
  intro s t b run
  cases run

end Gives

/-! ## Values of enum members -/

theorem gives_initializer :
    Gives (fun o : Option Literal => ∀ l ∈ o, l.kind.isIntegral = true) initializer := by
  refine .behind fun t => ?_
  split
  · next number =>
    refine .behind fun _ => .pure fun l mem => ?_
    obtain ⟨kind, eq, rfl⟩ := Option.map_eq_some_iff.1 mem
    obtain integer | hex := number
    · rw [integer] at eq
      cases eq
      rfl
    · rw [hex] at eq
      cases eq
      rfl
  · split
    · refine .behind fun _ => ?_
      split
      · exact .behind fun _ => .pure (by simp)
      · exact .behind fun _ => .pure (by simp)
    · intro s t b run
      cases run

theorem gives_enumMember : Gives EnumMember.Integral enumMember := by
  refine .behind fun start => .behind fun attributes => .behind fun name => .behind fun found => ?_
  split
  · refine gives_initializer.bind fun o integral => .behind fun span => ?_
    exact .pure integral
  · refine .bind (P := (· = none)) (.pure rfl) fun o absent => .behind fun span => .pure ?_
    subst absent
    exact fun _ mem => nomatch mem

theorem gives_enumDecl (start : Token) (attributes : List Attribute) :
    Gives EnumDecl.Integral (enumDecl start attributes) := by
  have members : Gives (fun ms => ∀ m ∈ ms, m.Integral) enumMembers :=
    .items fun ms all => gives_enumMember.recovering.bind fun o one => .behind fun _ =>
      .pure (forall_mem_append_toList all one)
  exact .behind fun _ => .behind fun name => .behind fun _ => members.bind fun ms all =>
    .behind fun _ => .behind fun span => .pure all

theorem gives_namespacePhrase {inner : Parser Declaration} (h : Gives Declaration.Integral inner)
    (start : Token) (attributes : List Attribute) :
    Gives Namespace.Integral (namespacePhrase inner start attributes) := by
  have body : Gives (fun ds => ∀ d ∈ ds, d.Integral) (declarations inner) := by
    refine .items fun ds all => h.recovering.bind fun o one => ?_
    cases o with
    | none => exact .pure all
    | some d => exact .behind fun _ => .pure (forall_mem_append_toList all one)
  exact .behind fun _ => .behind fun name => .behind fun _ => body.bind fun ds all =>
    .behind fun _ => .behind fun span => .pure (Declaration.allIntegral_iff.2 all)

theorem gives_declaration : Gives Declaration.Integral declaration := by
  refine .nested gives_unexpected fun inner h => ?_
  refine .behind fun start => .behind fun attributes => .behind fun t => ?_
  split
  · exact .map (gives_namespacePhrase h start attributes)
  · exact .map (gives_enumDecl start attributes)
  · exact .map fun _ _ _ _ => trivial
  · exact .map fun _ _ _ _ => trivial
  · exact .map fun _ _ _ _ => trivial
  · exact gives_unexpected

/-- The check on the values of a tree, for one item of it. -/
def TopLevel.Integral : TopLevel → Prop
  | .import_ _ => True
  | .namespace_ ns => ns.Integral

theorem gives_topLevel : Gives TopLevel.Integral topLevel := by
  refine .behind fun start => ?_
  split
  · exact .behind fun i => .pure trivial
  · refine .behind fun attributes => .behind fun found => ?_
    split
    · exact (gives_namespacePhrase gives_declaration start attributes).bind fun ns good => .pure good
    · exact gives_unexpected

theorem gives_file : Gives IdlFile.Integral file := by
  refine .iterate (fun tree good => gives_topLevel.recovering.bind fun o one => .pure ?_) ?_
  · match o with
    | none => exact good
    | some (.import_ i) => exact good
    | some (.namespace_ ns) =>
      intro ns' mem
      obtain mem | mem := List.mem_append.1 mem
      · exact good ns' mem
      · rw [List.mem_singleton.1 mem]
        exact one (.namespace_ ns) rfl
  · simp [IdlFile.Integral, IdlFile.empty]

end IdlFront.Parser

namespace IdlFront

open IdlFront.Parser IdlFront.ParserState

/-- A list of tokens of any kinds, texts and places is parsed to its end: no loop and no recursion
    goes on for ever, no failure is left over, no member of an enumeration is refused for its value,
    and all tokens before the first end of input are consumed. -/
theorem parseTokens_total (ts : List Token) :
    Proceeds ∧ Gives EnumMember.Integral enumMember ∧
      ∃ tree t, file (initial (.ofTokens ts)) = .ok tree t ∧ parseTokens ts = t.run tree ∧
        tree.Integral ∧ (parseTokens ts).consumed = (beforeEof ts).length := by
  refine ⟨proceeds, gives_enumMember, ?_⟩
  obtain ⟨tree, t, run⟩ := Total.succeeds (p := file) (initial (.ofTokens ts))
  have result : parseTokens ts = t.run tree := by
    simp only [parseTokens, parseStream, run]
  refine ⟨tree, t, run, result, gives_file run, ?_⟩
  -- Nothing is left at the end, and what is no longer to come has been consumed.
  obtain ⟨u, -, none, rfl⟩ := file_ends (s := initial (.ofTokens ts)) (last_ofArrivals _).1 (noEof_initial _) run
  have all := (reaches_ok run).consumed
  rw [remaining_looked, u.remaining_eq, none, remaining_eq, tokens_ofTokens] at all
  rw [TokenStream.ofTokens, consumed_initial, List.length_nil, Nat.add_zero, Nat.zero_add] at all
  rw [result]
  exact all

end IdlFront
