import IdlFront.Proofs.Grammar.Recognition
import IdlFront.Proofs.Lexical.Places
import IdlFront.Proofs.Parser.Blocks
import IdlFront.Proofs.Tree.Outline

/-! # Where nodes lie

The nodes of the tree of any source text lie in the text, each within the node above it and behind
the one before it, however broken the text is.

* `ParserState.Stands` — the tokens to come stand in a source, behind what has been consumed.
* `Onward` — what every parser does to such a state: it only moves forward.
* `Lays` — a parser that adds outlines of nodes to those that have been laid.
* `Ends` — the last steps of a node, over the nodes laid below it.
* `parse_outlines` — the outline of a tree is in order.
-/

namespace IdlFront

open Lexical

/-- The outline of an item at the top level. -/
def TopLevel.outline : TopLevel → Outline
  | .import_ i => i.outline
  | .namespace_ ns => ns.outline

/-! ## Tokens in a source -/

/-- A token of the source covers some text of it. -/
theorem Token.StandsIn.covers {source : String} {t : Token} (h : t.StandsIn source) :
    t.offset < t.stop ∧ t.stop ≤ source.length := by
  obtain ⟨before, after, eq, nonempty, place⟩ := h
  have offset : t.offset = before.length := congrArg Token.offset place
  have pos : 0 < t.value.toList.length := List.length_pos_iff.2 nonempty
  have length := congrArg List.length eq
  simp only [String.length_toList, List.length_append] at length pos
  unfold Token.stop
  omega

/-- A span from a token to some place behind it lies in the source. -/
theorem Token.StandsIn.span {source : String} {t : Token} (h : t.StandsIn source) {stop : Int}
    (behind : t.stop ≤ stop) (within : stop ≤ source.length) :
    (t.spanUntil stop).LiesIn source := by
  have less : t.offset < stop := Int.lt_of_lt_of_le h.covers.1 behind
  obtain ⟨before, after, eq, -, place⟩ := h
  have offset : t.offset = before.length := congrArg Token.offset place
  have front : source.toList.take t.offset.toNat = before := by
    rw [offset, Int.toNat_natCast, eq, List.append_assoc, List.take_left]
  have stops : (t.spanUntil stop).stop = stop := Int.max_eq_right (Int.le_of_lt less)
  have starts : (t.spanUntil stop).start = t.offset := rfl
  refine ⟨?_, ?_, ?_, ?_, ?_⟩
  · rw [starts, offset]
    omega
  · rwa [starts, stops]
  · rwa [stops]
  · rw [starts, front]
    exact congrArg Token.line place
  · rw [starts, front]
    exact congrArg Token.column place

namespace ParserState

variable {source : String} {s t u : ParserState}

/-! ## States over a source -/

/-- The tokens to come stand in the source one after the other, behind what has been consumed, and
    the end of input comes last. -/
structure Stands (source : String) (s : ParserState) : Prop where
  tokens : ∀ t ∈ s.tokens, t.StandsIn source
  ordered : (s.tokens ++ [s.ending]).Pairwise Token.Before
  behind : ∀ t ∈ s.tokens ++ [s.ending], s.prevStop ≤ t.offset
  endOffset : s.ending.offset ≤ source.length
  endIsEof : s.ending.kind = .eof

theorem current_mem (s : ParserState) : s.current ∈ s.tokens ++ [s.ending] := by
  rw [s.current_eq]
  cases s.tokens <;> simp

namespace Stands

theorem prevStop_le_current (h : s.Stands source) : s.prevStop ≤ s.current.offset :=
  h.behind _ s.current_mem

theorem prevStop_le (h : s.Stands source) : s.prevStop ≤ source.length :=
  Int.le_trans (h.behind s.ending (by simp)) h.endOffset

theorem current (h : s.Stands source) (more : 0 < s.remaining) : s.current.StandsIn source := by
  refine h.tokens _ ?_
  rw [tokens_eq_cons more]
  exact List.mem_cons_self

end Stands

/-- From a state over a source another one is reached, which is not before it. -/
structure Onward (source : String) (s t : ParserState) : Prop where
  stands : t.Stands source
  prevStop : s.prevStop ≤ t.prevStop
  offset : s.current.offset ≤ t.current.offset
  passed : t.remaining = s.remaining ∧ t.current = s.current ∨ s.current.stop ≤ t.prevStop

theorem Stands.same (h : s.Stands source) (tokens : t.tokens = s.tokens) (ending : t.ending = s.ending)
    (stop : t.prevStop = s.prevStop) : Onward source s t where
  stands := by
    refine ⟨?_, ?_, ?_, ?_, ?_⟩
    · rw [tokens]
      exact h.tokens
    · rw [tokens, ending]
      exact h.ordered
    · rw [tokens, ending, stop]
      exact h.behind
    · rw [ending]
      exact h.endOffset
    · rw [ending]
      exact h.endIsEof
  prevStop := Int.le_of_eq stop.symm
  offset := Int.le_of_eq (by rw [current_eq, current_eq, tokens, ending])
  passed := .inl ⟨by rw [remaining_eq, remaining_eq, tokens],
    by rw [current_eq, current_eq, tokens, ending]⟩

theorem Stands.advanced (h : s.Stands source) : Onward source s s.advanced := by
  by_cases more : 0 < s.remaining
  · have cons := tokens_eq_cons more
    have tokens := tokens_advanced s
    have ending := ending_advanced s
    have stop : s.advanced.prevStop = s.current.stop := by
      rw [prevStop_advanced, cons]
      rfl
    have ordered := h.ordered
    rw [cons, List.cons_append, List.pairwise_cons] at ordered
    have later : s.current.stop ≤ s.advanced.current.offset := ordered.1 _ (by
      rw [← tokens, ← ending]
      exact s.advanced.current_mem)
    have within := offset_le_stop s.current
    refine ⟨⟨?_, ?_, ?_, ?_, ?_⟩, ?_, ?_, .inr ?_⟩
    · rw [tokens]
      exact fun t mem => h.tokens t (List.mem_of_mem_tail mem)
    · rw [tokens, ending]
      exact ordered.2
    · rw [tokens, ending, stop]
      exact ordered.1
    · rw [ending]
      exact h.endOffset
    · rw [ending]
      exact h.endIsEof
    · rw [stop]
      exact Int.le_trans h.prevStop_le_current within
    · exact Int.le_trans within later
    · exact Int.le_of_eq stop.symm
  · -- The end of input is not consumed.
    have none : s.tokens = [] := by
      rw [remaining_eq] at more
      exact List.eq_nil_of_length_eq_zero (by omega)
    exact h.same (by rw [tokens_advanced, none]; rfl) (ending_advanced s)
      (by rw [prevStop_advanced, none]; rfl)

theorem Onward.trans (h : Onward source s t) (h' : Onward source t u) : Onward source s u where
  stands := h'.stands
  prevStop := Int.le_trans h.prevStop h'.prevStop
  offset := Int.le_trans h.offset h'.offset
  passed := by
    obtain ⟨same, current⟩ | passed := h.passed
    · rw [← same, ← current]
      exact h'.passed
    · exact .inr (Int.le_trans passed h'.prevStop)

/-- Whatever is reached from a state over a source is not before it. -/
theorem Stands.onward (h : s.Stands source) (reaches : s.Reaches t) : Onward source s t := by
  induction reaches with
  | refl => exact h.same rfl rfl rfl
  | @tail t u _ step ih =>
    refine ih.trans ?_
    cases step with
    | look => exact ih.stands.same (tokens_looked t) (ending_looked t) rfl
    | advance => exact ih.stands.advanced
    | report d => exact ih.stands.same rfl rfl rfl

/-- Where something has been consumed the token that was the next one has been. -/
theorem Onward.stop_le (h : Onward source s t) (less : t.remaining < s.remaining) :
    s.current.stop ≤ t.prevStop := by
  obtain ⟨same, -⟩ | passed := h.passed
  · omega
  · exact passed

/-- At first the tokens of a source stand in it. -/
theorem stands_initial (source : String) : (initial (.ofSource source)).Stands source := by
  obtain ⟨ts, eq, lexed⟩ := tokens_lexed source
  have all := tokens_ofSource source
  have ordered : (tokenize source).tokens.Pairwise Token.Before := arrivals_ordered source
  rw [eq] at all ordered
  obtain ⟨tokens, ending⟩ := List.append_inj' all rfl
  have endOffset : (initial (.ofSource source)).ending.offset = source.length := by
    rw [(List.cons.inj ending).1, ← String.length_toList]
    rfl
  have stands : ∀ t ∈ (initial (.ofSource source)).tokens, t.StandsIn source := fun t mem =>
    (lexed t (tokens ▸ mem)).1.standsIn
  refine ⟨stands, all ▸ ordered, ?_, Int.le_of_eq endOffset, (last_ofArrivals _).1⟩
  -- Nothing has been consumed, and no offset is below zero.
  refine List.forall_mem_append.2 ⟨fun t mem => ?_, ?_⟩
  · obtain ⟨before, -, -, -, place⟩ := stands t mem
    rw [place]
    exact Int.natCast_nonneg _
  · rw [List.forall_mem_singleton, endOffset]
    exact Int.natCast_nonneg _

end ParserState

namespace Parser

open ParserState Outline

variable {α β : Type} {source : String} {p : Parser α} {pre : List Outline}

/-! ## Laying nodes -/

/-- Where the outlines `pre` have been laid behind some offset, the parser leaves others, which are
    laid behind it as well. -/
def Lays (source : String) (pre : List Outline) (p : Parser α) (post : α → List Outline) : Prop :=
  ∀ ⦃lo : Int⦄ ⦃s t : ParserState⦄ ⦃a : α⦄, s.Stands source → lo ≤ s.current.offset →
    Laid source lo s.prevStop pre → p s = .ok a t → Laid source lo t.prevStop (post a)

section Lays

variable {post : α → List Outline}

theorem Lays.bind [Uniform p] {f : α → Parser β} {last : β → List Outline}
    (first : Lays source pre p post) (next : ∀ a, Lays source (post a) (f a) last) :
    Lays source pre (p >>= f) last := by
  intro lo s t b stands le laid run
  obtain ⟨a, u, run, run'⟩ := bind_ok run
  have onward := stands.onward (reaches_ok run)
  exact next a onward.stands (Int.le_trans le onward.offset) (first stands le laid run) run'

/-- A step without nodes leaves everything where it is. -/
theorem lays_skip [Uniform p] : Lays source pre p fun _ => pre :=
  fun _ _ _ _ stands _ laid run => laid.mono_right (stands.onward (reaches_ok run)).prevStop

theorem Lays.skip [Uniform p] {f : α → Parser β} {last : β → List Outline}
    (next : ∀ a, Lays source pre (f a) last) : Lays source pre (p >>= f) last :=
  lays_skip.bind next

/-- Some or all of what has been laid. -/
theorem lays_pure {a : α} (sub : (post a).Sublist pre) : Lays source pre (pure a) post := by
  intro lo s t b _ _ laid run
  cases run
  exact laid.sublist sub

/-- What has been laid before does not matter. -/
theorem Lays.frame [Uniform p] (h : Lays source [] p post) :
    Lays source pre p fun a => pre ++ post a := by
  intro lo s t a stands le laid run
  have onward := stands.onward (reaches_ok run)
  exact laid.append (h stands (Int.le_refl _) laid_nil run) le stands.prevStop_le_current
    onward.prevStop

theorem Lays.map {f : α → β} {post : β → List Outline}
    (h : Lays source pre p fun a => post (f a)) : Lays source pre (f <$> p) post := by
  intro lo s t b stands le laid run
  obtain ⟨a, first, rfl⟩ := map_ok run
  exact h stands le laid first

theorem lays_unexpected {kinds : List TokenKind} : Lays source pre (unexpected kinds) post := by
  intro lo s t a _ _ _ run
  cases run

/-- An item of a list that has been skipped is not there. -/
theorem Lays.recovered [Uniform p] {resume : List TokenKind} {eager : Bool}
    (h : Lays source [] p post) :
    Lays source pre (recovering resume eager p) fun o => pre ++ o.toList.flatMap post := by
  intro lo s t o stands le laid run
  have whole := (stands.onward (reaches_ok run)).prevStop
  rw [recovering_apply] at run
  cases item : p s with
  | ok a u =>
    rw [item] at run
    cases run
    simpa using h.frame stands le laid item
  | error d u =>
    rw [item] at run
    cases run
    simpa using laid.mono_right whole

theorem Lays.recovering [Uniform p] {resume : List TokenKind} {eager : Bool} {out : α → Outline}
    (h : Lays source [] p fun a => [out a]) :
    Lays source pre (recovering resume eager p) fun o => pre ++ o.toList.map out := by
  simpa only [List.map_eq_flatMap] using h.recovered

theorem Lays.iterate {continues : TokenKind → Bool} {round : β → Parser β} [∀ b, Uniform (round b)]
    (out : β → List Outline) (h : ∀ b, Lays source (out b) (round b) out) (b : β) :
    Lays source (out b) (iterate continues round b) out := by
  intro lo s t b' stands le laid run
  have looked : ∀ {b : β} {s : ParserState}, (s.Stands source ∧ lo ≤ s.current.offset ∧
      Laid source lo s.prevStop (out b)) → s.looked.Stands source ∧ lo ≤ s.looked.current.offset ∧
      Laid source lo s.looked.prevStop (out b) := by
    rintro b s ⟨stands, le, laid⟩
    have onward := stands.onward (.single (.look s))
    exact ⟨onward.stands, Int.le_trans le onward.offset, laid⟩
  refine (iterate_ok (I := fun b s => s.Stands source ∧ lo ≤ s.current.offset ∧
    Laid source lo s.prevStop (out b)) looked ?_ ⟨stands, le, laid⟩ run).2.2
  intro b b₁ s t _ before round
  obtain ⟨stands, le, laid⟩ := looked before
  have onward := stands.onward (reaches_ok round)
  exact ⟨onward.stands, Int.le_trans le onward.offset, h b stands le laid round⟩

theorem lays_separated [Uniform p] {separator : TokenKind} {out : α → Outline}
    (h : Lays source [] p fun a => [out a]) :
    Lays source [] (separated separator p) fun as => as.map out := by
  refine h.bind fun a => Lays.iterate (List.map out) (fun items => .skip fun _ => ?_) [a]
  exact h.frame.bind fun next => lays_pure (by simp)

/-- A loop over items that may have to be skipped. -/
theorem lays_items [Uniform p] {continues : TokenKind → Bool} {resume : List TokenKind} {eager : Bool}
    {out : α → Outline} (h : Lays source [] p fun a => [out a]) :
    Lays source [] (Parser.iterate continues (fun items => do
      let item ← Parser.recovering resume eager p
      return items ++ item.toList) []) fun items => items.map out :=
  Lays.iterate (List.map out) (fun items => h.recovering.bind fun item =>
    lays_pure (by simp)) []

theorem Lays.nested {stuck : Parser α} [Uniform stuck] {phrase : Parser α → Parser α}
    (uniform : ∀ inner, Uniform inner → Uniform (phrase inner)) (hs : Lays source [] stuck post)
    (hp : ∀ inner, Uniform inner → Lays source [] inner post → Lays source [] (phrase inner) post) :
    Lays source [] (nested stuck phrase) post := by
  -- By induction on the tokens that are left; at every level the inner phrase has fewer.
  intro lo s t a stands le laid run
  induction hn : s.remaining using Nat.strongRecOn generalizing lo s t a with
  | ind n ih =>
    subst hn
    rw [nested_apply] at run
    refine hp _ (Uniform.limited_nested stuck phrase uniform s.remaining) ?_ stands le laid run
    intro lo' u v b stands' le' laid' inner
    unfold limited at inner
    split at inner
    · next less => exact ih _ less stands' le' laid' inner rfl
    · exact hs stands' le' laid' inner

end Lays

/-! ## Nodes -/

/-- Where nodes have been laid from the token `start` on, the parser gives a node from this token to
    where it ends, over those and others. -/
def Ends (source : String) (start : Token) (pre : List Outline) (p : Parser α) (out : α → Outline) :
    Prop :=
  ∀ ⦃s t : ParserState⦄ ⦃a : α⦄, s.Stands source → start.offset ≤ s.current.offset →
    Laid source start.offset s.prevStop pre → p s = .ok a t →
      (out a).span = start.spanUntil t.prevStop ∧
        Laid source start.offset t.prevStop (out a).children

section Ends

variable {start : Token} {out : α → Outline}

theorem Lays.ends [Uniform p] {f : α → Parser β} {post : α → List Outline} {out : β → Outline}
    (first : Lays source pre p post) (next : ∀ a, Ends source start (post a) (f a) out) :
    Ends source start pre (p >>= f) out := by
  intro s t b stands le laid run
  obtain ⟨a, u, run, run'⟩ := bind_ok run
  have onward := stands.onward (reaches_ok run)
  exact next a onward.stands (Int.le_trans le onward.offset) (first stands le laid run) run'

theorem Ends.skip [Uniform p] {f : α → Parser β} {out : β → Outline}
    (next : ∀ a, Ends source start pre (f a) out) : Ends source start pre (p >>= f) out :=
  lays_skip.ends next

theorem Ends.map {f : α → β} {out : β → Outline} (h : Ends source start pre p fun a => out (f a)) :
    Ends source start pre (f <$> p) out := by
  intro s t b stands le laid run
  obtain ⟨a, first, rfl⟩ := map_ok run
  exact h stands le laid first

/-- The last step of a node: its span, and the node over all that has been laid. -/
theorem ends_spanFrom {node : Span → α} (eq : ∀ span, out (node span) = .node span pre) :
    Ends source start pre (do return node (← spanFrom start)) out := by
  intro s t a _ _ laid run
  cases run
  rw [eq]
  exact ⟨rfl, laid⟩

theorem ends_unexpected {kinds : List TokenKind} : Ends source start pre (unexpected kinds) out := by
  intro s t a _ _ _ run
  cases run

/-- A node that starts with the next token and consumes it. -/
theorem Ends.laid [Uniform p] {s t u : ParserState} {a : α} (h : Ends source s.current [] p out)
    (stands : s.Stands source) (reaches : s.Reaches u) (less : t.remaining < s.remaining)
    (run : p u = .ok a t) : Laid source s.current.offset t.prevStop [out a] := by
  have first := stands.onward reaches
  have onward := first.trans (first.stands.onward (reaches_ok run))
  have behind := onward.stop_le less
  have lies := (stands.current (by omega)).span behind onward.stands.prevStop_le
  have stop : (s.current.spanUntil t.prevStop).stop = t.prevStop :=
    Int.max_eq_right (Int.le_trans (offset_le_stop _) behind)
  obtain ⟨span, laid⟩ := h first.stands first.offset laid_nil run
  cases eq : out a with
  | node nodeSpan children =>
    rw [eq] at span laid
    obtain rfl : nodeSpan = s.current.spanUntil t.prevStop := span
    refine laid_singleton (Laid.placed_node ?_ lies) (Int.le_refl _) (Int.le_of_eq stop)
    rw [stop]
    exact laid

theorem Ends.lays {f : Token → Parser α} [∀ start, Uniform (f start)]
    (consumes : Consumes (current >>= f)) (h : ∀ start, Ends source start [] (f start) out) :
    Lays source [] (current >>= f) fun a => [out a] :=
  fun _ s _ _ stands le _ run => Laid.mono_left
    ((h s.current).laid stands (.single (.look s)) (consumes.lowers stands.endIsEof run) run) le

/-- A node that starts with a token of some kind. -/
theorem Ends.lays_expect {kind : TokenKind} {f : Token → Parser α} [∀ start, Uniform (f start)]
    (inside : kind ≠ .eof) (h : ∀ start, Ends source start [] (f start) out) :
    Lays source [] (expect kind >>= f) fun a => [out a] := by
  intro lo s t a stands le _ run
  have less := (consumes_expectThen inside).lowers stands.endIsEof run
  obtain ⟨found, u, first, run⟩ := bind_ok run
  obtain rfl : found = s.current := by
    obtain ⟨_, _, look, first⟩ := bind_ok first
    cases look
    split at first
    · cases first
      exact s.current_looked
    · cases first
  exact ((h s.current).laid stands (reaches_ok first) less run).mono_left le

end Ends

/-! ## Names, types and parameters -/

theorem lays_typePhrase {inner : Parser TypeRef} [Uniform inner]
    (h : Lays source [] inner fun t => [t.outline]) :
    Lays source [] (typePhrase inner) fun t => [t.outline] := by
  have arguments : Lays source [] (typeArguments inner) fun ts => ts.map TypeRef.outline := by
    refine .skip fun opens => ?_
    split
    · exact (lays_separated h).bind fun ts => .skip fun _ => lays_pure (.refl _)
    · exact lays_pure (.refl _)
  refine Ends.lays (inferInstanceAs (Consumes (typePhrase inner))) fun start => .skip fun void => ?_
  split
  · exact ends_spanFrom fun _ => rfl
  · refine .skip fun name => arguments.ends fun ts => .skip fun isArray => ends_spanFrom fun span => ?_
    rw [TypeRef.outline, TypeRef.outlines_eq]

theorem lays_typeRef : Lays source [] typeRef fun t => [t.outline] :=
  .nested (fun _ _ => inferInstance) lays_unexpected fun _ _ => lays_typePhrase

theorem lays_parameter : Lays source [] parameter fun p => [p.outline] :=
  Ends.lays (inferInstanceAs (Consumes parameter)) fun _ => .skip fun _ => lays_typeRef.ends fun _ =>
    .skip fun _ => ends_spanFrom fun _ => rfl

theorem lays_parameters : Lays source [] parameters fun ps => ps.map Parameter.outline := by
  refine .skip fun none => ?_
  split
  · exact lays_pure (.refl _)
  · exact lays_separated lays_parameter

theorem lays_bases : Lays source [] bases fun ts => ts.map TypeRef.outline := by
  refine .skip fun found => ?_
  split
  · exact lays_separated lays_typeRef
  · exact lays_pure (.refl _)

/-! ## Attributes -/

/-- A literal covers its token. -/
theorem laid_literal {s : ParserState} {l : Literal} (stands : s.Stands source)
    (found : s.current.literal? = some l) :
    Laid source s.current.offset s.advanced.prevStop [l.outline] := by
  have more : 0 < s.remaining := remaining_pos stands.endIsEof (by
    intro ended
    rw [Token.literal?, ended] at found
    cases found)
  obtain ⟨kind, -, rfl⟩ := Option.map_eq_some_iff.1 found
  have behind := stands.advanced.stop_le (by rw [remaining_advanced]; omega)
  have onward := stands.advanced
  have stop : (s.current.spanUntil s.current.stop) = tokenSpan s.current := by
    rw [tokenSpan_eq, spanOver]
    rfl
  have lies := (stands.current more).span (Int.le_refl _)
    (Int.le_trans behind stands.advanced.stands.prevStop_le)
  rw [stop] at lies
  exact laid_singleton (Laid.placed_node laid_nil lies) (Int.le_refl _) behind

theorem lays_name : Lays source [] (do
    let start ← current
    let name ← dottedName
    return ⟨.name, name, ← spanFrom start⟩) fun l : Literal => [l.outline] := by
  have named : Consumes dottedName := inferInstance
  exact Ends.lays (@consumes_bind _ _ _ _ _ fun _ => named.bind_left) fun _ => .skip fun _ =>
    ends_spanFrom fun _ => rfl

theorem lays_attributeArgument : Lays source [] attributeArgument fun l => [l.outline] := by
  intro lo s t l stands le laid run
  obtain ⟨start, u, look, run⟩ := bind_ok run
  cases look
  cases found : s.current.literal? with
  | some l' =>
    have looked := stands.onward (.single (.look s))
    rw [found] at run
    cases run
    rw [← s.current_looked] at found
    exact (laid_literal looked.stands found).mono_left (Int.le_trans le looked.offset)
  | none =>
    rw [found] at run
    simp only at run
    split at run
    · exact lays_name stands le laid run
    · cases run

theorem lays_attributeArguments :
    Lays source [] attributeArguments fun ls => ls.map Literal.outline := by
  refine .skip fun opens => ?_
  split
  · refine .skip fun closes => ?_
    split
    · exact lays_pure (.refl _)
    · exact (lays_separated lays_attributeArgument).bind fun _ => .skip fun _ => lays_pure (.refl _)
  · exact lays_pure (.refl _)

theorem lays_attributeUse : Lays source [] attributeUse fun a => [a.outline] :=
  Ends.lays (inferInstanceAs (Consumes attributeUse)) fun _ => .skip fun _ =>
    lays_attributeArguments.ends fun _ => ends_spanFrom fun _ => rfl

theorem lays_attributeLists : Lays source [] attributeLists fun as => as.map Attribute.outline :=
  Lays.iterate (List.map Attribute.outline) (fun _ => .skip fun _ =>
    (lays_separated lays_attributeUse).frame.bind fun _ => .skip fun _ => lays_pure (by simp)) []

/-! ## Declarations -/

theorem lays_initializer : Lays source [] initializer fun o => o.toList.map Literal.outline := by
  intro lo s t o stands le laid run
  obtain ⟨start, u, look, run⟩ := bind_ok run
  cases look
  have looked := stands.onward (.single (.look s))
  split at run
  · cases run
    cases found : s.current.literal? with
    | some l =>
      rw [← s.current_looked] at found
      exact (laid_literal looked.stands found).mono_left (Int.le_trans le looked.offset)
    | none => exact laid_nil
  · -- What is mistaken for a value gives none.
    simp only at run
    split at run
    · obtain ⟨-, u, -, run⟩ := bind_ok run
      split at run
      · obtain ⟨-, v, -, run⟩ := bind_ok run
        cases run
        exact laid_nil
      · obtain ⟨-, v, -, run⟩ := bind_ok run
        cases run
        exact laid_nil
    · cases run

theorem lays_enumMember : Lays source [] enumMember fun m => [m.outline] := by
  refine Ends.lays (inferInstanceAs (Consumes enumMember)) fun _ => lays_attributeLists.ends fun _ =>
    .skip fun _ => .skip fun found => ?_
  split
  · exact lays_initializer.frame.ends fun _ => ends_spanFrom fun _ => rfl
  · rw [pure_bind]
    exact ends_spanFrom fun _ => by simp [EnumMember.outline]

theorem ends_enumDecl (start : Token) (attributes : List Attribute) :
    Ends source start (attributes.map Attribute.outline) (enumDecl start attributes)
      EnumDecl.outline := by
  have members : Lays source [] enumMembers fun ms => ms.map EnumMember.outline :=
    Lays.iterate (List.map EnumMember.outline) (fun _ => lays_enumMember.recovering.bind
      fun _ => .skip fun _ => lays_pure (by simp)) []
  exact .skip fun _ => .skip fun _ => .skip fun _ => members.frame.ends fun _ => .skip fun _ =>
    ends_spanFrom fun _ => rfl

theorem lays_structField : Lays source [] structField fun f => [f.outline] :=
  Ends.lays (inferInstanceAs (Consumes structField)) fun _ => lays_typeRef.ends fun _ =>
    .skip fun _ => .skip fun _ => ends_spanFrom fun _ => rfl

theorem ends_structDecl (start : Token) (attributes : List Attribute) :
    Ends source start (attributes.map Attribute.outline) (structDecl start attributes)
      StructDecl.outline :=
  .skip fun _ => .skip fun _ => .skip fun _ => (lays_items lays_structField).frame.ends fun _ =>
    .skip fun _ => ends_spanFrom fun _ => rfl

theorem ends_delegateDecl (start : Token) (attributes : List Attribute) :
    Ends source start (attributes.map Attribute.outline) (delegateDecl start attributes)
      DelegateDecl.outline :=
  .skip fun _ => lays_typeRef.frame.ends fun _ => .skip fun _ => .skip fun _ =>
    lays_parameters.frame.ends fun _ => .skip fun _ => .skip fun _ => ends_spanFrom fun _ => rfl

set_option synthInstance.maxSize 100000 in
theorem lays_interfaceMember : Lays source [] interfaceMember fun m => [m.outline] := by
  refine Ends.lays (inferInstanceAs (Consumes interfaceMember)) fun _ =>
    lays_attributeLists.ends fun _ => .skip fun event => ?_
  split
  · exact lays_typeRef.frame.ends fun _ => .skip fun _ => .skip fun _ => ends_spanFrom fun _ => rfl
  · refine lays_typeRef.frame.ends fun _ => .skip fun _ => .skip fun method => ?_
    split
    · exact lays_parameters.frame.ends fun _ => .skip fun _ => .skip fun _ =>
        ends_spanFrom fun _ => rfl
    · refine .skip fun block => ?_
      split
      · exact .skip fun _ => .skip fun _ => ends_spanFrom fun _ => rfl
      · exact .skip fun _ => ends_spanFrom fun _ => rfl

theorem ends_interfaceDecl (start : Token) (attributes : List Attribute) :
    Ends source start (attributes.map Attribute.outline) (interfaceDecl start attributes)
      InterfaceDecl.outline :=
  .skip fun _ => .skip fun _ => lays_bases.frame.ends fun _ => .skip fun _ =>
    (lays_items lays_interfaceMember).frame.ends fun _ => .skip fun _ => ends_spanFrom fun _ => rfl

theorem ends_namespacePhrase {inner : Parser Declaration} [Uniform inner]
    (h : Lays source [] inner fun d => [d.outline]) (start : Token) (attributes : List Attribute) :
    Ends source start (attributes.map Attribute.outline) (namespacePhrase inner start attributes)
      Namespace.outline := by
  have body : Lays source [] (declarations inner) fun ds => ds.map Declaration.outline := by
    refine @Lays.iterate _ _ _ (declarationRound inner) _ (List.map Declaration.outline) (fun ds =>
      h.recovering.bind fun o => ?_) []
    cases o with
    | none => exact lays_pure (by simp)
    | some d => exact .skip fun _ => lays_pure (by simp)
  refine .skip fun _ => .skip fun _ => .skip fun _ => body.frame.ends fun ds => .skip fun _ =>
    ends_spanFrom fun span => ?_
  rw [Namespace.outline, Declaration.outlines_eq]

theorem lays_declaration : Lays source [] declaration fun d => [d.outline] := by
  refine .nested (fun _ _ => inferInstance) lays_unexpected fun inner _ h => ?_
  refine Ends.lays (inferInstanceAs (Consumes (declarationPhrase inner))) fun start =>
    lays_attributeLists.ends fun attributes => .skip fun t => ?_
  split
  · exact .map (ends_namespacePhrase h start attributes)
  · exact .map (ends_enumDecl start attributes)
  · exact .map (ends_structDecl start attributes)
  · exact .map (ends_delegateDecl start attributes)
  · exact .map (ends_interfaceDecl start attributes)
  · exact ends_unexpected

/-! ## Files -/

theorem lays_importDirective : Lays source [] importDirective fun i => [i.outline] :=
  Ends.lays_expect (by decide) fun _ => .skip fun _ => .skip fun _ => ends_spanFrom fun _ => rfl

theorem lays_topLevel : Lays source [] topLevel fun item => [item.outline] := by
  intro lo s t item stands le _ run
  have less := Consumes.lowers stands.endIsEof run
  obtain ⟨start, u, look, run⟩ := bind_ok run
  cases look
  have looked := stands.onward (.single (.look s))
  split at run
  · obtain ⟨i, v, first, rest⟩ := bind_ok run
    cases rest
    exact lays_importDirective looked.stands (Int.le_trans le looked.offset) laid_nil first
  · refine (Ends.laid ?_ stands (.single (.look s)) less run).mono_left le
    refine lays_attributeLists.ends fun attributes => .skip fun found => ?_
    split
    · rw [bind_pure_comp]
      exact .map (ends_namespacePhrase lays_declaration s.current attributes)
    · exact ends_unexpected

/-- Imports and namespaces are each laid in their order. -/
theorem lays_file (out : IdlFile → List Outline) (first : out .empty = [])
    (add : ∀ tree o, (out (tree.add o)).Sublist (out tree ++ o.toList.map TopLevel.outline)) :
    Lays source [] file out := by
  have round : ∀ tree, Lays source (out tree) (topLevelRound tree) out := fun tree =>
    lays_topLevel.recovering.bind fun o => lays_pure (add tree o)
  intro lo s t tree stands le _ run
  exact Lays.iterate out round .empty stands le (first ▸ laid_nil) run

end Parser

open IdlFront.Parser IdlFront.ParserState IdlFront.Outline

/-- In the tree of any source text, well-formed or not, every node lies in the text, at its line and
    column, with what is below it within its span; and nodes next to each other are disjoint and in
    the order of the text. -/
theorem parse_outlines (source : String) :
    Outline.InOrder source ((parse source).tree.imports.map Import.outline) ∧
      Outline.InOrder source ((parse source).tree.namespaces.map Namespace.outline) := by
  obtain ⟨tree, t, run⟩ := Total.succeeds (p := file) (initial (.ofSource source))
  have result : (parse source).tree = tree := by
    simp only [parse, parseStream, run, ParserState.run]
  have stands := stands_initial source
  have lay := fun out first add =>
    (lays_file out first add stands (Int.le_refl _) laid_nil run).toInOrder
  rw [result]
  constructor
  · refine lay (fun tree => tree.imports.map Import.outline) rfl fun tree o => ?_
    obtain - | i | ns := o <;> simp [IdlFile.add, TopLevel.outline]
  · refine lay (fun tree => tree.namespaces.map Namespace.outline) rfl fun tree o => ?_
    obtain - | i | ns := o <;> simp [IdlFile.add, TopLevel.outline]

end IdlFront
