import IdlFront.Proofs.Grammar.DeclarationCompleteness
import IdlFront.Proofs.Grammar.Omission
import IdlFront.Proofs.Parser.Blocks

/-! # Reading tokens of which some are missing

* `Along` — a state of a run over tokens without some omissible ones, and what it adds up to: the
  reports so far and the tokens that are missing ahead.
* `Mends` — a parser reads what is left of some tokens as it would read all of them, and reports each
  missing one. The lemmas put such runs together along the parser.
-/

namespace IdlFront.Parser

open IdlFront.Grammar IdlFront.ParserState

variable {α β γ δ : Type} {e : α → γ} {e' : β → δ} {p : Parser α} {n : Nat}
  {before after ts us : List Token} {a : α} {b : β} {c : Token} {kinds : List TokenKind}
  {s : ParserState}

/-! ## Runs -/

/-- With `before` behind it and `after` ahead, of which omissible tokens may be missing, a state has
    reported each missing token so far, and `n` counts those with the ones still to come. -/
structure Along (n : Nat) (before after : List Token) (s : ParserState) : Prop where
  plain : s.Plain
  thinned : ∃ k, Thins before after s.tokens k ∧ s.log.toList.length + k = n

theorem Along.leads (along : Along n before after s) (h : Leads before after kinds) :
    s.current.kind ∈ kinds := by
  obtain ⟨k, thins, -⟩ := along.thinned
  rw [along.plain.current_kind]
  exact h thins

theorem Along.looked (along : Along n before after s) : Along n before after s.looked := by
  obtain ⟨plain, k, thins, count⟩ := along
  exact ⟨plain.looked, k, by rwa [tokens_looked], by rwa [plain.log_looked]⟩

/-- Along a run the parser reads what is left of `ts` as `a`, as far as `e` can tell. -/
def Mends (e : α → γ) (p : Parser α) (before ts : List Token) (a : α) (after : List Token) : Prop :=
  ∀ ⦃n s⦄, Along n before (ts ++ after) s →
    ∃ a' t, p s = .ok a' t ∧ e a' = e a ∧ Along n (before ++ ts) after t

theorem mends_pure {a' : α} (same : e a' = e a) : Mends e (pure a') before [] a after :=
  fun _ s along => ⟨a', s, rfl, same, by simpa using along⟩

theorem Mends.bind {f : α → Parser β} (first : Mends e p before ts a (us ++ after))
    (next : ∀ a', e a' = e a → Mends e' (f a') (before ++ ts) us b after) :
    Mends e' (p >>= f) before (ts ++ us) b after := by
  intro n s along
  rw [List.append_assoc] at along
  obtain ⟨a', t, run, same, there⟩ := first along
  obtain ⟨b', u, run', same', done⟩ := next a' same there
  refine ⟨b', u, ?_, same', by rwa [List.append_assoc] at done⟩
  rw [bind_apply, run]
  exact run'

/-- A step over one token. -/
theorem Mends.bind_single {f : α → Parser β} (first : Mends e p before [c] a (us ++ after))
    (next : ∀ a', e a' = e a → Mends e' (f a') (before ++ [c]) us b after) :
    Mends e' (p >>= f) before (c :: us) b after := first.bind next

/-- A step that consumes nothing, then another. -/
theorem Mends.bind_nil {f : α → Parser β} (first : Mends e p before [] a (ts ++ after))
    (next : ∀ a', e a' = e a → Mends e' (f a') before ts b after) :
    Mends e' (p >>= f) before ts b after :=
  first.bind fun a' same => by simpa using next a' same

/-- A step, then one that consumes nothing. -/
theorem Mends.andThen {f : α → Parser β} (first : Mends e p before ts a after)
    (next : ∀ a', e a' = e a → Mends e' (f a') (before ++ ts) [] b after) :
    Mends e' (p >>= f) before ts b after := by
  have both : Mends e' (p >>= f) before (ts ++ []) b after := Mends.bind first next
  rwa [List.append_nil] at both

theorem Mends.map {f : α → β} (h : Mends e p before ts a after)
    (same : ∀ a', e a' = e a → e' (f a') = e' (f a)) : Mends e' (f <$> p) before ts (f a) after := by
  intro n s along
  obtain ⟨a', t, run, eq, there⟩ := h along
  exact ⟨f a', t, by rw [map_apply, run], same a' eq, there⟩

theorem Mends.discard (h : Mends e p before ts a after) :
    Mends id (discard p) before ts () after := by
  intro n s along
  obtain ⟨a', t, run, -, there⟩ := h along
  exact ⟨(), t, by rw [discard_apply, run], rfl, there⟩

/-- Parsers that do the same before the end of input. -/
theorem Mends.congr {q : Parser α} (same : ∀ {s : ParserState}, s.ending.kind = .eof → p s = q s)
    (h : Mends e q before ts a after) : Mends e p before ts a after := by
  intro n s along
  rw [same along.plain.endIsEof]
  exact h along

/-! ## What is not missing -/

/-- What is accepted as it stands is read the same way where other tokens are missing. -/
theorem Mends.of_accepts (intact : Intact before ts after)
    (accepts : ∀ {stop us k}, Thins (before ++ ts) after us k → Accepts p stop ts a us) :
    Mends id p before ts a after := by
  intro n s along
  obtain ⟨plain, k, thins, count⟩ := along
  obtain ⟨us, tokens, rest⟩ := thins.of_intact intact
  obtain ⟨t, run⟩ := accepts rest s plain rfl tokens
  refine ⟨a, t, run.result, rfl, run.moves.plainAfter, k, by rwa [run.moves.rest tokens], ?_⟩
  rw [run.moves.log, List.append_nil]
  exact count

/-- A step over a phrase outside of enumerations. -/
theorem mends_phrase {f : α → Parser β} (outside : enclosure before = .outside)
    (made : OfKinds phraseKinds ts)
    (accepts : ∀ {stop rest k}, Thins (before ++ ts) (us ++ after) rest k → Accepts p stop ts a rest)
    (next : enclosure (before ++ ts) = .outside → Mends e' (f a) (before ++ ts) us b after) :
    Mends e' (p >>= f) before (ts ++ us) b after := by
  have passes := passes_phrase made
  refine (Mends.of_accepts (passes.intact outside) accepts).bind ?_
  rintro a' rfl
  exact next (passes.arrives outside)

section Then

variable {kind : TokenKind} {q : Parser β}

/-- A step that starts with a look at a token that is not missing. -/
theorem mends_currentThen {f : Token → Parser β} (fixed : c.kind ∉ omissibleKinds)
    (h : Mends e' (f c) before (c :: us) b after) :
    Mends e' (current >>= f) before (c :: us) b after := by
  intro n s along
  obtain ⟨k, thins, -⟩ := along.thinned
  have intact : Intact before [c] (us ++ after) := intact_single fixed
  obtain ⟨vs, tokens, -⟩ := thins.of_intact intact
  have found : s.current = c := by rw [s.current_eq, tokens]; rfl
  obtain ⟨b', t, run, same, there⟩ := h along.looked
  exact ⟨b', t, by rw [← run, ← found]; rfl, same, there⟩

/-- A look at a token where it does not matter which one it is. -/
theorem mends_lookThen {f : Token → Parser β} (h : ∀ t, Mends e' (f t) before ts b after) :
    Mends e' (current >>= f) before ts b after := fun _ s along => h s.current along.looked

/-- A look at a token of which only the kind matters. -/
theorem mends_peekThen {f : Token → Parser β} (leads : Leads before (ts ++ after) kinds)
    (h : ∀ t : Token, t.kind ∈ kinds → Mends e' (f t) before ts b after) :
    Mends e' (current >>= f) before ts b after :=
  fun _ s along => h s.current (along.leads leads) along.looked

theorem mends_expectThen {f : Token → Parser β} (eq : c.kind = kind) (fixed : kind ∉ omissibleKinds)
    (h : Mends e' (f c) (before ++ [c]) us b after) :
    Mends e' (expect kind >>= f) before (c :: us) b after := by
  refine Mends.bind_single (.of_accepts (intact_single (eq ▸ fixed)) fun _ => accepts_expect eq) ?_
  rintro c' rfl
  exact h

theorem mends_discardExpectThen (eq : c.kind = kind) (fixed : kind ∉ omissibleKinds)
    (h : Mends e' q (before ++ [c]) us b after) :
    Mends e' (do discard (expect kind); q) before (c :: us) b after :=
  Mends.bind_single
    (.of_accepts (intact_single (eq ▸ fixed)) fun _ => (accepts_expect eq).discard) fun _ _ => h

/-- The last step of a node, of which all but the span is known. -/
theorem mends_spanFrom {start : Token} {node : Span → β} (same : ∀ span, e' (node span) = e' b) :
    Mends e' (do return node (← spanFrom start)) before [] b after :=
  fun _ s along => ⟨_, s, rfl, same _, by simpa using along⟩

end Then

section Choice

variable {kind : TokenKind} {yes no : Parser β}

theorem mends_accept (eq : c.kind = kind) (kept : ¬ Omissible before c after) :
    Mends id (accept kind) before [c] true after :=
  .of_accepts ⟨kept, trivial⟩ fun _ => accepts_accept eq

theorem mends_accept_not (leads : Leads before after kinds) (apart : kind ∉ kinds) :
    Mends id (accept kind) before [] false after :=
  .of_accepts trivial fun thins => accepts_accept_not
    (ne_of_mem_of_not_mem (leads (by simpa using thins)) apart)

theorem mends_acceptThen (eq : c.kind = kind) (fixed : kind ∉ omissibleKinds)
    (h : Mends e' yes (before ++ [c]) us b after) :
    Mends e' (do if ← accept kind then yes else no) before (c :: us) b after := by
  refine Mends.bind_single (mends_accept eq fun omissible => fixed (eq ▸ omissible.kind)) ?_
  rintro _ rfl
  exact h

theorem mends_acceptElse (leads : Leads before (ts ++ after) kinds) (apart : kind ∉ kinds)
    (h : Mends e' no before ts b after) :
    Mends e' (do if ← accept kind then yes else no) before ts b after := by
  refine (mends_accept_not leads apart).bind_nil ?_
  rintro _ rfl
  exact h

theorem mends_checkThen (leads : Leads before (ts ++ after) [kind])
    (h : Mends e' yes before ts b after) :
    Mends e' (do if ← check [kind] then yes else no) before ts b after := by
  intro n s along
  obtain ⟨b', t, run, same, there⟩ := h along.looked
  refine ⟨b', t, ?_, same, there⟩
  have found := List.mem_singleton.1 (along.leads leads)
  simp only [check, bind_apply, current, pure_apply, found]
  simpa using run

theorem mends_checkElse (leads : Leads before (ts ++ after) kinds) (apart : kind ∉ kinds)
    (h : Mends e' no before ts b after) :
    Mends e' (do if ← check [kind] then yes else no) before ts b after := by
  intro n s along
  obtain ⟨b', t, run, same, there⟩ := h along.looked
  refine ⟨b', t, ?_, same, there⟩
  have ne := ne_of_mem_of_not_mem (along.leads leads) apart
  simp only [check, bind_apply, current, pure_apply]
  rw [if_neg (by simpa using ne)]
  exact run

end Choice

/-! ## What may be missing -/

/-- One more report is one more token that has been missing. -/
theorem Along.reported (along : Along n before after s) (d : Diagnostic) :
    Along (n + 1) before after (s.reported d) := by
  obtain ⟨plain, k, thins, count⟩ := along
  have moves := plain.moves_reported d
  refine ⟨moves.plainAfter, k, thins, ?_⟩
  rw [moves.log, List.length_append, List.length_singleton]
  omega

/-- A token that may be missing. Where it is, that is made up for at once. -/
theorem mends_omissible {p : Parser Unit} (kept : ∀ {stop us}, Accepts p stop [c] () us)
    (missing : ∀ {n s}, Omissible before c after → Along n (before ++ [c]) after s →
      ∃ t, p s = .ok () t ∧ Along (n + 1) (before ++ [c]) after t) :
    Mends id p before [c] () after := by
  rintro n s ⟨plain, k, thins, count⟩
  rw [List.singleton_append] at thins
  generalize tokens : s.tokens = us at thins
  cases thins with
  | @keep _ _ us _ _ rest =>
    obtain ⟨t, run⟩ := kept s plain rfl tokens
    have after_ : t.tokens = us := run.moves.rest (show s.tokens = [c] ++ us from tokens)
    refine ⟨(), t, run.result, rfl, run.moves.plainAfter, k, by rwa [after_], ?_⟩
    rw [run.moves.log, List.append_nil, count]
  | @drop _ _ _ _ k omissible rest =>
    -- Nothing is consumed yet, but one token less is missing ahead.
    have along : Along (s.log.toList.length + k) (before ++ [c]) after s :=
      ⟨plain, k, tokens ▸ rest, rfl⟩
    obtain ⟨t, run, there⟩ := missing omissible along
    exact ⟨(), t, run, rfl, count ▸ there⟩

theorem expectOrReport_missing {kind : TokenKind} (absent : s.current.kind ≠ kind) :
    expectOrReport kind s =
      .ok () (s.looked.reported (s.current.report (.expected [kind] s.current))) := by
  show (if s.current.kind = kind then discard advance
    else report s.current (.expected [kind] s.current)) s.looked = _
  rw [if_neg absent]
  rfl

/-- A semicolon that an item needs. -/
theorem mends_semicolon (eq : c.kind = .punct .semicolon) :
    Mends id (expectOrReport (.punct .semicolon)) before [c] () after := by
  refine mends_omissible (accepts_expectOrReport eq) fun {n s} omissible along => ?_
  obtain ⟨k, thins, -⟩ := along.thinned
  have absent : s.current.kind ≠ .punct .semicolon := by
    rw [along.plain.current_kind]
    exact thins.no_semicolon eq (omissible.semicolon_inv eq).2
  exact ⟨_, expectOrReport_missing absent, along.looked.reported _⟩

/-- The brace at the end of a block. Where it is missing the next one is taken for it, so that another
    one is missing later, or the end of input has come. -/
theorem mends_close (eq : c.kind = .punct .rbrace) :
    Mends id (expectOrReport (.punct .rbrace)) before [c] () after := by
  refine mends_omissible (accepts_expectOrReport eq) fun {n s} omissible along => ?_
  have braces := omissible.brace_inv eq
  obtain ⟨k, thins, count⟩ := along.thinned
  cases tokens : s.tokens with
  | nil =>
    have absent : s.current.kind ≠ .punct .rbrace := by
      rw [along.plain.current_kind, tokens]
      decide
    exact ⟨_, expectOrReport_missing absent, along.looked.reported _⟩
  | cons d vs =>
    rw [tokens] at thins
    have brace := braces d (thins.sublist.subset List.mem_cons_self)
    obtain ⟨t, run⟩ := accepts_expectOrReport brace s along.plain rfl tokens
    have after_ : t.tokens = vs := run.moves.rest (show s.tokens = [d] ++ vs from tokens)
    refine ⟨t, run.result, run.moves.plainAfter, k + 1, ?_, ?_⟩
    · rw [after_]
      exact thins.without_head braces
    · rw [run.moves.log, List.append_nil, ← count, Nat.add_assoc]

section Then

variable {q : Parser β}

theorem mends_semicolonThen (eq : c.kind = .punct .semicolon)
    (h : Mends e' q (before ++ [c]) us b after) :
    Mends e' (do expectOrReport (.punct .semicolon); q) before (c :: us) b after :=
  Mends.bind_single (mends_semicolon eq) fun _ _ => h

theorem mends_closeThen (eq : c.kind = .punct .rbrace)
    (h : Mends e' q (before ++ [c]) us b after) :
    Mends e' (do expectOrReport (.punct .rbrace); q) before (c :: us) b after :=
  Mends.bind_single (mends_close eq) fun _ _ => h

end Then

/-! ## Lists -/

theorem mends_recovering {resume : List TokenKind} {eager : Bool}
    (h : Mends e p before ts a after) :
    Mends (Option.map e) (recovering resume eager p) before ts (some a) after := by
  intro n s along
  obtain ⟨a', t, run, same, there⟩ := h along
  exact ⟨some a', t, by rw [recovering_apply, run], congrArg some same, there⟩

/-- An item of a list, and a step that takes it. -/
theorem mends_recoveringThen {resume : List TokenKind} {eager : Bool} {f : Option α → Parser β}
    (h : Mends e p before ts a (us ++ after))
    (next : ∀ a', e a' = e a → Mends e' (f (some a')) (before ++ ts) us b after) :
    Mends e' (recovering resume eager p >>= f) before (ts ++ us) b after := by
  refine (mends_recovering h).bind fun o same => ?_
  obtain ⟨a', rfl, same'⟩ := Option.map_eq_some_iff.1 same
  exact next a' same'

section Iterate

variable {continues : TokenKind → Bool} {round : β → Parser β} {b₁ b₂ : β}

theorem mends_iterate_nil (leads : Leads before after kinds)
    (ends : ∀ k ∈ kinds, continues k = false) (same : e' b₁ = e' b) :
    Mends e' (iterate continues round b₁) before [] b after := by
  intro n s along
  rw [List.nil_append] at along
  refine ⟨b₁, s.looked, iterate_end ?_, same, by simpa using along.looked⟩
  rw [ends _ (along.leads leads)]
  exact Bool.false_ne_true

/-- A round of a loop, all of whose rounds consume something. -/
theorem mends_iterate_cons
    (lowers : ∀ {s t : ParserState} {b b' : β}, s.ending.kind = .eof →
      continues s.current.kind = true → round b s = .ok b' t → t.remaining < s.remaining)
    (leads : Leads before (ts ++ (us ++ after)) kinds) (more : ∀ k ∈ kinds, continues k = true)
    (first : Mends e' (round b) before ts b₁ (us ++ after))
    (next : ∀ b', e' b' = e' b₁ → Mends e' (iterate continues round b') (before ++ ts) us b₂ after) :
    Mends e' (iterate continues round b) before (ts ++ us) b₂ after := by
  intro n s along
  rw [List.append_assoc] at along
  obtain ⟨b', t, run, same, there⟩ := first along.looked
  obtain ⟨b'', u, run', same', done⟩ := next b' same there
  have goesOn : continues s.current.kind = true := more _ (along.leads leads)
  -- The loop goes on only behind a round that consumed something.
  have less := lowers (by rw [ending_looked]; exact along.plain.endIsEof)
    (by rwa [current_looked]) run
  rw [remaining_looked] at less
  refine ⟨b'', u, ?_, same', by rwa [List.append_assoc] at done⟩
  rw [iterate_step goesOn run less]
  exact run'

variable {phrase : List Token → α → Prop} {as : List α} {closing : List TokenKind}

/-- A loop whose rounds read one phrase each. It starts outside of enumerations, and so does each
    round. -/
theorem mends_many (add : β → α → β)
    (lowers : ∀ {s t : ParserState} {b b' : β}, s.ending.kind = .eof →
      continues s.current.kind = true → round b s = .ok b' t → t.remaining < s.remaining)
    (begins : ∀ {ts a}, phrase ts a → nextKind ts ∈ kinds)
    (ended : ∀ {ts a}, phrase ts a → Ended ts)
    (goesOn : ∀ k ∈ kinds, continues k = true ∧ k ∉ omissibleKinds ∧ k ≠ .eof)
    (stops : ∀ k ∈ closing, continues k = false)
    (each : ∀ {before ts a after} {b b' : β}, a ∈ as → phrase ts a → enclosure before = .outside →
      Leads (before ++ ts) after (kinds ++ closing) → e' b' = e' b →
      Mends e' (round b') before ts (add b a) after)
    (h : Many phrase ts as) (outside : enclosure before = .outside)
    (leads : Leads (before ++ ts) after closing) (same : e' b₁ = e' b) :
    Mends e' (iterate continues round b₁) before ts (as.foldl add b) after := by
  induction h generalizing before b b₁ with
  | nil => exact mends_iterate_nil (by simpa using leads) stops same
  | @cons ts us a as first more ih =>
    rw [← List.append_assoc] at leads
    -- Behind the phrase the next one begins, or the loop ends.
    have behind : Leads (before ++ ts) (us ++ after) (kinds ++ closing) := by
      cases more with
      | nil => exact Leads.mono (List.subset_append_right _ _) (by simpa using leads)
      | cons second =>
        refine Leads.mono (List.subset_append_left _ _) (leads_begins ?_ fun k hk => (goesOn k hk).2)
        exact nextKind_append_mem (begins second) (fun eof => (goesOn _ eof).2.2 rfl) _
    refine mends_iterate_cons lowers (leads_begins (begins first) fun k hk => (goesOn k hk).2)
      (fun k hk => (goesOn k hk).1) (each List.mem_cons_self first outside behind same) ?_
    exact fun b' same' => ih (fun mem => each (List.mem_cons_of_mem _ mem)) (ended first).outside
      leads same'

/-- A block of items with nothing between them. -/
theorem mends_items {resume : List TokenKind} [Uniform p] [Consumes p]
    (begins : ∀ {ts a}, phrase ts a → nextKind ts ∈ kinds)
    (ended : ∀ {ts a}, phrase ts a → Ended ts)
    (goesOn : ∀ k ∈ kinds, untilClosed k = true ∧ k ∉ omissibleKinds ∧ k ≠ .eof)
    (each : ∀ {before ts a after}, phrase ts a → enclosure before = .outside →
      Leads (before ++ ts) after (kinds ++ closers) → Mends e p before ts a after)
    (h : Many phrase ts as) (outside : enclosure before = .outside)
    (leads : Leads (before ++ ts) after closers) :
    Mends (List.map e) (iterate untilClosed (fun as => do
      let a ← recovering resume true p
      return as ++ a.toList) []) before ts as after := by
  rw [← List.nil_append as, ← foldl_snoc]
  refine mends_many _ ?_ begins ended goesOn (by decide) ?_ h outside leads rfl
  · exact eager_lowers (f := fun as a => pure (as ++ a.toList))
  · intro before ts a after as as' _ first outside leads same
    refine (mends_recovering (each first outside leads)).andThen fun o same' => mends_pure ?_
    obtain ⟨a', rfl, same''⟩ := Option.map_eq_some_iff.1 same'
    simp [same, same'']

end Iterate

end IdlFront.Parser
