import IdlFront.Proofs.Parser.Termination

/-! # Recovery makes headway

A list skips to a token at which it can go on. Each of these is a token that an item of the list
takes, or the brace at which the list ends, so that a list never stops twice at one token and the
token that an eager list would drop is never dropped.

* `ConsumesAt` — a parser that takes a token of a kind, whether it gives up behind it or not.
* `remaining_resumed_lt` — skipping behind an item that has failed.
* `syncLength_closes` — what is skipped in a block closes the braces it opens.
* `LoopsOnward`, `NeverDrops` — loops that consume something in every round, and items behind which
  no token is dropped.
* `parseTokens_headway` — the loops of the language are such.
-/

namespace IdlFront.Parser

open IdlFront.ParserState

variable {α β : Type} {p : Parser α} {kind : TokenKind} {s t : ParserState} {d : Diagnostic}

/-! ## Items that take a token -/

/-- A parser that consumes something where the next token is of this kind, also if it gives up. -/
def ConsumesAt (kind : TokenKind) (p : Parser α) : Prop :=
  ∀ s : ParserState, s.ending.kind = .eof → s.current.kind = kind →
    (p.after s).remaining < s.remaining

theorem ConsumesAt.bind {f : α → Parser β} [∀ a, Uniform (f a)] (h : ConsumesAt kind p) :
    ConsumesAt kind (p >>= f) := by
  intro s ended eq
  have less := h s ended eq
  cases run : p s with
  | error d t =>
    rw [after_error run] at less
    rwa [after_error (show (p >>= f) s = .error d t by rw [bind_apply, run])]
  | ok a t =>
    rw [after_ok run] at less
    rw [after_congr (show (p >>= f) s = f a t by rw [bind_apply, run])]
    exact Nat.lt_of_le_of_lt ((f a).reaches t).remaining_le less

theorem ConsumesAt.map {f : α → β} (h : ConsumesAt kind p) : ConsumesAt kind (f <$> p) := by
  intro s ended eq
  have less := h s ended eq
  unfold after at less ⊢
  rw [map_apply]
  cases run : p s <;> rwa [run] at less

/-- A step that looks at the next token and leaves it. -/
theorem ConsumesAt.behind {f : α → Parser β} {a : α}
    (look : ∀ s, s.current.kind = kind → p s = .ok a s.looked) (h : ConsumesAt kind (f a)) :
    ConsumesAt kind (p >>= f) := by
  intro s ended eq
  have less := h s.looked (by rwa [ending_looked]) (by rwa [s.current_looked])
  rw [remaining_looked] at less
  rwa [after_congr (show (p >>= f) s = f a s.looked by rw [bind_apply, look s eq])]

theorem consumesAt_current {f : Token → Parser β} (h : ∀ t, t.kind = kind → ConsumesAt kind (f t)) :
    ConsumesAt kind (current >>= f) := by
  intro s ended eq
  have less := h s.current eq s.looked (by rwa [ending_looked]) (by rwa [s.current_looked])
  rwa [remaining_looked] at less

theorem consumesAt_advance (more : kind ≠ .eof) : ConsumesAt kind advance := by
  intro s ended eq
  have pos := remaining_pos ended (by rw [eq]; exact more)
  have less := remaining_advanced s
  show s.advanced.remaining < s.remaining
  omega

theorem consumesAt_expect (more : kind ≠ .eof) : ConsumesAt kind (expect kind) :=
  consumesAt_current fun t eq => by
    rw [if_pos eq]
    exact consumesAt_advance more

theorem consumesAt_discardExpect (more : kind ≠ .eof) :
    ConsumesAt kind (discard (expect kind)) := (consumesAt_expect more).map

theorem consumesAt_attributeLists : ConsumesAt (.punct .lbracket) attributeLists := by
  have uniform : ∀ attributes, Uniform (attributeListRound attributes) := by
    intro attributes
    unfold attributeListRound
    infer_instance
  have round : ConsumesAt (.punct .lbracket) (attributeListRound []) :=
    (consumesAt_advance (by decide)).bind
  intro s ended eq
  have more : (s.current.kind == .punct .lbracket) = true := by simp [eq]
  have less := round s.looked (by rwa [ending_looked]) (by rwa [s.current_looked])
  rw [remaining_looked] at less
  show ((iterate _ attributeListRound []).after s).remaining < _
  cases run : attributeListRound [] s.looked with
  | error d t =>
    rw [after_error run] at less
    rwa [after_error (iterate_error more run)]
  | ok attributes t =>
    rw [after_ok run] at less
    rw [after_congr (iterate_step more run less)]
    exact Nat.lt_of_le_of_lt ((iterate _ attributeListRound attributes).reaches t).remaining_le less

/-- Where no bracket opens there are no attributes. -/
theorem ConsumesAt.behindAttributes {f : List Attribute → Parser β} (h : ConsumesAt kind (f []))
    (none : kind ≠ .punct .lbracket) : ConsumesAt kind (attributeLists >>= f) :=
  .behind (fun _ eq => iterate_end (by simp [eq, none])) h

/-! ## The items of the language -/

set_option synthInstance.maxSize 100000

theorem consumesAt_topLevel : ∀ kind ∈ topLevelResume, ConsumesAt kind topLevel := by
  have look (kinds) (kind) : ∀ s : ParserState, s.current.kind = kind →
      check kinds s = .ok (kinds.contains kind) s.looked := by
    rintro s rfl
    rfl
  intro kind mem
  obtain rfl | rfl | rfl : kind = .keyword .namespace_ ∨ kind = .keyword .import_ ∨
      kind = .punct .lbracket := by simpa [topLevelResume] using mem
  · refine consumesAt_current fun start eq => ?_
    rw [if_neg (by simp [eq])]
    refine .behindAttributes (.behind (look _ _) ?_) (by decide)
    rw [if_pos (by decide)]
    exact (consumesAt_discardExpect (by decide)).bind.bind
  · refine consumesAt_current fun start eq => ?_
    rw [if_pos eq]
    exact (consumesAt_expect (by decide)).bind.bind
  · refine consumesAt_current fun start eq => ?_
    rw [if_neg (by simp [eq])]
    exact consumesAt_attributeLists.bind

theorem consumesAt_declarationBody {inner : Parser Declaration} [Uniform inner] {start : Token}
    {attributes : List Attribute} :
    ∀ kind ∈ declarationKeywords, ConsumesAt kind (declarationBody inner start attributes) := by
  intro kind mem
  obtain rfl | rfl | rfl | rfl | rfl : kind = .keyword .namespace_ ∨ kind = .keyword .enum ∨
      kind = .keyword .struct ∨ kind = .keyword .delegate ∨ kind = .keyword .interface := by
    simpa [declarationKeywords] using mem
  -- Each keyword is the first thing that its declaration expects.
  all_goals
    refine consumesAt_current fun t eq => ?_
    simp only [eq]
    exact (consumesAt_discardExpect (by decide)).bind.map

theorem consumesAt_declaration :
    ∀ kind ∈ bodyResume, untilClosed kind = true → ConsumesAt kind declaration := by
  intro kind mem goesOn s ended eq
  rw [after_congr (declaration_unfold ended)]
  refine consumesAt_current (fun start eq => ?_) s ended eq
  obtain keyword | rest := List.mem_append.1 mem
  · have none : kind ≠ .punct .lbracket := ne_of_mem_of_not_mem keyword (by decide)
    exact .behindAttributes (consumesAt_declarationBody kind keyword) none
  obtain rfl | rfl : kind = .punct .lbracket ∨ kind = .punct .rbrace := by simpa using rest
  · exact consumesAt_attributeLists.bind
  · exact absurd goesOn (by decide)

theorem consumesAt_interfaceMember :
    ∀ kind ∈ interfaceResume, untilClosed kind = true → ConsumesAt kind interfaceMember := by
  intro kind mem goesOn
  obtain rfl | rfl : kind = .punct .rbrace ∨ kind = .punct .lbracket := by
    simpa [interfaceResume] using mem
  · exact absurd goesOn (by decide)
  · exact consumesAt_current fun start _ => consumesAt_attributeLists.bind

/-- Fields are skipped up to a brace only, and there the list ends. -/
theorem consumesAt_structField :
    ∀ kind ∈ blockResume, untilClosed kind = true → ConsumesAt kind structField := by
  intro kind mem goesOn
  rw [List.mem_singleton.1 mem] at goesOn
  exact absurd goesOn (by decide)

/-! ## Skipping behind an item -/

/-- Where skipping has moved on, nothing more is dropped. -/
theorem recovering_resumed (resume : List TokenKind) (item : Parser α) (run : item s = .error d t)
    (moved : ((t.reported d).skipped (syncLength resume 0 t.tokens)).stream.consumed ≠
      s.stream.consumed) :
    recovering resume true item s =
      .ok none ((t.reported d).skipped (syncLength resume 0 t.tokens)) := by
  rw [recovering_apply, run]
  simp only [resumed]
  rw [if_neg fun drop => moved drop.2.1]
  rfl

section Recovering

variable {continues : TokenKind → Bool} {resume : List TokenKind} {item : Parser α} [Uniform item]

/-- Behind an item that has failed, skipping ends behind the token that the item started at, if it
    takes every token at which the list goes on. -/
theorem remaining_resumed_lt
    (takes : ∀ kind ∈ resume, continues kind = true → ConsumesAt kind item)
    (ended : s.ending.kind = .eof) (more : 0 < s.remaining)
    (goesOn : continues s.current.kind = true) (run : item s = .error d t) :
    ((t.reported d).skipped (syncLength resume 0 t.tokens)).remaining < s.remaining := by
  have failed : s.Reaches (t.reported d) := (reaches_error run).tail (.report t d)
  by_cases stops : s.current.kind ∈ resume
  · have less := takes _ stops goesOn s ended rfl
    rw [after_error run] at less
    exact Nat.lt_of_le_of_lt (reaches_skipped _ (t.reported d)).remaining_le less
  · exact remaining_skipped_lt failed more stops

end Recovering

/-- What is skipped in a block closes the braces it opens, unless the input ends in them. -/
theorem syncLength_closes {resume : List TokenKind} (stops : .punct .rbrace ∈ resume) (depth : Nat)
    (ts : List Token) : Closes depth (ts.take (syncLength resume depth ts)) ∨
      ts.drop (syncLength resume depth ts) = [] := by
  induction ts generalizing depth with
  | nil => exact .inr rfl
  | cons t ts ih =>
    rw [syncLength]
    split
    · next semicolon =>
      left
      rw [semicolon.1, List.take_succ_cons, List.take_zero, Closes, Closes, semicolon.2]
      exact ⟨(by decide), rfl⟩
    split
    · next stop =>
      left
      rw [stop.1]
      rfl
    · next inside =>
      refine (ih (depthAfter depth t.kind)).imp (fun closes => ⟨fun close => ?_, closes⟩) id
      refine Nat.pos_of_ne_zero fun outside => inside ⟨outside, ?_⟩
      rw [close]
      exact stops

/-! ## Loops that move on -/

/-- From wherever the loop is entered it runs its rounds to the end, and from wherever it goes on a
    round gives a value and consumes something. -/
structure LoopsOnward (start : ParserState) (continues : TokenKind → Bool) (round : β → Parser β)
    (first : β) (loop : Parser β) : Prop where
  rounds : ∀ s, start.Reaches s → Rounds continues round first s (loop s)
  onward : ∀ s b, start.Reaches s → continues s.current.kind = true →
    ∃ b' t, round b s = .ok b' t ∧ s.stream.consumed < t.stream.consumed

/-- Where an item of an eager list fails, the list goes on where skipping ends. By then something has
    been consumed, all of it by the item or by skipping, so no token is dropped; and skipping leaves
    no brace of the block open. -/
def NeverDrops (start : ParserState) (continues : TokenKind → Bool) (resume : List TokenKind)
    (item : Parser α) : Prop :=
  ∀ s t d, start.Reaches s → continues s.current.kind = true → item s = .error d t →
    let u := (t.reported d).skipped (syncLength resume 0 t.tokens)
    let skipped := t.tokens.take (syncLength resume 0 t.tokens)
    recovering resume true item s = .ok none u ∧ s.stream.consumed < u.stream.consumed ∧
      (∃ own, s.tokens = own ++ t.tokens) ∧ t.tokens = skipped ++ u.tokens ∧
      (.punct .rbrace ∈ resume → Closes 0 skipped ∨ u.tokens = [])

/-- Every loop moves on, and no item makes its list drop a token. Declarations in a nested namespace
    are read by the same loop as those outside. -/
structure Headway (start : ParserState) : Prop where
  file : LoopsOnward start (· != .eof) topLevelRound .empty file
  declarations : LoopsOnward start untilClosed (declarationRound declaration) []
    (declarations declaration)
  enumMembers : LoopsOnward start untilClosed enumMemberRound [] enumMembers
  structFields : LoopsOnward start untilClosed structFieldRound [] structFields
  interfaceMembers : LoopsOnward start untilClosed interfaceMemberRound [] interfaceMembers
  accessors : LoopsOnward start untilClosed accessor [] (iterate untilClosed accessor [])
  topLevel : NeverDrops start (· != .eof) topLevelResume topLevel
  declaration : NeverDrops start untilClosed bodyResume declaration
  structField : NeverDrops start untilClosed blockResume structField
  interfaceMember : NeverDrops start untilClosed interfaceResume interfaceMember
  nested : ∀ s, start.Reaches s → Parser.declaration s = declarationPhrase Parser.declaration s

section Headway

variable {start : ParserState} (ended : start.ending.kind = .eof)

include ended

theorem loopsOnward {continues : TokenKind → Bool} {round : β → Parser β} {first : β} {loop : Parser β}
    [∀ b, Uniform (round b)] [hr : ∀ b, Total (round b)]
    (rounds : ∀ s : ParserState, s.ending.kind = .eof → Rounds continues round first s (loop s))
    (lowers : ∀ {s t : ParserState} {b b' : β}, s.ending.kind = .eof →
      continues s.current.kind = true → round b s = .ok b' t → t.remaining < s.remaining) :
    LoopsOnward start continues round first loop where
  rounds s reached := rounds s (by rwa [reached.ending])
  onward s b reached more := by
    obtain ⟨b', t, run⟩ := (hr b).succeeds s
    have less := lowers (by rwa [reached.ending]) more run
    have all := (reaches_ok run).consumed
    exact ⟨b', t, run, by omega⟩

theorem neverDrops {continues : TokenKind → Bool} {resume : List TokenKind} {item : Parser α}
    [Uniform item] (ends : continues .eof = false)
    (takes : ∀ kind ∈ resume, continues kind = true → ConsumesAt kind item) :
    NeverDrops start continues resume item := by
  intro s t d reached goesOn run u skipped
  have ended : s.ending.kind = .eof := by rwa [reached.ending]
  have more := remaining_pos ended fun eof => by simp [eof, ends] at goesOn
  have less := remaining_resumed_lt takes ended more goesOn run
  have failed : s.Reaches (t.reported d) := (reaches_error run).tail (.report t d)
  have all := Reaches.consumed (failed.trans (reaches_skipped (syncLength resume 0 t.tokens) _))
  have moved : s.stream.consumed < u.stream.consumed := by
    show _ < ((t.reported d).skipped _).stream.consumed
    omega
  have left : u.tokens = t.tokens.drop (syncLength resume 0 t.tokens) := tokens_skipped _ (t.reported d)
  obtain ⟨own, eq⟩ := (reaches_error run).tokens
  refine ⟨recovering_resumed resume item run (by omega), moved, ⟨own, eq.symm⟩, ?_, fun stops => ?_⟩
  · rw [left, List.take_append_drop]
  · rw [left]
    exact syncLength_closes stops 0 t.tokens

theorem headway : Headway start where
  file := loopsOnward ended proceeds.file topLevelRound_lowers
  declarations := by
    have total : ∀ ds, Total (declarationRound Parser.declaration ds) := fun ds =>
      total_bind _ (addFound ds)
    exact loopsOnward ended proceeds.declarations declarationRound_lowers
  enumMembers := loopsOnward ended proceeds.enumMembers enumMemberRound_lowers
  structFields := by
    have uniform : ∀ fields, Uniform (structFieldRound fields) := fun fields => by
      unfold structFieldRound; infer_instance
    have total : ∀ fields, Total (structFieldRound fields) := fun fields => by
      unfold structFieldRound; infer_instance
    exact loopsOnward ended proceeds.structFields
      (eager_lowers (f := fun fields field => pure (fields ++ field.toList)))
  interfaceMembers := by
    have uniform : ∀ members, Uniform (interfaceMemberRound members) := fun members => by
      unfold interfaceMemberRound; infer_instance
    have total : ∀ members, Total (interfaceMemberRound members) := fun members => by
      unfold interfaceMemberRound; infer_instance
    exact loopsOnward ended proceeds.interfaceMembers
      (eager_lowers (f := fun members member => pure (members ++ member.toList)))
  accessors := loopsOnward ended proceeds.accessors accessor_lowers
  topLevel := neverDrops ended rfl fun kind stops _ => consumesAt_topLevel kind stops
  declaration := neverDrops ended rfl consumesAt_declaration
  structField := neverDrops ended rfl consumesAt_structField
  interfaceMember := neverDrops ended rfl consumesAt_interfaceMember
  nested s reached := declaration_unfold (by rwa [reached.ending])

end Headway

/-- However a list of tokens is parsed, every round of every loop consumes something, and recovery
    never drops a token to get on. -/
theorem parseTokens_headway (ts : List Token) : Headway (initial (.ofTokens ts)) :=
  headway (last_ofArrivals _).1

end IdlFront.Parser
