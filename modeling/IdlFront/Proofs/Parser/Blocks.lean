import IdlFront.Proofs.Parser.Confinement

/-! # Blocks in braces

Every parser of a namespace body is confined to the block it starts in, since the blocks it opens
itself are read to their ends: the loop of a block never fails and stops at nothing but the brace
that closes it.

* `Total` — a parser that never fails.
* `BlockBody` — a loop that goes on up to the brace that closes its block, and no further.
* `Closer` — what follows the loop, from the closing brace on.
* The instances for the blocks of the language.
-/

namespace IdlFront.Parser

open IdlFront.ParserState

variable {α β γ : Type} {s t : ParserState} {r : Token} {R : List Token}

/-! ## Parsers that never fail -/

/-- A parser that gives a value in every state. -/
class Total (p : Parser α) : Prop where
  succeeds : ∀ s, ∃ a t, p s = .ok a t

instance total_bind (p : Parser α) (f : α → Parser β) [hp : Total p] [hf : ∀ a, Total (f a)] :
    Total (p >>= f) where
  succeeds s := by
    obtain ⟨a, t, first⟩ := hp.succeeds s
    obtain ⟨b, u, second⟩ := (hf a).succeeds t
    exact ⟨b, u, by rw [bind_apply, first]; exact second⟩

instance (p : Parser α) [hp : Total p] : Total (discard p) where
  succeeds s := by
    obtain ⟨a, t, run⟩ := hp.succeeds s
    exact ⟨(), t, by rw [discard_apply, run]⟩

instance (c : Prop) [Decidable c] (p q : Parser α) [Total p] [Total q] :
    Total (if c then p else q) := by
  split <;> infer_instance

instance (a : α) : Total (pure a : Parser α) := ⟨fun s => ⟨a, s, rfl⟩⟩

instance : Total current := ⟨fun _ => ⟨_, _, rfl⟩⟩

instance : Total advance := ⟨fun _ => ⟨_, _, rfl⟩⟩

instance (found : Token) (problem : Problem) : Total (report found problem) :=
  ⟨fun _ => ⟨_, _, rfl⟩⟩

instance (resume : List TokenKind) : Total (synchronize resume) := ⟨fun _ => ⟨_, _, rfl⟩⟩

instance (kinds : List TokenKind) : Total (check kinds) := by unfold check; infer_instance

instance (kind : TokenKind) : Total (accept kind) := by unfold accept; infer_instance

instance (kind : TokenKind) : Total (expectOrReport kind) := by
  unfold expectOrReport; infer_instance

instance (resume : List TokenKind) (eager : Bool) (item : Parser α) :
    Total (recovering resume eager item) where
  succeeds s := by
    rw [recovering_apply]
    split
    · exact ⟨_, _, rfl⟩
    · exact ⟨_, _, rfl⟩

instance (continues : TokenKind → Bool) (round : β → Parser β) (b : β) [hr : ∀ b, Total (round b)] :
    Total (iterate continues round b) where
  succeeds s := by
    apply iterate_induction (motive := fun _ _ r => ∃ b t, r = .ok b t)
    case ended => exact fun b s _ => ⟨b, s.looked, rfl⟩
    case last => exact fun _ _ b' t _ _ _ => ⟨b', t, rfl⟩
    case step => exact fun _ _ _ _ _ _ _ ih => ih
    case failed =>
      intro b s d t _ refused
      obtain ⟨b', t', run⟩ := (hr b).succeeds s.looked
      rw [run] at refused
      cases refused

instance (tree : IdlFile) : Total (topLevelRound tree) := by unfold topLevelRound; infer_instance

instance : Total file := by unfold file; infer_instance

/-- What is parsed of a source is what the parser of files gives there. -/
theorem file_source (source : String) :
    ∃ t, file (.initial (.ofSource source)) = .ok (parse source).tree t ∧
      (parse source).diagnostics = t.log.toList := by
  obtain ⟨tree, t, run⟩ := Total.succeeds (p := file) (.initial (.ofSource source))
  have result : parse source = ⟨tree, t.log.toList⟩ := by
    simp only [parse, parseStream, run, ParserState.run]
  rw [result]
  exact ⟨t, run, rfl⟩

/-! ## Loops of blocks -/

/-- A loop that never fails, stays in its block and stops only where the block may end. -/
class BlockBody (loop : Parser β) : Prop where
  confined : Confined loop
  total : Total loop
  ends : ∀ {s t : ParserState} {b : β}, s.ending.kind = .eof → loop s = .ok b t →
    untilClosed t.current.kind = false

/-- A loop of rounds that all consume something, and keep inside the block if they do not start at
    its closing brace. -/
theorem blockBody_iterate {round : β → Parser β} {b : β} [∀ b, Uniform (round b)]
    [∀ b, Total (round b)]
    (inside : ∀ b (t : Token), untilClosed t.kind = true → Holds (keeps insideBlock) (some t) (round b))
    (lowers : ∀ {s t : ParserState} {b b' : β}, s.ending.kind = .eof →
      untilClosed s.current.kind = true → round b s = .ok b' t → t.remaining < s.remaining) :
    BlockBody (iterate untilClosed round b) where
  confined := holds_iterate inside b
  total := inferInstance
  ends ended run := by
    obtain ⟨u, -, ends, rfl⟩ := iterate_ends lowers ended run
    rwa [u.current_looked]

/-- In its block such a loop goes up to the closing brace. -/
theorem BlockBody.reaches_close {loop : Parser β} [h : BlockBody loop] (inside : Within r R s) :
    ∃ b t, loop s = .ok b t ∧ t.Plain ∧ t.tokens = r :: R := by
  obtain ⟨b, t, run⟩ := h.total.succeeds s
  have there := h.confined.ok inside run
  exact ⟨b, t, run, there.plain, there.tokens_of_ended (h.ends inside.plain.endIsEof run)⟩

/-- What is run at the brace that closes a block stays in the block around it. -/
class Closer (p : Parser α) : Prop where
  closes : ∀ {r R s c C}, s.Plain → c.kind = .punct .rbrace → r.kind = .punct .rbrace →
    Closes 0 C → s.tokens = c :: C ++ r :: R → Within r R (p.after s)

instance {q : Parser α} [hq : Confined q] :
    Closer (do expectOrReport (.punct .rbrace); q) where
  closes {r R s c C} plain close close' hC tokens := by
    obtain ⟨t, run⟩ := accepts_expectOrReport close s plain rfl (show s.tokens = [c] ++ _ from tokens)
    have eq : (do expectOrReport (.punct .rbrace); q).after s = q.after t := by
      refine after_congr ?_
      rw [bind_apply, run.result]
    rw [eq]
    exact hq.confined ⟨run.moves.plainAfter, close', C, hC, run.moves.rest tokens⟩

instance {f : Token → Parser α} [hf : ∀ t, Closer (f t)] : Closer (current >>= f) where
  closes {_ _ s _ _} plain close close' hC tokens :=
    (hf s.current).closes plain.looked close close' hC (by rw [tokens_looked, tokens])

instance {found : Token} {problem : Problem} {q : Parser α} [hq : Closer q] :
    Closer (do report found problem; q) where
  closes plain close close' hC tokens :=
    hq.closes (plain.moves_reported _).plainAfter close close' hC tokens

instance (c : Prop) [Decidable c] (p q : Parser α) [Closer p] [Closer q] :
    Closer (if c then p else q) := by
  split <;> infer_instance

/-- A block that opens inside another one is read to its end. -/
theorem confined_block {loop : Parser β} {k : β → Parser γ} [h : BlockBody loop]
    [hk : ∀ b, Closer (k b)] :
    Confined (do discard (expect (.punct .lbrace)); let b ← loop; k b) := by
  refine confined_of fun {r R s} inside _ => ?_
  -- A block that does not open is refused at its first token, and nothing is consumed.
  by_cases open_ : s.current.kind = .punct .lbrace
  · obtain tokens | ⟨l, B, tokens, rfl, hB⟩ := inside.current
    · have close := inside.close
      rw [s.current_eq, tokens, List.headD_cons, close] at open_
      cases open_
    have deeper := hB.2
    rw [open_] at deeper
    -- The brace that opens here is closed before the block around it ends.
    obtain ⟨inner, c, rest, rfl, hinner, hc, hrest⟩ := Closes.split deeper
    obtain ⟨t, run⟩ := accepts_expect open_ s inside.plain rfl
      (show s.tokens = [s.current] ++ (inner ++ c :: rest ++ r :: R) from tokens)
    have next : t.tokens = inner ++ c :: (rest ++ r :: R) := by
      rw [run.moves.rest tokens]
      simp
    -- The loop stays inside that brace, so it stops right in front of it.
    obtain ⟨b, u, loopRun, plain, closing⟩ :=
      h.reaches_close (⟨run.moves.plainAfter, hc, inner, hinner, next⟩ : Within c _ t)
    have eq : (do discard (expect (.punct .lbrace)); let b ← loop; k b).after s =
        (k b).after u := by
      refine after_congr ?_
      rw [bind_apply, discard_apply, run.result]
      simp only [bind_apply, loopRun]
    rw [eq]
    exact (hk b).closes plain hc inside.close hrest closing
  · obtain ⟨d, refused⟩ : ∃ d, expect (.punct .lbrace) s = .error d s.looked.looked := by
      refine ⟨s.looked.current.report (.expected [.punct .lbrace] s.looked.current), ?_⟩
      unfold expect
      rw [bind_apply]
      simp only [current, if_neg open_]
      rfl
    have result : (do discard (expect (.punct .lbrace)); let b ← loop; k b : Parser γ) s =
        .error d s.looked.looked := by
      rw [bind_apply, discard_apply, refused]
    rw [after_error result]
    exact inside.looked.looked

/-! ## The parsers of the language -/

instance : Confined (synchronize enumResume) := confined_synchronize (by decide)

instance : Confined (synchronize blockResume) := confined_synchronize (by decide)

/-! ## The loops of the language -/

theorem remaining_pos_of_goesOn (ended : s.ending.kind = .eof)
    (goesOn : untilClosed s.current.kind = true) : 0 < s.remaining := by
  refine remaining_pos ended fun eof => ?_
  rw [eof] at goesOn
  exact absurd goesOn (by decide)

section Eager

variable {resume : List TokenKind} {item : Parser α} {f : β → Option α → Parser β} {b : β}

/-- A round with an item of an eager list consumes something. -/
theorem eager_lowers [Uniform item] [Consumes item] [∀ b o, Uniform (f b o)] {s t : ParserState}
    {b b' : β} (ended : s.ending.kind = .eof) (goesOn : untilClosed s.current.kind = true)
    (run : (recovering resume true item >>= f b) s = .ok b' t) : t.remaining < s.remaining := by
  obtain ⟨o, u, first, second⟩ := bind_ok run
  exact Nat.lt_of_le_of_lt (reaches_ok second).remaining_le
    (recovering_lowers ended (remaining_pos_of_goesOn ended goesOn) first)

/-- A loop of items of an eager list. -/
theorem blockBody_eager [Uniform item] [Consumes item] [Confined item]
    [∀ b o, Uniform (f b o)] [∀ b o, Total (f b o)] [hf : ∀ b o, Confined (f b o)]
    (stops : .punct .rbrace ∈ resume) (noBlock : .punct .lbrace ∉ resume) :
    BlockBody (iterate untilClosed (fun b => recovering resume true item >>= f b) b) := by
  refine blockBody_iterate (fun b t goesOn => ?_) eager_lowers
  have : Holds (keeps insideBlock) (some t) (recovering resume true item) :=
    confined_recovering stops noBlock goesOn
  infer_instance

end Eager

instance : BlockBody structFields :=
  blockBody_eager (f := fun fields field => pure (fields ++ field.toList)) (by decide) (by decide)

instance : Total memberSeparator := by unfold memberSeparator; infer_instance

/-- A round of members consumes something: an item that fails at its first token has met a comma,
    which the separator takes. -/
theorem enumMemberRound_lowers {before after : List EnumMember} (ended : s.ending.kind = .eof)
    (goesOn : untilClosed s.current.kind = true) (run : enumMemberRound before s = .ok after t) :
    t.remaining < s.remaining := by
  have more := remaining_pos_of_goesOn ended goesOn
  obtain ⟨o, u, first, second⟩ := bind_ok run
  obtain ⟨_, v, separator, result⟩ := bind_ok second
  cases result
  rw [recovering_apply] at first
  cases hm : enumMember s with
  | ok member w =>
    rw [hm] at first
    cases first
    exact Nat.lt_of_le_of_lt (reaches_ok separator).remaining_le (Consumes.lowers ended hm)
  | error d w =>
    rw [hm] at first
    cases first
    have failed : s.Reaches (w.reported d) := (reaches_error hm).tail (.report w d)
    generalize w.reported d = w at failed separator
    have kept : w.resumed enumResume false s.stream.consumed =
        w.skipped (syncLength enumResume 0 w.tokens) := by simp [resumed]
    rw [kept] at separator
    have last := (reaches_ok separator).remaining_le
    -- If skipping lowers nothing, it stopped at once, and at a token that the list resumes at.
    by_cases less : (w.skipped (syncLength enumResume 0 w.tokens)).remaining < s.remaining
    · omega
    have reaches := failed.trans (reaches_skipped (syncLength enumResume 0 w.tokens) w)
    have comma : s.current.kind = .punct .comma := by
      refine Classical.byContradiction fun other => ?_
      refine less (remaining_skipped_lt failed more fun stop => ?_)
      rcases List.mem_cons.1 stop with eq | eq
      · exact other eq
      · rw [List.mem_singleton.1 eq] at goesOn
        exact absurd goesOn (by decide)
    generalize w.skipped (syncLength enumResume 0 w.tokens) = v at separator last less reaches
    -- Nothing has been consumed, so the separator meets the same comma and takes it.
    rw [← Reaches.current reaches less] at comma
    obtain ⟨found, x, accepted, rest⟩ := bind_ok separator
    rw [accept_apply, if_pos comma] at accepted
    cases accepted
    cases rest
    have := remaining_advanced v.looked
    rw [remaining_looked] at this
    have := Reaches.remaining_le reaches
    omega

instance (members : List EnumMember) : Total (enumMemberRound members) := by
  unfold enumMemberRound; infer_instance

instance : BlockBody enumMembers := by
  refine blockBody_iterate (fun members t goesOn => ?_) enumMemberRound_lowers
  have : Holds (keeps insideBlock) (some t) (recovering enumResume false enumMember) :=
    confined_recovering (by decide) (by decide) goesOn
  unfold enumMemberRound
  infer_instance

instance (start : Token) (attributes : List Attribute) : Confined (enumDecl start attributes) := by
  have block : ∀ name : Token, Confined (do
      discard (expect (.punct .lbrace))
      let members ← enumMembers
      expectOrReport (.punct .rbrace)
      return ⟨name.value, members, attributes, ← spanFrom start⟩ : Parser EnumDecl) :=
    fun name => confined_block
  unfold enumDecl
  infer_instance

instance (start : Token) (attributes : List Attribute) :
    Confined (structDecl start attributes) := by
  have block : ∀ name : Token, Confined (do
      discard (expect (.punct .lbrace))
      let fields ← structFields
      expectOrReport (.punct .rbrace)
      return ⟨name.value, fields, attributes, ← spanFrom start⟩ : Parser StructDecl) :=
    fun name => confined_block
  unfold structDecl
  infer_instance

instance (before : List Accessor) : Total (accessor before) := by
  unfold accessor
  refine @total_bind _ _ _ _ _ fun t => ?_
  cases accessorOf? t <;> infer_instance

theorem accessor_lowers {before after : List Accessor} (ended : s.ending.kind = .eof)
    (goesOn : untilClosed s.current.kind = true) (run : accessor before s = .ok after t) :
    t.remaining < s.remaining := by
  have more := remaining_pos_of_goesOn ended goesOn
  obtain ⟨_, _, look, run⟩ := bind_ok run
  cases look
  -- Without an accessor the round skips; with one it takes the token that names it.
  cases ha : accessorOf? s.current with
  | none =>
    simp only [ha] at run
    obtain ⟨_, _, told, run⟩ := bind_ok run
    cases told
    obtain ⟨_, _, skipped, run⟩ := bind_ok run
    cases skipped
    cases run
    refine remaining_skipped_lt (.tail (.tail .refl (.look s)) (.report _ _)) more fun stop => ?_
    rw [List.mem_singleton.1 stop] at goesOn
    exact absurd goesOn (by decide)
  | some a =>
    simp only [ha] at run
    obtain ⟨_, _, taken, run⟩ := bind_ok run
    cases taken
    have less := remaining_advanced s.looked
    rw [remaining_looked] at less
    have := (reaches_ok run).remaining_le
    omega

instance : BlockBody (iterate untilClosed accessor []) :=
  blockBody_iterate (fun _ _ _ => inferInstance) accessor_lowers

instance : Confined accessors := confined_block

instance : BlockBody interfaceMembers :=
  blockBody_eager (f := fun members member => pure (members ++ member.toList)) (by decide)
    (by decide)

instance (start : Token) (attributes : List Attribute) :
    Confined (interfaceDecl start attributes) := by
  have block : ∀ (name : Token) (bases : List TypeRef), Confined (do
      discard (expect (.punct .lbrace))
      let members ← interfaceMembers
      expectOrReport (.punct .rbrace)
      return ⟨name.value, bases, members, attributes, ← spanFrom start⟩ : Parser InterfaceDecl) :=
    fun name bases => confined_block
  unfold interfaceDecl
  infer_instance

/-- What a round of a body does behind its declaration, which depends on whether there was one. -/
def addFound (ds : List Declaration) : Option Declaration → Parser (List Declaration)
  | some d => do discard (accept (.punct .semicolon)); return ds ++ [d]
  | none => return ds

instance (ds : List Declaration) (o : Option Declaration) : Uniform (addFound ds o) := by
  cases o <;> (unfold addFound; infer_instance)

instance (ds : List Declaration) (o : Option Declaration) : Total (addFound ds o) := by
  cases o <;> (unfold addFound; infer_instance)

instance (ds : List Declaration) (o : Option Declaration) : Confined (addFound ds o) := by
  cases o <;> (unfold addFound; infer_instance)

section Namespace

variable (inner : Parser Declaration) [Uniform inner] [Consumes inner] [Confined inner]

instance : BlockBody (declarations inner) :=
  blockBody_eager (f := addFound) (by decide) (by decide)

instance (start : Token) (attributes : List Attribute) :
    Confined (namespacePhrase inner start attributes) := by
  have block : ∀ name : List String, Confined (do
      discard (expect (.punct .lbrace))
      let ds ← declarations inner
      expectOrReport (.punct .rbrace)
      return ⟨name, ds, attributes, ← spanFrom start⟩ : Parser Namespace) :=
    fun name => confined_block
  unfold namespacePhrase
  infer_instance

instance (start : Token) (attributes : List Attribute) :
    Confined (declarationBody inner start attributes) := by
  unfold declarationBody
  refine @holds_current _ _ _ _ fun t => ?_
  split <;> infer_instance

instance : Confined (declarationPhrase inner) := by
  unfold declarationPhrase; infer_instance

end Namespace

theorem declaration_apply (s : ParserState) : declaration s =
    declarationPhrase (limited s.remaining (unexpected declarationKeywords) declaration) s :=
  nested_apply _ _ s

instance (n : Nat) : Uniform (limited n (unexpected declarationKeywords) declaration) :=
  .limited_nested _ _ (fun _ _ => inferInstance) n

theorem confined_inner (n : Nat) (_ : Confined (limited n (unexpected declarationKeywords) declaration)) :
    Confined (declarationPhrase (limited n (unexpected declarationKeywords) declaration)) :=
  inferInstance

instance (n : Nat) : Confined (limited n (unexpected declarationKeywords) declaration) :=
  holds_limited_nested _ _ confined_inner n

instance : Confined declaration := holds_nested _ _ confined_inner

end IdlFront.Parser
