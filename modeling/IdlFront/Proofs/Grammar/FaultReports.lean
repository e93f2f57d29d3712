import IdlFront.Proofs.Grammar.DeclarationCompleteness
import IdlFront.Proofs.Grammar.Faults
import IdlFront.Proofs.Parser.Blocks

/-! # Parsers get over faults

A parser that meets a phrase with faults reads it to its end, makes the reports of the faults and no
others, and gives the node of what is left.

* `Interspersed.reports` — a list whose items may report, with regions among them.
* The lemmas for the productions, up to `Faulty.IsFile.reports`.
-/

namespace IdlFront.Grammar

open IdlFront.Parser IdlFront.ParserState

variable {α β : Type} {stop : Int} {ts us rest : List Token} {ds : List Diagnostic} {d : Diagnostic}
  {first : Token}

/-! ## What phrases cannot begin with -/

theorem segments_fails (ne : first.kind ≠ .identifier) :
    Fails segments stop [] (first.report (.expected [.identifier] first)) (first :: rest) :=
  (fails_expect ne).bind.bind

theorem typeRef_fails (ne : first.kind ∉ typeBeginnings) :
    Fails typeRef stop [] (first.report (.expected [.identifier] first)) (first :: rest) := by
  simp only [typeBeginnings, List.mem_cons, List.not_mem_nil, or_false, not_or] at ne
  refine fails_nested fun inner => accepts_current.before_fails ?_
  have notVoid : Accepts (accept (.keyword .void)) stop [] false (first :: rest) :=
    accepts_accept_not ne.2
  exact notVoid.before_fails (segments_fails ne.1).bind.bind

theorem attributeLists_none (ne : first.kind ≠ .punct .lbracket) :
    Accepts attributeLists stop [] [] (first :: rest) :=
  attributeLists_complete (@AreAttributes.mk [] [] .nil) ne

theorem enumMember_fails (name : first.kind ≠ .identifier)
    (bracket : first.kind ≠ .punct .lbracket) :
    Fails enumMember stop [] (first.report (.expected [.identifier] first)) (first :: rest) :=
  accepts_current.before_fails ((attributeLists_none bracket).before_fails (fails_expect name).bind)

theorem structField_fails (ne : first.kind ∉ typeBeginnings) :
    Fails structField stop [] (first.report (.expected [.identifier] first)) (first :: rest) :=
  accepts_current.before_fails (typeRef_fails ne).bind

theorem interfaceMember_fails (ne : first.kind ∉ .punct .lbracket :: memberBeginnings) :
    Fails interfaceMember stop [] (first.report (.expected [.identifier] first))
      (first :: rest) := by
  obtain ⟨bracket, ne⟩ := not_or.1 (mt List.mem_cons.2 ne)
  obtain ⟨event, type⟩ := not_or.1 (mt List.mem_cons.2 ne)
  have notEvent : Accepts (accept (.keyword .event)) stop [] false (first :: rest) :=
    accepts_accept_not event
  exact accepts_current.before_fails ((attributeLists_none bracket).before_fails
    (notEvent.before_fails (typeRef_fails type).bind))

theorem declaration_fails (ne : first.kind ∉ .punct .lbracket :: declarationKeywords) :
    Fails declaration stop [] (first.report (.expected declarationKeywords first))
      (first :: rest) := by
  obtain ⟨bracket, ne⟩ := not_or.1 (mt List.mem_cons.2 ne)
  refine fails_nested fun inner => accepts_current.before_fails
    ((attributeLists_none bracket).before_fails (accepts_current.before_fails ?_))
  simp only [declarationKeywords, List.mem_cons, List.not_mem_nil, or_false, not_or] at ne
  obtain ⟨n, e, s, d, i⟩ := ne
  -- Only the keywords have a case of their own.
  split
  · next eq => exact absurd eq n
  · next eq => exact absurd eq e
  · next eq => exact absurd eq s
  · next eq => exact absurd eq d
  · next eq => exact absurd eq i
  · exact fails_unexpected

/-- Behind its keyword a declaration without a name fails. -/
theorem declaration_stumbles {k : Token} (named : k.kind ∈ namedKeywords)
    (ne : first.kind ≠ .identifier) :
    Fails declaration stop [k] (first.report (.expected [.identifier] first)) (first :: rest) := by
  have bracket : k.kind ≠ .punct .lbracket := by
    intro eq
    rw [eq] at named
    exact absurd named (by decide)
  have look : Accepts current stop [] k ([k] ++ first :: rest) := accepts_current
  refine fails_nested fun inner =>
    look.before_fails ((attributeLists_none bracket).before_fails (look.before_fails ?_))
  simp only [namedKeywords, List.mem_cons, List.not_mem_nil, or_false] at named
  -- A namespace has a dotted name behind its keyword, the others have an identifier there.
  obtain eq | eq | eq | eq := named
  all_goals simp only [eq]
  · exact (fails_discardExpectThen eq (segments_fails ne).bind).map
  all_goals exact (fails_discardExpectThen eq (fails_expect ne).bind).map

theorem topLevel_fails
    (ne : first.kind ∉ [.keyword .import_, .punct .lbracket, .keyword .namespace_]) :
    Fails topLevel stop []
      (first.report (.expected [.keyword .namespace_, .keyword .import_] first))
      (first :: rest) := by
  simp only [List.mem_cons, List.not_mem_nil, or_false, not_or] at ne
  obtain ⟨import_, bracket, namespace_⟩ := ne
  refine accepts_current.before_fails ?_
  rw [if_neg import_]
  refine (attributeLists_none bracket).before_fails (accepts_check.before_fails ?_)
  rw [if_neg (by simpa using namespace_)]
  exact fails_unexpected

/-! ## Regions -/

section Regions

variable {item : Parser α} {resume beginnings expected barred : List TokenKind} {eager : Bool}

/-- Tokens with which a loop goes on, and that are not taken for more of the item before them. -/
structure GoesOn (continues : TokenKind → Bool) (barred : List TokenKind) (ts : List Token) :
    Prop where
  nonempty : ts ≠ []
  goes : continues (nextKind ts) = true
  free : nextKind ts ∉ barred

theorem GoesOn.of_begins {continues : TokenKind → Bool} {kinds : List TokenKind}
    (begins : nextKind ts ∈ kinds)
    (goesOn : ∀ k ∈ kinds, continues k = true ∧ k ∉ barred ∧ k ≠ .eof) :
    GoesOn continues barred ts := by
  obtain ⟨goes, free, notEof⟩ := goesOn _ begins
  refine ⟨?_, goes, free⟩
  rintro rfl
  exact notEof rfl

theorem GoesOn.append {continues : TokenKind → Bool}
    (h : GoesOn continues barred ts) (us : List Token) :
    GoesOn continues barred (ts ++ us) := by
  have next := nextKind_append h.nonempty us
  exact ⟨by simp [h.nonempty], next ▸ h.goes, next ▸ h.free⟩

theorem untilClosed_of_ne (k : TokenKind) (notEof : k ≠ .eof) (notClose : k ≠ .punct .rbrace) :
    untilClosed k = true := by
  simp [untilClosed, notEof, notClose]

theorem IsStray.goesOn {continues : TokenKind → Bool}
    (h : IsStray resume beginnings expected ts d)
    (goes : ∀ k, k ≠ .eof → k ≠ .punct .rbrace → continues k = true)
    (free : ∀ k ∈ barred, k ∈ beginnings) : GoesOn continues barred ts := by
  obtain @⟨us, first, c, skipped, hc, head, ne⟩ := h
  have next : nextKind (us ++ [c]) = first.kind := nextKind_of_head head
  -- The first token is one of those that are skipped, or the semicolon.
  have plain : first.kind ≠ .eof ∧ first.kind ≠ .punct .rbrace := by
    cases us with
    | nil =>
      cases head
      simp [hc]
    | cons t us =>
      cases head
      exact ⟨skipped.noEof first List.mem_cons_self,
        (balanced_iff_closes.1 skipped.balanced).first_ne_rbrace⟩
  refine ⟨by simp, ?_, ?_⟩
  · rw [next]
    exact goes _ plain.1 plain.2
  · rw [next]
    exact fun barred => ne (free _ barred)

/-- An item that fails at the first token of a stray region is skipped with it. -/
theorem IsStray.reports [Uniform item] (h : IsStray resume beginnings expected ts d)
    (fails : ∀ {first us}, ts = first :: us → first.kind ∉ beginnings →
      Fails item stop [] (first.report (.expected expected first)) (first :: us ++ rest)) :
    Reports (recovering resume eager item) stop ts [d] none rest := by
  obtain @⟨us, first, c, skipped, hc, head, ne⟩ := h
  obtain ⟨vs, eq⟩ := List.head?_eq_some_iff.1 head
  have failed := fails eq ne
  rw [← eq] at failed
  refine reports_recovered_at failed ?_ (by simp)
  rw [List.append_assoc, skipped.syncLength, List.singleton_append, syncLength_semicolon _ hc,
    List.length_append]
  rfl

/-- The tokens behind the keyword of a stump are skipped, and those behind them up to where
    declarations go on. -/
theorem IsStump.reports {item : Parser Declaration} [Uniform item] (h : IsStump ts d)
    (fails : ∀ {k first vs}, ts = k :: first :: vs → k.kind ∈ namedKeywords →
      first.kind ≠ .identifier → Fails item stop [k]
        (first.report (.expected [.identifier] first)) (first :: vs ++ (us ++ rest)))
    (skip : syncLength bodyResume 0 (us ++ rest) = us.length) :
    Reports (recovering bodyResume eager item) stop (ts ++ us) [d] none rest := by
  obtain @⟨k, first, vs, named, ne, skipped⟩ := h
  have failed := fails rfl named ne
  rw [← List.append_assoc] at failed
  have skips : syncLength bodyResume 0 (first :: vs ++ us ++ rest) = (first :: vs ++ us).length := by
    rw [List.append_assoc, skipped.syncLength, skip, List.length_append]
  rw [show k :: first :: vs ++ us = [k] ++ (first :: vs ++ us) from rfl]
  exact reports_recovered failed skips fun _ => by simp

theorem IsStump.goesOn (h : IsStump ts d) : GoesOn untilClosed [.punct .semicolon] ts := by
  obtain ⟨named, -, -⟩ := h
  exact .of_begins named (by decide)

theorem IsBodyRegion.goesOn (h : IsBodyRegion ts us d) :
    GoesOn untilClosed [.punct .semicolon] ts := by
  cases h with
  | stray h => exact h.goesOn untilClosed_of_ne (by decide)
  | stump h => exact h.goesOn
  | closedStump h => exact h.goesOn.append _

/-- A region of a namespace is skipped wherever the parser of declarations is used. -/
theorem IsBodyRegion.reports {item : Parser Declaration} [Uniform item] (h : IsBodyRegion ts us d)
    (closed : nextKind rest = .punct .rbrace)
    (fails : ∀ vs {ws d}, ts = vs ++ ws →
      (∀ {stop}, Fails declaration stop vs d (ws ++ (us ++ rest))) →
      Fails item stop vs d (ws ++ (us ++ rest))) :
    Reports (recovering bodyResume true item) stop ts [d] none (us ++ rest) := by
  cases h with
  | stray h =>
    refine h.reports fun {first vs} eq ne => fails [] eq ?_
    exact declaration_fails (mt (List.mem_cons_of_mem _) ne)
  | stump h follows =>
    -- The skipping stops in front of what follows.
    have next : nextKind (us ++ rest) ∈ bodyResume := by
      obtain rfl | next := follows
      · rw [List.nil_append, closed]
        decide
      · exact nextKind_append_mem next (by decide) rest
    obtain ⟨t, vs, eq⟩ := List.exists_cons_of_ne_nil (ne_nil_of_nextKind next (by decide))
    have skip : syncLength bodyResume 0 (us ++ rest) = 0 := by
      rw [eq] at next ⊢
      exact syncLength_resume vs next (ne_of_mem_of_not_mem next (by decide))
    rw [← List.append_nil ts]
    refine h.reports (fun {k first vs} eq named ne => fails [k] eq ?_) skip
    exact declaration_stumbles named ne
  | @closedStump c ts _ _ h hc =>
    -- The semicolon is skipped with the stump.
    refine h.reports (fun {k first vs} eq named ne => ?_) ?_
    · have split : ts ++ [c] = [k] ++ (first :: vs ++ [c]) := by
        rw [eq]
        rfl
      have failed := fails [k] split (declaration_stumbles named ne)
      rwa [List.append_assoc] at failed
    · rw [List.singleton_append, syncLength_semicolon _ hc]
      rfl

theorem IsGap.comma {c : Token} (h : IsGap ts c d) : c.kind = .punct .comma := by
  cases h with
  | mk _ comma => exact comma

theorem IsGap.goes {c : Token} (h : IsGap ts c d) : untilClosed (nextKind (ts ++ [c])) = true := by
  cases h with
  | mk skipped comma =>
    cases ts with
    | nil => simp [comma, untilClosed]
    | cons t ts =>
      exact untilClosed_of_ne _ (skipped.noEof t List.mem_cons_self)
        (balanced_iff_closes.1 skipped.balanced).first_ne_rbrace

/-- A member that fails in front of a comma is skipped up to it. -/
theorem IsGap.reports {c : Token} (h : IsGap ts c d) :
    Reports (recovering enumResume false enumMember) stop ts [d] none (c :: us) := by
  obtain @⟨first, skipped, comma, head, name, bracket⟩ := h
  obtain ⟨vs, eq⟩ := List.head?_eq_some_iff.1 head
  have failed : Fails enumMember stop [] (first.report (.expected [.identifier] first))
      (ts ++ (c :: us)) := by
    have all : ts ++ c :: us = first :: (vs ++ us) := by
      rw [← List.cons_append, ← eq, List.append_assoc]
      rfl
    rw [all]
    exact enumMember_fails name bracket
  refine reports_recovered failed ?_ fun eager => absurd eager Bool.false_ne_true
  rw [skipped.syncLength, syncLength_resume _ (by simp [comma, enumResume]) (by simp [comma]),
    Nat.add_zero]

end Regions

/-! ## Lists -/

section Lists

variable {continues : TokenKind → Bool} {round : β → Parser β} {barred : List TokenKind} {bound : Nat}
  {region : List Token → List Token → Diagnostic → Prop}
  {phrase : List Token → List Diagnostic → α → Prop} {as : List α} {b : β}

/-- What follows in a list is the next item or region, and only behind the last one the rest. -/
theorem Interspersed.next (items : ∀ {ts ds a}, phrase ts ds a → GoesOn continues barred ts)
    (regions : ∀ {ts us d}, region ts us d → GoesOn continues barred ts)
    (h : Interspersed region phrase ts ds as) (next : nextKind rest ∉ barred) :
    nextKind (ts ++ rest) ∉ barred := by
  cases h with
  | nil => exact next
  | item first => exact (((items first).append _).append _).free
  | region first => exact (((regions first).append _).append _).free

/-- A loop whose rounds read one item each and add it to what is there, or get over a region. -/
theorem Interspersed.reports_below (add : β → α → β) (barred : List TokenKind)
    (items : ∀ {ts ds a}, phrase ts ds a → GoesOn continues barred ts)
    (regions : ∀ {ts us d}, region ts us d → GoesOn continues barred ts)
    (reads : ∀ {stop ts ds a b rest}, phrase ts ds a → (ts ++ rest).length < bound →
      nextKind rest ∉ barred → Reports (round b) stop ts ds (add b a) rest)
    (skips : ∀ {stop ts us d b}, region ts us d → (ts ++ (us ++ rest)).length < bound →
      Reports (round b) stop ts [d] b (us ++ rest))
    (h : Interspersed region phrase ts ds as) (short : (ts ++ rest).length < bound)
    (next : nextKind rest ∉ barred) (ends : continues (nextKind rest) = false) :
    Reports (iterate continues round b) stop ts ds (as.foldl add b) rest := by
  -- The node of the items before is passed from round to round. Behind an item stands the next one,
  -- a region or the rest, none of which it could take for more of itself.
  induction h generalizing stop b with
  | nil => exact (accepts_iterate_nil ends).reports
  | @item ds es ts us a as first more ih =>
    have goesOn := items first
    rw [List.append_assoc] at short
    exact reports_iterate_cons goesOn.goes goesOn.nonempty
      (reads first short (more.next items regions next)) (ih (by simp at short ⊢; omega))
  | @region d es ts us as first more ih =>
    have goesOn := regions first
    rw [List.append_assoc] at short
    exact reports_iterate_cons goesOn.goes goesOn.nonempty (skips first short)
      (ih (by simp at short ⊢; omega))

/-- The same without a bound on the tokens to come. -/
theorem Interspersed.reports (add : β → α → β) (barred : List TokenKind)
    (items : ∀ {ts ds a}, phrase ts ds a → GoesOn continues barred ts)
    (regions : ∀ {ts us d}, region ts us d → GoesOn continues barred ts)
    (reads : ∀ {stop ts ds a b rest}, phrase ts ds a → nextKind rest ∉ barred →
      Reports (round b) stop ts ds (add b a) rest)
    (skips : ∀ {stop ts us d b}, region ts us d → Reports (round b) stop ts [d] b (us ++ rest))
    (h : Interspersed region phrase ts ds as) (next : nextKind rest ∉ barred)
    (ends : continues (nextKind rest) = false) :
    Reports (iterate continues round b) stop ts ds (as.foldl add b) rest :=
  reports_below add barred items regions (fun h _ => reads h) (fun h _ => skips h) h
    (Nat.lt_succ_self _) next ends

/-- A list in braces of proper items with stray regions among them. -/
theorem Interspersed.reports_items {item : Parser α} [Uniform item] {phrase : List Token → α → Prop}
    {resume beginnings expected kinds : List TokenKind} {as : List α} (barred : List TokenKind)
    (complete : ∀ {stop ts a rest}, phrase ts a → nextKind rest ∉ barred →
      Accepts item stop ts a rest)
    (fails : ∀ {stop first rest}, first.kind ∉ beginnings →
      Fails item stop [] (first.report (.expected expected first)) (first :: rest))
    (begins : ∀ {ts a}, phrase ts a → nextKind ts ∈ kinds)
    (goesOn : ∀ k ∈ kinds, untilClosed k = true ∧ k ∉ barred ∧ k ≠ .eof)
    (free : ∀ k ∈ barred, k ∈ beginnings)
    (h : Interspersed (fun ts _ d => IsStray resume beginnings expected ts d) (Proper phrase) ts ds
      as)
    (next : nextKind rest ∉ barred) (ends : untilClosed (nextKind rest) = false) :
    Reports (iterate untilClosed (fun as => do
      let a ← recovering resume true item
      return as ++ a.toList) []) stop ts ds as rest := by
  rw [← List.nil_append as, ← foldl_snoc]
  -- A round reads an item, or fails at its first token and skips the region.
  refine h.reports _ barred (fun ⟨first⟩ => .of_begins (begins first) goesOn)
    (fun first => first.goesOn untilClosed_of_ne free) ?_ ?_ next ends
  · rintro stop ts _ a before rest ⟨first⟩ next
    exact (reports_recovering (complete first next).reports).andThen .pure
  · intro stop ts us d before first
    have skipped : Reports (recovering resume true item) stop ts [d] none (us ++ rest) :=
      first.reports fun _ ne => fails ne
    refine skipped.andThen ?_
    rw [Option.toList_none, List.append_nil]
    exact .pure

end Lists

namespace Faulty

/-! ## Productions -/

theorem Attributed.plain {phrase : List Token → List Diagnostic → (List Attribute → Span → α) → Prop}
    {a : α} (h : Attributed phrase ts ds a) :
    Grammar.Attributed (fun ts node => phrase ts ds node) ts a := by
  obtain ⟨front, body⟩ := h
  exact .mk front body

theorem IsMember.begins {node : List Attribute → Span → EnumMember} (h : IsMember ts ds node) :
    nextKind ts ∈ [.identifier] := by
  cases h with
  | proper h => exact Grammar.IsMember.begins h
  | mistaken hn => simp [hn]

theorem IsEnum.begins {node : List Attribute → Span → EnumDecl} (h : IsEnum ts ds node) :
    nextKind ts ∈ [.keyword .enum] := by
  obtain ⟨eq, -⟩ := h
  simp [eq]

theorem IsStruct.begins {node : List Attribute → Span → StructDecl} (h : IsStruct ts ds node) :
    nextKind ts ∈ [.keyword .struct] := by
  obtain ⟨eq, -⟩ := h
  simp [eq]

theorem IsInterface.begins {node : List Attribute → Span → InterfaceDecl}
    (h : IsInterface ts ds node) : nextKind ts ∈ [.keyword .interface] := by
  obtain ⟨eq, -⟩ := h
  simp [eq]

theorem IsNamespace.begins {declaration : List Token → List Diagnostic → Declaration → Prop}
    {node : List Attribute → Span → Namespace} (h : IsNamespace declaration ts ds node) :
    nextKind ts ∈ [.keyword .namespace_] := by
  obtain ⟨eq, -⟩ := h
  simp [eq]

theorem IsDeclaration.begins {d : Declaration} (h : IsDeclaration ts ds d) :
    nextKind ts ∈ .punct .lbracket :: declarationKeywords := by
  cases h with
  | proper h => exact Grammar.IsDeclaration.begins h
  | namespace_ h => exact h.plain.begins_keyword IsNamespace.begins (by decide)
  | enum h => exact h.plain.begins_keyword IsEnum.begins (by decide)
  | struct h => exact h.plain.begins_keyword IsStruct.begins (by decide)
  | interface h => exact h.plain.begins_keyword IsInterface.begins (by decide)

theorem Followed.begins {mark : TokenKind} {kinds : List TokenKind}
    {phrase : List Token → List Diagnostic → α → Prop} {a : α}
    (each : ∀ {ts ds a}, phrase ts ds a → nextKind ts ∈ kinds) (open_ : .eof ∉ kinds)
    (h : Followed mark phrase ts ds a) : nextKind ts ∈ kinds := by
  cases h with
  | bare phrase => exact each phrase
  | marked phrase => exact nextKind_append_mem (each phrase) open_ _

theorem IsTopLevel.begins {item : TopLevel} (h : IsTopLevel ts ds item) :
    nextKind ts ∈ [.keyword .import_, .punct .lbracket, .keyword .namespace_] := by
  cases h with
  | proper h => exact Grammar.IsTopLevel.begins h
  | namespace_ h => exact List.mem_cons_of_mem _ (h.plain.begins IsNamespace.begins)

/-! ## Enumerations -/

/-- A mistake is read whole, and reported once. -/
theorem initializer_reports (h : IsMistake (first :: ts)) (ends : nextKind rest ≠ .punct .dot) :
    Reports initializer stop (first :: ts) [first.report (.expected [.integer, .hex] first)] none
      rest := by
  refine reports_currentThen rfl ?_
  cases h with
  | literal kind =>
    have mistaken : ∀ k ∈ [.float, .string, .uuid], isMistakenInitializer k = true ∧
        k ≠ .identifier ∧ ¬ (k = .integer ∨ k = .hex) := by decide
    obtain ⟨mistaken, noName, noInteger⟩ := mistaken _ kind
    rw [if_neg noInteger]
    simp only [mistaken, if_neg noName, if_true]
    exact reports_report.bind_accepts (accepts_advance.discard.andThen .pure)
  | name names =>
    have eq : first.kind = .identifier := List.mem_singleton.1 names.begins
    rw [if_neg (by simp [eq])]
    simp only [eq, isMistakenInitializer, if_true]
    exact reports_report.bind_accepts ((segments_complete names ends).discard.andThen .pure)

theorem IsMember.reports {m : EnumMember} (h : Attributed IsMember ts ds m)
    (ends : nextKind rest ∉ [.punct .equals, .punct .dot]) :
    Reports enumMember stop ts ds m rest := by
  simp only [List.mem_cons, List.not_mem_nil, or_false, not_or] at ends
  obtain @⟨ds, as, us, attributes, node, front, body⟩ := h
  cases body with
  | proper body => exact (enumMember_complete (.mk front body) ends.1).reports
  | @mistaken n e first us hn he mistake =>
    obtain ⟨start, head⟩ : ∃ start, (as ++ n :: e :: first :: us).head? = some start :=
      ⟨_, List.head?_eq_some_head (by simp)⟩
    refine reports_currentThen head
      (Accepts.bind_reports (attributeLists_complete front (by simp [hn])) ?_)
    refine reports_expectThen hn ((accepts_accept he).bind_reports ?_)
    exact (initializer_reports mistake ends.2).andThen (accepts_spanOver stop head (by simp))

theorem AreMembers.reports {members before : List EnumMember} (h : AreMembers ts ds members)
    (closed : nextKind rest = .punct .rbrace) :
    Reports (iterate untilClosed enumMemberRound before) stop ts ds (before ++ members) rest := by
  have goesOn : ∀ k ∈ [.punct .lbracket, .identifier], untilClosed k = true := by decide
  -- Each round reads a member, or skips a gap, with the comma behind it. The last member may go
  -- without.
  induction h generalizing stop before with
  | none =>
    rw [List.append_nil]
    exact (accepts_iterate_nil (by rw [closed]; decide)).reports
  | @last ds ts m first =>
    have begins := first.plain.begins IsMember.begins
    have round : Reports (enumMemberRound before) stop ts ds (before ++ [m]) rest :=
      (reports_recovering (IsMember.reports first (by simp [closed]))).andThen
        ((memberSeparator_complete (.closed closed)).andThen .pure)
    have loop := reports_iterate_cons (goesOn _ begins) (ne_nil_of_nextKind begins (by decide)) round
      (accepts_iterate_nil (by rw [closed]; decide)).reports
    simpa using loop
  | @member ds es ts us c m members first comma more ih =>
    have begins := first.plain.begins IsMember.begins
    have round : Reports (enumMemberRound before) stop (ts ++ [c]) ds (before ++ [m]) (us ++ rest) :=
      (reports_recovering (IsMember.reports first (by simp [comma]))).bind_accepts
        ((memberSeparator_complete (.comma comma)).andThen .pure)
    have loop := reports_iterate_cons (goesOn _ (nextKind_append_mem begins (by decide) _))
      (by simp) round ih
    simpa using loop
  | @gap d es ts us c members gap more ih =>
    have round : Reports (enumMemberRound before) stop (ts ++ [c]) [d] before (us ++ rest) := by
      refine gap.reports.bind_accepts ((memberSeparator_complete (.comma gap.comma)).andThen ?_)
      rw [Option.toList_none, List.append_nil]
      exact .pure
    have loop := reports_iterate_cons gap.goes (by simp) round ih
    simpa using loop

theorem enumMembers_reports {members : List EnumMember} (h : AreMembers ts ds members)
    (closed : nextKind rest = .punct .rbrace) : Reports enumMembers stop ts ds members rest :=
  h.reports closed

theorem IsEnum.reports {start : Token} {attributes : List Attribute}
    {node : List Attribute → Span → EnumDecl} (h : IsEnum ts ds node) :
    Reports (enumDecl start attributes) stop ts ds
      (node attributes (start.spanUntil (stopAfter stop ts))) rest := by
  obtain ⟨hk, hn, hl, members, hr⟩ := h
  refine reports_discardExpectThen hk (reports_expectThen hn (reports_discardExpectThen hl
    (Reports.bind_accepts (enumMembers_reports members (by simpa using hr))
      (accepts_expectOrReportThen hr ?_))))
  simpa using accepts_spanFrom

/-! ## Structs and interfaces -/

theorem AreFields.reports {fields : List StructField} (h : AreFields ts ds fields)
    (closed : untilClosed (nextKind rest) = false) :
    Reports structFields stop ts ds fields rest :=
  Interspersed.reports_items [] (fun h _ => structField_complete h)
    (fun ne => structField_fails ne) IsField.begins (by decide) (by decide) h (by simp) closed

theorem IsStruct.reports {start : Token} {attributes : List Attribute}
    {node : List Attribute → Span → StructDecl} (h : IsStruct ts ds node) :
    Reports (structDecl start attributes) stop ts ds
      (node attributes (start.spanUntil (stopAfter stop ts))) rest := by
  obtain ⟨hk, hn, hl, fields, hr⟩ := h
  refine reports_discardExpectThen hk (reports_expectThen hn (reports_discardExpectThen hl
    (Reports.bind_accepts (AreFields.reports fields (by simp [hr, untilClosed]))
      (accepts_expectOrReportThen hr ?_))))
  simpa using accepts_spanFrom

theorem AreInterfaceMembers.reports {members : List InterfaceMember}
    (h : AreInterfaceMembers ts ds members) (next : nextKind rest ≠ .punct .semicolon)
    (closed : untilClosed (nextKind rest) = false) :
    Reports interfaceMembers stop ts ds members rest :=
  Interspersed.reports_items [.punct .semicolon]
    (fun h next => interfaceMember_complete h (by simpa using next))
    (fun ne => interfaceMember_fails (mt (List.mem_cons_of_mem _) ne))
    (Attributed.begins IsInterfaceMember.begins) (by decide) (by decide) h (by simpa using next)
    closed

theorem IsInterface.reports {start : Token} {attributes : List Attribute}
    {node : List Attribute → Span → InterfaceDecl} (h : IsInterface ts ds node) :
    Reports (interfaceDecl start attributes) stop ts ds
      (node attributes (start.spanUntil (stopAfter stop ts))) rest := by
  obtain ⟨hk, hn, hbases, hl, members, hr⟩ := h
  simp only [List.cons_append, List.append_assoc]
  refine reports_discardExpectThen hk (reports_expectThen hn (Accepts.bind_reports
    (bases_complete hbases ?_) (reports_discardExpectThen hl (Reports.bind_accepts
      (AreInterfaceMembers.reports members ?_ ?_) (accepts_expectOrReportThen hr ?_)))))
  · simpa using hl
  · simp [hr]
  · simp [hr, untilClosed]
  · simpa using accepts_spanFrom

/-! ## Namespaces -/

section Namespaces

variable {inner : Parser Declaration} {bound : Nat}

/-- What the body of a namespace needs of the parser of its declarations where fewer tokens than
    `bound` are to come: it reads declarations and fails at regions in a way that skips them. -/
structure Copes (inner : Parser Declaration) (bound : Nat) : Prop where
  reads : ∀ {stop ts ds d rest}, IsDeclaration ts ds d → (ts ++ rest).length < bound →
    Reports inner stop ts ds d rest
  skips : ∀ {stop ts us d rest}, IsBodyRegion ts us d → (ts ++ (us ++ rest)).length < bound →
    nextKind rest = .punct .rbrace →
    Reports (recovering bodyResume true inner) stop ts [d] none (us ++ rest)

theorem Copes.declarations (copes : Copes inner bound) {as : List Declaration}
    (h : AreDeclarations ts ds as) (short : (ts ++ rest).length < bound)
    (closed : nextKind rest = .punct .rbrace) :
    Reports (declarations inner) stop ts ds as rest := by
  rw [← List.nil_append as, ← foldl_snoc]
  refine h.reports_below _ [.punct .semicolon] ?_ (fun region => IsBodyRegion.goesOn region) ?_ ?_
    short (by simp [closed]) (by rw [closed]; decide)
  · exact fun first => .of_begins (first.begins IsDeclaration.begins (by decide)) (by decide)
  · intro stop ts ds d before rest first short next
    cases first with
    | bare first =>
      refine (reports_recovering (copes.reads first short)).andThen ?_
      exact (accepts_accept_not (by simpa using next)).discard.andThen .pure
    | marked first mark =>
      refine (reports_recovering (copes.reads first (by simpa using short))).bind_accepts ?_
      exact (accepts_accept mark).discard.andThen .pure
  · exact fun region short => (copes.skips region short closed).andThen .pure

theorem Copes.namespacePhrase (copes : Copes inner bound) {start : Token}
    {attributes : List Attribute} {node : List Attribute → Span → Namespace}
    (h : IsNamespace IsDeclaration ts ds node) (short : (ts ++ rest).length ≤ bound) :
    Reports (namespacePhrase inner start attributes) stop ts ds
      (node attributes (start.spanUntil (stopAfter stop ts))) rest := by
  obtain ⟨hk, name, hl, declarations, hr⟩ := h
  simp only [List.cons_append, List.append_assoc]
  refine reports_discardExpectThen hk (Accepts.bind_reports (segments_complete name (by simp [hl]))
    (reports_discardExpectThen hl (Reports.bind_accepts (copes.declarations declarations ?_ ?_)
      (accepts_expectOrReportThen hr ?_))))
  · simp at short ⊢
    omega
  · simpa using hr
  · simpa using accepts_spanFrom

theorem Copes.declarationPhrase (copes : Copes inner bound) {d : Declaration}
    (h : IsDeclaration ts ds d) (short : (ts ++ rest).length ≤ bound) :
    Reports (declarationPhrase inner) stop ts ds d rest := by
  cases h with
  | proper h =>
    refine (declarationPhrase_complete (fun h short => ?_) h short).reports
    exact reports_nil_iff.1 (copes.reads (.proper h) short)
  | namespace_ h =>
    refine reports_attributedOfKind Declaration.namespace_ h.plain IsNamespace.begins (by decide)
      (by decide) fun body shorter eq => ?_
    simp only [eq]
    exact (copes.namespacePhrase body (by omega)).map
  | enum h =>
    refine reports_attributedOfKind Declaration.enum h.plain IsEnum.begins (by decide) (by decide)
      fun body _ eq => ?_
    simp only [eq]
    exact body.reports.map
  | struct h =>
    refine reports_attributedOfKind Declaration.struct h.plain IsStruct.begins (by decide) (by decide)
      fun body _ eq => ?_
    simp only [eq]
    exact body.reports.map
  | interface h =>
    refine reports_attributedOfKind Declaration.interface h.plain IsInterface.begins (by decide)
      (by decide) fun body _ eq => ?_
    simp only [eq]
    exact body.reports.map

end Namespaces

theorem copes_limited {bound : Nat}
    (reads : ∀ {stop ts ds d rest}, IsDeclaration ts ds d → (ts ++ rest).length < bound →
      Reports declaration stop ts ds d rest) :
    Copes (limited bound (unexpected declarationKeywords) declaration) bound where
  reads h short := reports_limited short (reads h short)
  skips h short closed := h.reports closed fun _ _ _ eq failed =>
    fails_limited (by simpa [eq] using short) failed

theorem IsDeclaration.reports {d : Declaration} (h : IsDeclaration ts ds d) :
    Reports declaration stop ts ds d rest := by
  -- By induction on the tokens to come: what stands in a namespace is shorter than it.
  induction hn : (ts ++ rest).length using Nat.strongRecOn generalizing stop ts ds rest d with
  | ind n ih =>
    subst hn
    exact reports_nested ((copes_limited fun h short => ih _ short h rfl).declarationPhrase h
      (Nat.le_refl _))

theorem copes_declaration (bound : Nat) : Copes declaration bound where
  reads h _ := h.reports
  skips h _ closed := h.reports closed fun _ _ _ _ failed => failed

theorem declarations_reports {as : List Declaration} (h : AreDeclarations ts ds as)
    (closed : nextKind rest = .punct .rbrace) :
    Reports (declarations declaration) stop ts ds as rest :=
  (copes_declaration _).declarations h (Nat.lt_succ_self _) closed

/-! ## Files -/

theorem IsTopLevel.reports {item : TopLevel} (h : IsTopLevel ts ds item) :
    Reports topLevel stop ts ds item rest := by
  cases h with
  | proper h => exact (topLevel_complete h).reports
  | namespace_ h =>
    refine reports_topLevelNamespace h.plain IsNamespace.begins fun body => ?_
    exact (copes_declaration _).namespacePhrase body (Nat.le_refl _)

theorem IsFile.reports {tree : IdlFile} (h : IsFile ts ds tree) :
    Reports file stop ts ds tree [] := by
  cases h with
  | @mk _ _ items many =>
    rw [← List.nil_append items, ← foldl_add]
    refine many.reports _ [] ?_ ?_ ?_ ?_ (by simp) rfl
    · exact fun first => .of_begins first.begins (by decide)
    · exact fun first => first.goesOn (fun k notEof _ => by simpa using notEof) (by simp)
    · exact fun first _ => (reports_recovering first.reports).andThen .pure
    · intro stop ts us d tree first
      have skipped : Reports (recovering topLevelResume true topLevel) stop ts [d] none (us ++ []) :=
        first.reports fun _ ne => topLevel_fails ne
      exact skipped.andThen .pure

end Faulty

end IdlFront.Grammar
