import IdlFront.Proofs.Grammar.Beginnings

/-! # Tokens that may be missing

* `Omissible` — a token that the parser can do without where it stands.
* `Thins` — some tokens without a number of omissible ones.
* `Enclosure` — whether a place is between the members of an enumeration, told from the tokens in
  front of it.
* `Intact` — some tokens none of which is omissible. The lemmas say which phrases are intact.
-/

namespace IdlFront.Grammar

variable {α : Type} {before after ts us : List Token} {c t : Token} {k : Nat}
  {kinds : List TokenKind}

/-! ## Omissible tokens -/

/-- The kinds of tokens in front of a semicolon that an item needs: the path of an import, the name of
    a field, event, property or accessor, and the parenthesis behind parameters. The semicolons that
    an item can be without stand behind a brace or another semicolon. -/
def semicolonFronts : List TokenKind := [.string, .identifier, .punct .rparen]

/-- Between `before` and `after`, which are all the other tokens, the token may be missing: it is
    * a semicolon that an item needs, and no other semicolon is next,
    * a comma between two members of an enumeration, or
    * one of the closing braces at the end of the text. -/
inductive Omissible (before : List Token) (c : Token) (after : List Token) : Prop where
  | semicolon {front : Token} : c.kind = .punct .semicolon → before.getLast? = some front →
      front.kind ∈ semicolonFronts → nextKind after ≠ .punct .semicolon → Omissible before c after
  | comma {outer ms : List Token} {k n l : Token} {members : List EnumMember} :
      c.kind = .punct .comma → before = outer ++ k :: n :: l :: ms → k.kind = .keyword .enum →
      n.kind = .identifier → l.kind = .punct .lbrace →
      Separated (.punct .comma) (Attributed IsMember) ms members →
      nextKind after ≠ .punct .rbrace → Omissible before c after
  | brace : c.kind = .punct .rbrace → (∀ t ∈ after, t.kind = .punct .rbrace) →
      Omissible before c after

def omissibleKinds : List TokenKind := [.punct .semicolon, .punct .comma, .punct .rbrace]

theorem Omissible.kind (h : Omissible before c after) : c.kind ∈ omissibleKinds := by
  cases h <;> simp_all [omissibleKinds]

theorem Omissible.semicolon_inv (h : Omissible before c after) (eq : c.kind = .punct .semicolon) :
    (∃ front, before.getLast? = some front ∧ front.kind ∈ semicolonFronts) ∧
      nextKind after ≠ .punct .semicolon := by
  cases h with
  | semicolon _ last front next => exact ⟨⟨_, last, front⟩, next⟩
  | comma comma => simp [eq] at comma
  | brace brace => simp [eq] at brace

theorem Omissible.brace_inv (h : Omissible before c after) (eq : c.kind = .punct .rbrace) :
    ∀ t ∈ after, t.kind = .punct .rbrace := by
  cases h with
  | semicolon semicolon => simp [eq] at semicolon
  | comma comma => simp [eq] at comma
  | brace _ braces => exact braces

/-- Behind the tokens `before`, the tokens `ts` without `k` omissible ones are `us`. -/
inductive Thins : List Token → List Token → List Token → Nat → Prop where
  | nil {before : List Token} : Thins before [] [] 0
  | keep {before ts us : List Token} {c : Token} {k : Nat} :
      Thins (before ++ [c]) ts us k → Thins before (c :: ts) (c :: us) k
  | drop {before ts us : List Token} {c : Token} {k : Nat} :
      Omissible before c ts → Thins (before ++ [c]) ts us k → Thins before (c :: ts) us (k + 1)

theorem Thins.sublist (h : Thins before ts us k) : us.Sublist ts := by
  induction h with
  | nil => exact .slnil
  | keep _ ih => exact .cons_cons _ ih
  | drop _ _ ih => exact .cons _ ih

/-! ## Enclosures -/

/-- What a place in a text is enclosed by: the braces of an enumeration, a list of attributes in them,
    or neither. Between the word `enum` and its brace the enumeration is announced. -/
inductive Enclosure where
  | outside | announced | members | attributes
  deriving DecidableEq

/-- The enclosure behind a token. No semicolon stands in an enumeration. -/
def Enclosure.behind : Enclosure → TokenKind → Enclosure
  | _, .keyword .enum => .announced
  | _, .punct .semicolon => .outside
  | _, .punct .rbrace => .outside
  | .announced, .punct .lbrace => .members
  | .members, .punct .lbracket => .attributes
  | .attributes, .punct .rbracket => .members
  | e, _ => e

/-- The enclosure behind some tokens at the start of a text. -/
def enclosure (before : List Token) : Enclosure :=
  before.foldl (fun e t => e.behind t.kind) .outside

theorem enclosure_snoc (before : List Token) (t : Token) :
    enclosure (before ++ [t]) = (enclosure before).behind t.kind := by
  simp [enclosure]

/-! ## Kinds of tokens in phrases -/

/-- All tokens are of certain kinds. -/
def OfKinds (kinds : List TokenKind) (ts : List Token) : Prop := ∀ t ∈ ts, t.kind ∈ kinds

section OfKinds

variable {phrase : List Token → α → Prop}

theorem ofKinds_nil : OfKinds kinds [] := fun _ h => absurd h List.not_mem_nil

theorem OfKinds.cons (first : t.kind ∈ kinds) (more : OfKinds kinds ts) : OfKinds kinds (t :: ts) :=
  List.forall_mem_cons.2 ⟨first, more⟩

theorem OfKinds.append (h : OfKinds kinds ts) (h' : OfKinds kinds us) : OfKinds kinds (ts ++ us) :=
  List.forall_mem_append.2 ⟨h, h'⟩

theorem OfKinds.single (h : t.kind ∈ kinds) : OfKinds kinds [t] := ofKinds_nil.cons h

theorem OfKinds.mono {kinds' : List TokenKind} (le : kinds ⊆ kinds') (h : OfKinds kinds ts) :
    OfKinds kinds' ts := fun t ht => le (h t ht)

theorem Separated.ofKinds_below {separator : TokenKind} {bound : Nat} {as : List α}
    (each : ∀ {ts a}, phrase ts a → ts.length < bound → OfKinds kinds ts) (inside : separator ∈ kinds)
    (h : Separated separator phrase ts as) (short : ts.length < bound) : OfKinds kinds ts := by
  induction h with
  | one first => exact each first short
  | cons first eq _ ih =>
    simp only [List.length_append, List.length_cons] at short
    exact (each first (by omega)).append ((ih (by omega)).cons (eq ▸ inside))

theorem Separated.ofKinds {separator : TokenKind} {as : List α}
    (each : ∀ {ts a}, phrase ts a → OfKinds kinds ts) (inside : separator ∈ kinds)
    (h : Separated separator phrase ts as) : OfKinds kinds ts :=
  h.ofKinds_below (fun first _ => each first) inside (Nat.lt_succ_self _)

theorem Many.ofKinds {as : List α} (each : ∀ {ts a}, phrase ts a → OfKinds kinds ts)
    (h : Many phrase ts as) : OfKinds kinds ts := by
  induction h with
  | nil => exact ofKinds_nil
  | cons first _ ih => exact (each first).append ih

end OfKinds

/-- The kinds of tokens in a list of attributes, its brackets apart. -/
def attributeKinds : List TokenKind :=
  argumentBeginnings ++ [.punct .dot, .punct .comma, .punct .lparen, .punct .rparen]

/-- The kinds of tokens in types, parameters, bases and attributes. -/
def phraseKinds : List TokenKind :=
  attributeKinds ++ [.punct .colon, .punct .langle, .punct .rangle, .punct .lbracket,
    .punct .rbracket, .keyword .void, .keyword .ref, .keyword .const, .keyword .out]

theorem IsQualified.ofKinds {names : List String} (h : IsQualified ts names)
    (name : .identifier ∈ kinds) (dot : .punct .dot ∈ kinds) : OfKinds kinds ts := by
  refine Separated.ofKinds (fun first => ?_) dot h
  obtain @⟨n, eq⟩ := first
  exact .single (eq ▸ name)

theorem IsType.ofKinds {type : TypeRef} (h : IsType ts type) : OfKinds phraseKinds ts := by
  -- By induction on the number of tokens: the arguments of a type are shorter than the type.
  induction hn : ts.length using Nat.strongRecOn generalizing ts type with
  | ind n ih =>
    subst hn
    cases h with
    | void eq => exact .single (eq ▸ by decide)
    | @named ns as ms _ _ _ names arguments mark =>
      have front : OfKinds phraseKinds as := by
        cases arguments with
        | none => exact ofKinds_nil
        | some hl all hr =>
          simp only [List.length_append, List.length_cons] at ih
          have inner := all.ofKinds_below (fun first short => ih _ short first rfl) (by decide)
            (by omega)
          exact .append (.cons (hl ▸ by decide) inner) (.single (hr ▸ by decide))
      have array : OfKinds phraseKinds ms := by
        cases mark with
        | absent => exact ofKinds_nil
        | present hl hr => exact .cons (hl ▸ by decide) (.single (hr ▸ by decide))
      exact ((IsQualified.ofKinds names (by decide) (by decide)).append front).append array

theorem IsParameter.ofKinds {p : Parameter} (h : IsParameter ts p) : OfKinds phraseKinds ts := by
  obtain ⟨modifier, type, name⟩ := h
  refine OfKinds.append (.append ?_ type.ofKinds) (.single (name ▸ by decide))
  cases modifier with
  | absent => exact ofKinds_nil
  | ref eq => exact .single (eq ▸ by decide)
  | constRef eq eq' => exact .cons (eq ▸ by decide) (.single (eq' ▸ by decide))
  | out eq => exact .single (eq ▸ by decide)

theorem AreParameters.ofKinds {ps : List Parameter} (h : AreParameters ts ps) :
    OfKinds phraseKinds ts := by
  cases h with
  | none => exact ofKinds_nil
  | some all => exact all.ofKinds IsParameter.ofKinds (by decide)

theorem AreBases.ofKinds {bases : List TypeRef} (h : AreBases ts bases) : OfKinds phraseKinds ts := by
  cases h with
  | none => exact ofKinds_nil
  | some eq all => exact .cons (eq ▸ by decide) (all.ofKinds IsType.ofKinds (by decide))

theorem IsArgument.ofKinds {l : Literal} (h : IsArgument ts l) : OfKinds attributeKinds ts := by
  cases h with
  | literal eq => exact .single (List.mem_append_left _ eq.begins)
  | name names => exact IsQualified.ofKinds names (by decide) (by decide)

theorem IsAttribute.ofKinds {a : Attribute} (h : IsAttribute ts a) : OfKinds attributeKinds ts := by
  obtain ⟨names, arguments⟩ := h
  refine (IsQualified.ofKinds names (by decide) (by decide)).append ?_
  cases arguments with
  | none => exact ofKinds_nil
  | empty hl hr => exact .cons (hl ▸ by decide) (.single (hr ▸ by decide))
  | some hl all hr =>
    exact .append (.cons (hl ▸ by decide) (all.ofKinds IsArgument.ofKinds (by decide)))
      (.single (hr ▸ by decide))

theorem AreAttributes.ofKinds {attributes : List Attribute} (h : AreAttributes ts attributes) :
    OfKinds phraseKinds ts := by
  obtain ⟨lists⟩ := h
  refine lists.ofKinds fun {ts a} first => ?_
  obtain ⟨hl, all, hr⟩ := first
  have inner : OfKinds phraseKinds _ :=
    (all.ofKinds IsAttribute.ofKinds (by decide)).mono (List.subset_append_left attributeKinds _)
  exact .append (.cons (hl ▸ by decide) inner) (.single (hr ▸ by decide))

/-! ## Passages

A passage is a phrase that starts and ends in known enclosures and has no token on its way that could
be omissible there. -/

/-- The tokens lead from one enclosure to another, with no semicolon and no closing brace among them
    and no comma between members. -/
def Passes : Enclosure → List Token → Enclosure → Prop
  | e, [], e' => e = e'
  | e, t :: ts, e' => t.kind ≠ .punct .semicolon ∧ t.kind ≠ .punct .rbrace ∧
      (t.kind = .punct .comma → e ≠ .members) ∧ Passes (e.behind t.kind) ts e'

variable {e e' e'' : Enclosure}

theorem Passes.append (h : Passes e ts e') (h' : Passes e' us e'') : Passes e (ts ++ us) e'' := by
  induction ts generalizing e with
  | nil => exact h ▸ h'
  | cons t ts ih => exact ⟨h.1, h.2.1, h.2.2.1, ih h.2.2.2⟩

theorem Passes.single (fixed : t.kind ∉ omissibleKinds) : Passes e [t] (e.behind t.kind) := by
  simp only [omissibleKinds, List.mem_cons, List.not_mem_nil, or_false, not_or] at fixed
  exact ⟨fixed.1, fixed.2.2, fun comma => absurd comma fixed.2.1, rfl⟩

theorem Passes.arrives (h : Passes e ts e') (start : enclosure before = e) :
    enclosure (before ++ ts) = e' := by
  induction ts generalizing before e with
  | nil => simpa using start.trans h
  | cons t ts ih =>
    rw [← List.singleton_append, ← List.append_assoc]
    exact ih h.2.2.2 (by rw [enclosure_snoc, start])

/-- Tokens of kinds that change nothing. -/
theorem passes_ofKinds
    (steady : ∀ k ∈ kinds, e.behind k = e ∧ k ≠ .punct .semicolon ∧ k ≠ .punct .rbrace)
    (noMember : e ≠ .members) (made : OfKinds kinds ts) : Passes e ts e := by
  induction ts with
  | nil => rfl
  | cons t ts ih =>
    obtain ⟨same, noSemicolon, noBrace⟩ := steady _ (made t List.mem_cons_self)
    refine ⟨noSemicolon, noBrace, fun _ => noMember, ?_⟩
    rw [same]
    exact ih fun u hu => made u (List.mem_cons_of_mem _ hu)

theorem passes_phrase (made : OfKinds phraseKinds ts) : Passes .outside ts .outside :=
  passes_ofKinds (by decide) (by decide) made

/-- In an enumeration the attributes of a member have brackets around them. -/
theorem AreAttributes.passes {attributes : List Attribute} (h : AreAttributes ts attributes) :
    Passes .members ts .members := by
  obtain ⟨lists⟩ := h
  induction lists with
  | nil => rfl
  | cons first _ ih =>
    obtain @⟨l, r, _, _, hl, all, hr⟩ := first
    -- The commas of a list are between its brackets, where no members are.
    have opens : Passes .members [l] .attributes := by
      have step : Passes .members [l] (Enclosure.members.behind l.kind) :=
        .single (by rw [hl]; decide)
      rwa [hl] at step
    have closes : Passes .attributes [r] .members := by
      have step : Passes .attributes [r] (Enclosure.attributes.behind r.kind) :=
        .single (by rw [hr]; decide)
      rwa [hr] at step
    have inner : Passes .attributes _ .attributes :=
      passes_ofKinds (by decide) (by decide) (all.ofKinds IsAttribute.ofKinds (by decide))
    exact (opens.append (inner.append closes)).append ih

theorem IsMember.passes {m : EnumMember} (h : Attributed IsMember ts m) :
    Passes .members ts .members := by
  obtain ⟨front, body⟩ := h
  refine front.passes.append ?_
  obtain ⟨hn, value⟩ := body
  cases value <;> simp_all [Passes, Enclosure.behind]

/-! ## Intact phrases -/

theorem enclosure_members {members : List EnumMember}
    (h : Separated (.punct .comma) (Attributed IsMember) ts members)
    (start : enclosure before = .members) : enclosure (before ++ ts) = .members := by
  induction h generalizing before with
  | one first => exact (IsMember.passes first).arrives start
  | cons first eq _ ih =>
    rw [← List.append_assoc, ← List.singleton_append, ← List.append_assoc]
    refine ih ?_
    rw [enclosure_snoc, (IsMember.passes first).arrives start, eq]
    rfl

/-- The commas that may be missing are in the braces of an enumeration and in no others. -/
theorem Omissible.comma_inv (h : Omissible before c after) (eq : c.kind = .punct .comma) :
    enclosure before = .members ∧ nextKind after ≠ .punct .rbrace := by
  cases h with
  | semicolon semicolon => simp [eq] at semicolon
  | brace brace => simp [eq] at brace
  | @comma outer ms k n l members _ split hk hn hl all next =>
    -- Whatever is open in front of it, the word opens an enumeration.
    have start : enclosure (outer ++ [k] ++ [n] ++ [l]) = .members := by
      simp only [enclosure_snoc, hk, hn, hl, Enclosure.behind]
    have split' : before = outer ++ [k] ++ [n] ++ [l] ++ ms := by simp [split]
    rw [split']
    exact ⟨enclosure_members all start, next⟩

/-- None of the tokens `ts` between `before` and `after` is omissible. -/
def Intact : List Token → List Token → List Token → Prop
  | _, [], _ => True
  | before, c :: ts, after => ¬ Omissible before c (ts ++ after) ∧ Intact (before ++ [c]) ts after

theorem Passes.intact (h : Passes e ts e') (start : enclosure before = e) :
    Intact before ts after := by
  induction ts generalizing before e with
  | nil => trivial
  | cons t ts ih =>
    obtain ⟨noSemicolon, noBrace, noComma, more⟩ := h
    refine ⟨fun omissible => ?_, ih more (by rw [enclosure_snoc, start])⟩
    have kind := omissible.kind
    simp only [omissibleKinds, List.mem_cons, List.not_mem_nil, or_false] at kind
    obtain semicolon | comma | brace := kind
    · exact noSemicolon semicolon
    · exact noComma comma (start.symm.trans (omissible.comma_inv comma).1)
    · exact noBrace brace

theorem intact_single (fixed : c.kind ∉ omissibleKinds) : Intact before [c] after :=
  ⟨fun omissible => fixed omissible.kind, trivial⟩

/-- Intact tokens are still there when omissible ones are missing. -/
theorem Thins.of_intact (intact : Intact before ts after) (h : Thins before (ts ++ after) us k) :
    ∃ vs, us = ts ++ vs ∧ Thins (before ++ ts) after vs k := by
  induction ts generalizing before us with
  | nil => exact ⟨us, rfl, by simpa using h⟩
  | cons c ts ih =>
    obtain ⟨first, more⟩ := intact
    rw [List.cons_append] at h
    cases h with
    | keep rest =>
      obtain ⟨vs, rfl, thins⟩ := ih more rest
      exact ⟨vs, rfl, by simpa using thins⟩
    | drop omissible => exact absurd omissible first

/-! ## Ends

Items end with a semicolon or a brace. Behind those no enumeration is open, and a semicolon there is
none that an item needs. -/

/-- The last of the tokens is a semicolon or a closing brace. -/
def Ended (ts : List Token) : Prop :=
  ∃ c, ts.getLast? = some c ∧ (c.kind = .punct .semicolon ∨ c.kind = .punct .rbrace)

theorem Ended.append_left (h : Ended us) (ts : List Token) : Ended (ts ++ us) := by
  obtain ⟨c, last, kind⟩ := h
  exact ⟨c, by rw [List.getLast?_append, last]; rfl, kind⟩

theorem Ended.outside (h : Ended ts) : enclosure (before ++ ts) = .outside := by
  obtain ⟨c, last, eq | eq⟩ := h.append_left before
  all_goals
    obtain ⟨us, eq'⟩ := List.getLast?_eq_some_iff.1 last
    rw [eq', enclosure_snoc]
    simp only [eq, Enclosure.behind]

theorem Ended.not_omissible (h : Ended ts) (eq : c.kind = .punct .semicolon) :
    ¬ Omissible (before ++ ts) c after := by
  obtain ⟨d, last, kind⟩ := h.append_left before
  intro omissible
  obtain ⟨⟨front, last', needs⟩, -⟩ := omissible.semicolon_inv eq
  cases last.symm.trans last'
  obtain eq | eq := kind <;> simp [eq, semicolonFronts] at needs

theorem Followed.ended {phrase : List Token → α → Prop} {a : α}
    (each : ∀ {ts a}, phrase ts a → Ended ts) (h : Followed (.punct .semicolon) phrase ts a) :
    Ended ts := by
  cases h with
  | bare phrase => exact each phrase
  | @marked _ _ c _ eq => exact ⟨c, by simp, .inl eq⟩

theorem Attributed.ended {phrase : List Token → (List Attribute → Span → α) → Prop} {a : α}
    (each : ∀ {ts node}, phrase ts node → Ended ts) (h : Attributed phrase ts a) : Ended ts := by
  obtain ⟨-, body⟩ := h
  exact (each body).append_left _

theorem IsField.ended {f : StructField} (h : IsField ts f) : Ended ts := by
  obtain @⟨us, n, c, type, -, -, eq⟩ := h
  exact ⟨c, by simp, .inl eq⟩

theorem AreAccessors.ended {as : List Accessor} (h : AreAccessors ts as) : Ended ts := by
  obtain @⟨l, r, us, as, -, -, -, -, eq⟩ := h
  exact Ended.append_left ⟨r, rfl, .inr eq⟩ _

theorem IsInterfaceMember.ended {node : List Attribute → Span → InterfaceMember}
    (h : IsInterfaceMember ts node) : Ended ts := by
  cases h with
  | @event k n c _ _ _ _ _ eq => exact Ended.append_left ⟨c, rfl, .inl eq⟩ _
  | @method n l r c _ _ _ _ _ _ _ _ _ eq => exact Ended.append_left ⟨c, rfl, .inl eq⟩ _
  | @property n us bs _ _ _ _ block =>
    have behind : Ended ([n] ++ bs) := (block.ended AreAccessors.ended).append_left _
    exact behind.append_left us
  | @plainProperty n c _ _ _ _ eq => exact Ended.append_left ⟨c, rfl, .inl eq⟩ _

theorem IsDeclaration.ended {d : Declaration} (h : IsDeclaration ts d) : Ended ts := by
  cases h with
  | namespace_ h =>
    refine h.ended fun body => ?_
    obtain @⟨k, l, r, _, _, _, _, -, -, -, -, eq⟩ := body
    exact Ended.append_left ⟨r, rfl, .inr eq⟩ _
  | enum h =>
    refine h.ended fun body => ?_
    obtain @⟨k, n, l, r, _, _, -, -, -, -, eq⟩ := body
    exact Ended.append_left ⟨r, rfl, .inr eq⟩ _
  | struct h =>
    refine h.ended fun body => ?_
    obtain @⟨k, n, l, r, _, _, -, -, -, -, eq⟩ := body
    exact Ended.append_left ⟨r, rfl, .inr eq⟩ _
  | delegate h =>
    refine h.ended fun body => ?_
    obtain @⟨k, n, l, r, c, _, _, _, _, -, -, -, -, -, -, eq⟩ := body
    exact Ended.append_left ⟨c, rfl, .inl eq⟩ _
  | interface h =>
    refine h.ended fun body => ?_
    obtain @⟨k, n, l, r, _, _, _, _, -, -, -, -, -, eq⟩ := body
    exact Ended.append_left ⟨r, rfl, .inr eq⟩ _

theorem IsTopLevel.ended {item : TopLevel} (h : IsTopLevel ts item) : Ended ts := by
  cases h with
  | import_ h =>
    obtain @⟨k, s, c, -, -, eq⟩ := h
    exact ⟨c, rfl, .inl eq⟩
  | namespace_ h => exact IsDeclaration.ended (.namespace_ h)

/-! ## What is next

The kinds of tokens that can be next where omissible ones are missing. -/

/-- Behind `before`, whichever omissible tokens of `after` are missing, the next one is of these
    kinds. -/
def Leads (before after : List Token) (kinds : List TokenKind) : Prop :=
  ∀ ⦃us k⦄, Thins before after us k → nextKind us ∈ kinds

theorem Leads.mono {kinds' : List TokenKind} (le : kinds ⊆ kinds') (h : Leads before after kinds) :
    Leads before after kinds' := fun _ _ thins => le (h thins)

theorem Leads.avoids {barred : List TokenKind} (h : Leads before after kinds)
    (apart : ∀ k ∈ kinds, k ∉ barred) (thins : Thins before after us k) : nextKind us ∉ barred :=
  apart _ (h thins)

theorem leads_begins (begins : nextKind ts ∈ kinds)
    (fixed : ∀ k ∈ kinds, k ∉ omissibleKinds ∧ k ≠ .eof) : Leads before (ts ++ after) kinds := by
  intro us k thins
  cases ts with
  | nil => exact absurd rfl (fixed _ begins).2
  | cons t ts =>
    cases thins with
    | keep => exact begins
    | drop omissible => exact absurd omissible.kind (fixed _ begins).1

theorem leads_nil : Leads before [] [.eof] := by
  intro us k thins
  cases thins
  exact List.mem_singleton_self _

/-- The kinds of tokens at which a list in braces ends. -/
def closers : List TokenKind := [.punct .rbrace, .eof]

theorem Thins.closes (h : Thins before after us k) (braces : ∀ t ∈ after, t.kind = .punct .rbrace) :
    nextKind us ∈ closers := by
  cases us with
  | nil => decide
  | cons t us =>
    rw [nextKind_cons, braces t (h.sublist.subset List.mem_cons_self)]
    decide

theorem leads_close (close : nextKind after = .punct .rbrace) : Leads before after closers := by
  intro us k thins
  cases thins with
  | nil => exact absurd close (by decide)
  | keep =>
    rw [nextKind_cons] at close ⊢
    rw [close]
    decide
  | drop omissible rest =>
    -- Only a brace among the last ones is omissible, so the next token is another one or none.
    exact rest.closes (omissible.brace_inv close)

/-- In front of a semicolon, or of what is behind it. -/
theorem leads_semicolon (eq : c.kind = .punct .semicolon)
    (behind : Leads (before ++ [c]) after kinds) :
    Leads before (c :: after) (.punct .semicolon :: kinds) := by
  intro us k thins
  cases thins with
  | keep => simp [eq]
  | drop _ rest => exact List.mem_cons_of_mem _ (behind rest)

/-- Among the last braces it does not matter which are missing. -/
theorem Thins.without_head (h : Thins before after (t :: us) k)
    (braces : ∀ t ∈ after, t.kind = .punct .rbrace) : Thins before after us (k + 1) := by
  induction after generalizing before k with
  | nil => cases h
  | cons c after ih =>
    obtain ⟨brace, more⟩ := List.forall_mem_cons.1 braces
    cases h with
    | keep rest => exact .drop (.brace brace more) rest
    | drop omissible rest => exact .drop omissible (ih rest more)

/-- Where a semicolon is missing, no other one is next. -/
theorem Thins.no_semicolon (h : Thins (before ++ [c]) after us k) (eq : c.kind = .punct .semicolon)
    (next : nextKind after ≠ .punct .semicolon) : nextKind us ≠ .punct .semicolon := by
  cases h with
  | nil => decide
  | keep => exact next
  | drop omissible rest =>
    have kind := omissible.kind
    simp only [omissibleKinds, List.mem_cons, List.not_mem_nil, or_false] at kind
    obtain semicolon | comma | brace := kind
    · exact absurd semicolon next
    · -- Behind a semicolon no enumeration is open.
      have between := (omissible.comma_inv comma).1
      rw [enclosure_snoc, eq] at between
      cases between
    · exact ne_of_mem_of_not_mem (rest.closes (omissible.brace_inv brace)) (by decide)

end IdlFront.Grammar
