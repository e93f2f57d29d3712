import IdlFront.Proofs.Grammar.DeclarationCompleteness
import IdlFront.Proofs.Parser.Blocks

/-! # Containers with any body

* `Header`, `IsHeader` — what stands in front of a block, and which tokens do.
* `ContainerText` — a header and a block with balanced braces, whatever is in the block.
* `Takes` — a parser consumes certain tokens and gives a value with some property, whatever it
  reports.
* `declaration_takes` — a container is read to its closing brace as one declaration.
-/

namespace IdlFront

open IdlFront.Parser IdlFront.ParserState IdlFront.Grammar

/-! ## Headers -/

/-- The declarations that have a block. -/
inductive ContainerKind where
  | namespace_ | enum | struct | interface
  deriving DecidableEq

/-- What a container is before its block. Only interfaces have bases. -/
structure Header where
  kind : ContainerKind
  name : List String
  bases : List TypeRef
  attributes : List Attribute

/-- The header of a declaration that has a block. -/
def Declaration.header? : Declaration → Option Header
  | .namespace_ ns => some ⟨.namespace_, ns.name, [], ns.attributes⟩
  | .enum d => some ⟨.enum, [d.name], [], d.attributes⟩
  | .struct d => some ⟨.struct, [d.name], [], d.attributes⟩
  | .interface d => some ⟨.interface, [d.name], d.bases, d.attributes⟩
  | .delegate _ => none

/-- The span of a declaration. -/
def Declaration.span : Declaration → Span
  | .namespace_ ns => ns.span
  | .enum d => d.span
  | .struct d => d.span
  | .delegate d => d.span
  | .interface d => d.span

/-- `'namespace' qualified | 'enum' IDENT | 'struct' IDENT | 'interface' IDENT bases` -/
inductive IsTitle : List Token → (List Attribute → Header) → Prop where
  | namespace_ {k : Token} {ns : List Token} {name : List String} :
      k.kind = .keyword .namespace_ → IsQualified ns name →
      IsTitle (k :: ns) fun attributes => ⟨.namespace_, name, [], attributes⟩
  | enum {k n : Token} : k.kind = .keyword .enum → n.kind = .identifier →
      IsTitle [k, n] fun attributes => ⟨.enum, [n.value], [], attributes⟩
  | struct {k n : Token} : k.kind = .keyword .struct → n.kind = .identifier →
      IsTitle [k, n] fun attributes => ⟨.struct, [n.value], [], attributes⟩
  | interface {k n : Token} {bs : List Token} {bases : List TypeRef} :
      k.kind = .keyword .interface → n.kind = .identifier → AreBases bs bases →
      IsTitle (k :: n :: bs) fun attributes => ⟨.interface, [n.value], bases, attributes⟩

/-- `attributes* title` -/
inductive IsHeader : List Token → Header → Prop where
  | mk {as ts : List Token} {attributes : List Attribute} {header : List Attribute → Header} :
      AreAttributes as attributes → IsTitle ts header → IsHeader (as ++ ts) (header attributes)

/-- A container as it stands in a text: a header of the grammar, and a block that holds any tokens
    with balanced braces. -/
structure ContainerText where
  front : List Token
  opening : Token
  body : List Token
  closing : Token
  header : Header
  isHeader : IsHeader front header
  opens : opening.kind = .punct .lbrace
  balanced : Balanced body
  closes : closing.kind = .punct .rbrace

namespace ContainerText

/-- All tokens of a container. -/
def tokens (c : ContainerText) : List Token := c.front ++ c.opening :: c.body ++ [c.closing]

/-- The same container with nothing in its block. -/
def emptied (c : ContainerText) : ContainerText :=
  { c with body := [], balanced := balanced_nil }

/-- The declaration has the header of the container, and its span ends at the brace that closes the
    block. -/
def IsNode (c : ContainerText) (d : Declaration) : Prop :=
  d.header? = some c.header ∧ d.span = spanOver c.tokens

end ContainerText

/-! ## Runs with reports -/

namespace Parser

variable {α β : Type} {p : Parser α} {P : α → Prop} {Q : β → Prop} {stop : Int}
  {ts us rest : List Token} {a : α}

/-- With the last token ending at `stop`, the parser consumes just `ts` where `rest` comes next, and
    gives a value with the property. -/
def Takes (p : Parser α) (stop : Int) (ts : List Token) (P : α → Prop) (rest : List Token) : Prop :=
  ∀ s : ParserState, s.Plain → s.prevStop = stop → s.tokens = ts ++ rest →
    ∃ a ds t, p s = .ok a t ∧ s.Moves ts ds t ∧ P a

theorem Accepts.takes (h : Accepts p stop ts a rest) (good : P a) : Takes p stop ts P rest := by
  intro s plain hstop tokens
  obtain ⟨t, run⟩ := h s plain hstop tokens
  exact ⟨a, [], t, run.result, run.moves, good⟩

theorem Takes.bind {f : α → Parser β} (h : Takes p stop ts P (us ++ rest))
    (next : ∀ a, P a → Takes (f a) (stopAfter stop ts) us Q rest) :
    Takes (p >>= f) stop (ts ++ us) Q rest := by
  intro s plain hstop tokens
  obtain ⟨a, ds, t, first, moves, good⟩ := h s plain hstop (by rw [tokens, List.append_assoc])
  obtain ⟨b, es, u, second, moves', good'⟩ := next a good t moves.plainAfter
    (by rw [moves.prevStop, hstop]) (moves.rest (by rw [tokens, List.append_assoc]))
  exact ⟨b, ds ++ es, u, by rw [bind_apply, first]; exact second, moves.trans moves', good'⟩

theorem Accepts.takes_bind {f : α → Parser β} (h : Accepts p stop ts a (us ++ rest))
    (next : Takes (f a) (stopAfter stop ts) us Q rest) : Takes (p >>= f) stop (ts ++ us) Q rest := by
  have read : Takes p stop ts (· = a) (us ++ rest) := h.takes rfl
  exact read.bind fun a' eq => eq ▸ next

theorem Takes.weaken {P' : α → Prop} (h : Takes p stop ts P rest) (le : ∀ a, P a → P' a) :
    Takes p stop ts P' rest := by
  intro s plain hstop tokens
  obtain ⟨a, ds, t, run, moves, good⟩ := h s plain hstop tokens
  exact ⟨a, ds, t, run, moves, le a good⟩

theorem Takes.thenPure {f : α → β} (h : Takes p stop ts (fun a => Q (f a)) rest) :
    Takes (do return f (← p)) stop ts Q rest := by
  intro s plain hstop tokens
  obtain ⟨a, ds, t, run, moves, good⟩ := h s plain hstop tokens
  exact ⟨f a, ds, t, by rw [bind_apply, run]; rfl, moves, good⟩

theorem Takes.map {f : α → β} (h : Takes p stop ts (fun a => Q (f a)) rest) :
    Takes (f <$> p) stop ts Q rest := by
  intro s plain hstop tokens
  obtain ⟨a, ds, t, run, moves, good⟩ := h s plain hstop tokens
  exact ⟨f a, ds, t, by rw [map_apply, run], moves, good⟩

/-- A block with balanced braces is read up to the brace that closes it. -/
theorem takes_block {loop : Parser β} [Uniform loop] [h : BlockBody loop] {q : β → Parser α}
    {l r : Token} {B : List Token} (hl : l.kind = .punct .lbrace) (hr : r.kind = .punct .rbrace)
    (hB : Closes 0 B) (next : ∀ b, Takes (q b) r.stop [] P rest) :
    Takes (do discard (expect (.punct .lbrace)); let b ← loop; expectOrReport (.punct .rbrace); q b)
      stop (l :: B ++ [r]) P rest := by
  have inside : Takes loop l.stop B (fun _ => True) (r :: rest) := by
    intro s plain hstop tokens
    obtain ⟨b, t, run, -, closing⟩ := h.reaches_close (⟨plain, hr, B, hB, tokens⟩ : Within r rest s)
    obtain ⟨ts, ds, moves⟩ := loop.moves plain
    rw [after_ok run] at moves
    have all := moves.tokens
    rw [tokens, closing] at all
    exact ⟨b, ds, t, run, List.append_cancel_right all ▸ moves, trivial⟩
  refine (accepts_expect hl).discard.takes_bind (inside.bind fun b _ => ?_)
  rw [← List.append_nil [r]]
  exact (accepts_expectOrReport hr).takes_bind (next b)

theorem takes_currentThen {f : Token → Parser β} {first : Token} (head : ts.head? = some first)
    (h : Takes (f first) stop ts Q rest) : Takes (current >>= f) stop ts Q rest := by
  obtain ⟨us, rfl⟩ := List.head?_eq_some_iff.1 head
  have both : Takes (current >>= f) stop ([] ++ first :: us) Q rest := accepts_current.takes_bind h
  exact both

theorem takes_checkThen {kind : TokenKind} {yes no : Parser α} (eq : nextKind (ts ++ rest) = kind)
    (h : Takes yes stop ts P rest) :
    Takes (do if ← check [kind] then yes else no) stop ts P rest := by
  have both : Takes (do if ← check [kind] then yes else no) stop ([] ++ ts) P rest := by
    refine accepts_check.takes_bind ?_
    rwa [if_pos (by simp [eq])]
  exact both

theorem takes_spanFrom {start : Token} {node : Span → α} (good : P (node (start.spanUntil stop))) :
    Takes (do return node (← spanFrom start)) stop [] P rest := accepts_spanFrom.takes good

end Parser

/-! ## Containers -/

section Containers

variable {inner : Parser Declaration} [Uniform inner] [Consumes inner] [Confined inner]
  {start l r : Token} {attributes : List Attribute} {stop : Int} {ts B rest : List Token}
  (hl : l.kind = .punct .lbrace) (hB : Closes 0 B) (hr : r.kind = .punct .rbrace)

include hl hB hr

theorem namespacePhrase_takes {k : Token} {name : List String} (hk : k.kind = .keyword .namespace_)
    (hname : IsQualified ts name) :
    Takes (namespacePhrase inner start attributes) stop (k :: ts ++ l :: B ++ [r])
      (fun ns => ns.name = name ∧ ns.attributes = attributes ∧ ns.span = start.spanUntil r.stop)
      rest := by
  simp only [List.cons_append, List.append_assoc]
  refine (accepts_expect hk).discard.takes_bind
    ((segments_complete hname (by simp [hl])).takes_bind (takes_block hl hr hB fun ds => ?_))
  exact takes_spanFrom ⟨rfl, rfl, rfl⟩

theorem enumDecl_takes {k n : Token} (hk : k.kind = .keyword .enum) (hn : n.kind = .identifier) :
    Takes (enumDecl start attributes) stop ([k, n] ++ l :: B ++ [r])
      (fun d => d.name = n.value ∧ d.attributes = attributes ∧ d.span = start.spanUntil r.stop)
      rest := by
  refine (accepts_expect hk).discard.takes_bind ((accepts_expect hn).takes_bind
    (takes_block hl hr hB fun members => ?_))
  exact takes_spanFrom ⟨rfl, rfl, rfl⟩

theorem structDecl_takes {k n : Token} (hk : k.kind = .keyword .struct)
    (hn : n.kind = .identifier) :
    Takes (structDecl start attributes) stop ([k, n] ++ l :: B ++ [r])
      (fun d => d.name = n.value ∧ d.attributes = attributes ∧ d.span = start.spanUntil r.stop)
      rest := by
  refine (accepts_expect hk).discard.takes_bind ((accepts_expect hn).takes_bind
    (takes_block hl hr hB fun fields => ?_))
  exact takes_spanFrom ⟨rfl, rfl, rfl⟩

theorem interfaceDecl_takes {k n : Token} {bases : List TypeRef}
    (hk : k.kind = .keyword .interface) (hn : n.kind = .identifier) (hbases : AreBases ts bases) :
    Takes (interfaceDecl start attributes) stop (k :: n :: ts ++ l :: B ++ [r])
      (fun d => d.name = n.value ∧ d.bases = bases ∧ d.attributes = attributes ∧
        d.span = start.spanUntil r.stop) rest := by
  simp only [List.cons_append, List.append_assoc]
  refine (accepts_expect hk).discard.takes_bind ((accepts_expect hn).takes_bind
    ((bases_complete hbases (by simpa using hl)).takes_bind (takes_block hl hr hB fun members => ?_)))
  exact takes_spanFrom ⟨rfl, rfl, rfl, rfl⟩

/-- The title tells which declaration it is, and the declaration reads on from there. -/
theorem declarationBody_takes {header : List Attribute → Header} (title : IsTitle ts header) :
    Takes (declarationBody inner start attributes) stop (ts ++ l :: B ++ [r])
      (fun d => d.header? = some (header attributes) ∧ d.span = start.spanUntil r.stop) rest := by
  cases title with
  | namespace_ hk hname =>
    refine takes_currentThen rfl ?_
    simp only [hk]
    refine ((namespacePhrase_takes hl hB hr hk hname).weaken fun ns h => ?_).map
    exact ⟨by simp [Declaration.header?, h.1, h.2.1], h.2.2⟩
  | enum hk hn =>
    refine takes_currentThen rfl ?_
    simp only [hk]
    refine ((enumDecl_takes hl hB hr hk hn).weaken fun d h => ?_).map
    exact ⟨by simp [Declaration.header?, h.1, h.2.1], h.2.2⟩
  | struct hk hn =>
    refine takes_currentThen rfl ?_
    simp only [hk]
    refine ((structDecl_takes hl hB hr hk hn).weaken fun d h => ?_).map
    exact ⟨by simp [Declaration.header?, h.1, h.2.1], h.2.2⟩
  | interface hk hn hbases =>
    refine takes_currentThen rfl ?_
    simp only [hk]
    refine ((interfaceDecl_takes hl hB hr hk hn hbases).weaken fun d h => ?_).map
    exact ⟨by simp [Declaration.header?, h.1, h.2.1, h.2.2.1], h.2.2.2⟩

end Containers

theorem IsTitle.begins {ts : List Token} {header : List Attribute → Header}
    (h : IsTitle ts header) : nextKind ts ∈ declarationKeywords := by
  cases h with
  | namespace_ hk => simp [hk, declarationKeywords]
  | enum hk => simp [hk, declarationKeywords]
  | struct hk => simp [hk, declarationKeywords]
  | interface hk => simp [hk, declarationKeywords]

namespace ContainerText

variable {stop : Int} {rest : List Token}

theorem head (c : ContainerText) : ∃ first, c.tokens.head? = some first :=
  ⟨_, List.head?_eq_some_head (by simp [tokens])⟩

/-- A container is read to its closing brace as one declaration. -/
theorem declarationPhrase_takes (c : ContainerText) {inner : Parser Declaration} [Uniform inner]
    [Consumes inner] [Confined inner] :
    Takes (declarationPhrase inner) stop c.tokens c.IsNode rest := by
  obtain ⟨first, head⟩ := c.head
  have span := spanUntil_stopAfter head stop
  obtain ⟨front, l, B, r, header, isHeader, hl, balanced, hr⟩ := c
  obtain @⟨as, ts, attributes, header, hattributes, title⟩ := isHeader
  unfold IsNode
  rw [← span]
  simp only [tokens, List.append_assoc] at head ⊢
  have next := nextKind_append_mem title.begins (by decide) (l :: B ++ [r] ++ rest)
  refine takes_currentThen head (Accepts.takes_bind (attributeLists_complete hattributes ?_) ?_)
  · simpa using ne_of_mem_of_not_mem next (by decide)
  · have body : Takes (declarationBody inner first attributes) (stopAfter stop as)
        (ts ++ l :: B ++ [r]) _ rest :=
      declarationBody_takes hl (balanced_iff_closes.1 balanced) hr title
    simpa using body

theorem declaration_takes (c : ContainerText) : Takes declaration stop c.tokens c.IsNode rest := by
  intro s plain hstop tokens
  rw [declaration_apply]
  exact c.declarationPhrase_takes s plain hstop tokens

/-- The value is a namespace for the text. -/
def IsNamespaceNode (c : ContainerText) (item : TopLevel) : Prop :=
  ∃ ns, item = .namespace_ ns ∧ c.IsNode (.namespace_ ns)

theorem topLevel_takes (c : ContainerText) (kind : c.header.kind = .namespace_) :
    Takes topLevel stop c.tokens c.IsNamespaceNode rest := by
  obtain ⟨first, head⟩ := c.head
  have span := spanUntil_stopAfter head stop
  obtain ⟨front, l, B, r, header, isHeader, hl, balanced, hr⟩ := c
  obtain @⟨as, ts, attributes, header, hattributes, title⟩ := isHeader
  cases title with
  | @namespace_ k ns name hk hname =>
    unfold IsNamespaceNode IsNode
    rw [← span]
    simp only [tokens, List.append_assoc] at head ⊢
    refine takes_currentThen head ?_
    -- Attributes or the keyword of a namespace stand first, so it is not an import.
    have notImport : first.kind ≠ .keyword .import_ := by
      rw [← nextKind_of_head head]
      obtain rfl | bracket := hattributes.begins
      · simp [hk]
      · exact ne_of_mem_of_not_mem (nextKind_append_mem bracket (by decide) _) (by decide)
    rw [if_neg notImport]
    refine Accepts.takes_bind (attributeLists_complete hattributes (by simp [hk])) ?_
    refine takes_checkThen (by simp [hk]) (Takes.thenPure ?_)
    have body : Takes (namespaceDecl first attributes) (stopAfter stop as)
        (k :: ns ++ l :: B ++ [r]) _ rest :=
      namespacePhrase_takes hl (balanced_iff_closes.1 balanced) hr hk hname
    simp only [List.append_assoc] at body
    refine body.weaken fun ns h => ⟨ns, rfl, ?_, ?_⟩
    · simp [Declaration.header?, h.1, h.2.1]
    · simpa [Declaration.span] using h.2.2
  | enum => cases kind
  | struct => cases kind
  | interface => cases kind

end ContainerText

end IdlFront
