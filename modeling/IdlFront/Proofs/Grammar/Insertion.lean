import IdlFront.Proofs.Grammar.Omission
import IdlFront.Proofs.Lexical.Joining
import IdlFront.Proofs.Parser.Placeless

/-! # Items between items

An item may be put between two items of a source, and those around it stay what they are.

* `Grammar.Many.cut` — items are cut at a place that none of them goes over.
* `parse_of_words` — a text whose words are those of a file is parsed to its tree, up to spans.
* `BetweenItems` — a place of a source where another item may stand.
* `parse_inserted` — text of further items at such a place.
-/

namespace IdlFront

open Lexical Grammar ParserState

/-! ## Items and places -/

/-- Where an item at the top level is. -/
def TopLevel.span : TopLevel → Span
  | .import_ i => i.span
  | .namespace_ ns => ns.span

namespace Grammar

variable {ts us : List Token} {item : TopLevel} {items : List TopLevel} {place : Int}

theorem IsTopLevel.span_eq (h : IsTopLevel ts item) : item.span = spanOver ts := by
  cases h with
  | import_ h =>
    cases h
    rfl
  | namespace_ h =>
    obtain ⟨-, body⟩ := h
    cases body
    rfl

theorem IsTopLevel.ne_nil (h : IsTopLevel ts item) : ts ≠ [] := by
  obtain ⟨last, eq, -⟩ := h.ended
  rintro rfl
  cases eq

theorem stop_le_spanOver_stop {t : Token} (last : ts.getLast? = some t) :
    t.stop ≤ (spanOver ts).stop := by
  cases ts with
  | nil => cases last
  | cons first ts =>
    rw [List.getLast?_eq_some_getLast (List.cons_ne_nil first ts)] at last
    cases last
    exact Int.le_max_right _ _

theorem IsTopLevel.stop_le (h : IsTopLevel ts item) (before : ∀ t ∈ ts, t.stop ≤ place) :
    item.span.stop ≤ place := by
  rw [h.span_eq]
  cases ts with
  | nil => exact absurd rfl h.ne_nil
  | cons first ts =>
    have last := before _ (List.getLast_mem (List.cons_ne_nil first ts))
    have start := before first List.mem_cons_self
    exact Int.max_le.2 ⟨Int.le_trans (offset_le_stop first) start, last⟩

theorem IsTopLevel.le_start (h : IsTopLevel ts item) (behind : ∀ t ∈ ts, place ≤ t.offset) :
    place ≤ item.span.start := by
  rw [h.span_eq]
  cases ts with
  | nil => exact absurd rfl h.ne_nil
  | cons first ts => exact behind first List.mem_cons_self

/-- Where no item goes over a place, the items are cut where the tokens are. -/
theorem Many.cut {all : List Token} (h : Many IsTopLevel all items) (eq : all = ts ++ us)
    (before : ∀ t ∈ ts, t.offset < place) (behind : ∀ t ∈ us, place < t.stop)
    (clear : ∀ item ∈ items, item.span.stop ≤ place ∨ place ≤ item.span.start) :
    ∃ earlier later, items = earlier ++ later ∧ Many IsTopLevel ts earlier ∧
      Many IsTopLevel us later := by
  induction h generalizing ts with
  | nil =>
    obtain ⟨rfl, rfl⟩ := List.append_eq_nil_iff.1 eq.symm
    exact ⟨[], [], rfl, .nil, .nil⟩
  | @cons vs ws item items first others ih =>
    obtain ⟨here, clear⟩ := List.forall_mem_cons.1 clear
    obtain ⟨more, rfl, rfl⟩ | ⟨more, rfl, rfl⟩ := List.append_eq_append_iff.1 eq
    · -- The item ends in front of the place.
      obtain ⟨earlier, later, rfl, front, back⟩ :=
        ih rfl (List.forall_mem_append.1 before).2 clear
      exact ⟨item :: earlier, later, rfl, .cons first front, back⟩
    · cases ts with
      | nil => exact ⟨[], item :: items, rfl, .nil, .cons first others⟩
      | cons t ts =>
        cases more with
        | nil =>
          have only := Many.cons first .nil
          rw [List.append_nil, List.append_nil] at only
          exact ⟨[item], items, rfl, only, others⟩
        | cons u more =>
          -- Tokens on both sides of the place: the item would go over it.
          obtain ⟨v, last⟩ : ∃ v, (u :: more).getLast? = some v :=
            ⟨_, List.getLast?_eq_some_getLast (List.cons_ne_nil u more)⟩
          have whole : (t :: ts ++ u :: more).getLast? = some v := by
            rw [List.getLast?_append, last]
            rfl
          have reaches := stop_le_spanOver_stop whole
          have ends := behind _ (List.mem_append_left ws (List.mem_of_getLast? last))
          have starts := before t List.mem_cons_self
          have start : (spanOver (t :: ts ++ u :: more)).start = t.offset := rfl
          rw [first.span_eq] at here
          omega

theorem isFile_iff {tree : IdlFile} :
    IsFile ts tree ↔ ∃ items, tree = treeOf items ∧ Many IsTopLevel ts items := by
  constructor
  · rintro ⟨many⟩
    exact ⟨_, rfl, many⟩
  · rintro ⟨items, rfl, many⟩
    exact .mk many

/-- The items end with a semicolon or a closing brace. -/
theorem Many.ended (h : Many IsTopLevel ts items) {t : Token} (last : ts.getLast? = some t) :
    t.kind = .punct .semicolon ∨ t.kind = .punct .rbrace := by
  induction h with
  | nil => cases last
  | @cons vs ws item items first _ ih =>
    rw [List.getLast?_append] at last
    cases end_ : ws.getLast? with
    | some u =>
      rw [end_] at last
      cases last
      exact ih end_
    | none =>
      rw [end_] at last
      obtain ⟨u, eq, kind⟩ := first.ended
      rw [eq] at last
      cases last
      exact kind

end Grammar

/-! ## Trees of items -/

namespace Grammar

variable {items : List TopLevel}

theorem mem_imports_treeOf {i : Import} : i ∈ (treeOf items).imports ↔ .import_ i ∈ items := by
  constructor
  · intro mem
    obtain ⟨item, mem, eq⟩ := List.mem_filterMap.1 mem
    cases item with
    | import_ j =>
      cases eq
      exact mem
    | namespace_ ns => cases eq
  · exact fun mem => List.mem_filterMap.2 ⟨_, mem, rfl⟩

theorem mem_namespaces_treeOf {ns : Namespace} (mem : .namespace_ ns ∈ items) :
    ns ∈ (treeOf items).namespaces :=
  List.mem_filterMap.2 ⟨_, mem, rfl⟩

end Grammar

/-! ## Texts with given words -/

/-- Behind tokens without an end of input one is placed that has no text. -/
theorem word_ending_ofTokens {ts : List Token} (noEof : ∀ t ∈ ts, t.kind ≠ .eof) :
    (initial (.ofTokens ts)).ending.word = (.eof, "") := by
  have all : ((ts.map fun t => (⟨[], t⟩ : Arrival)).takeWhile fun a => !a.token.isEof) =
      ts.map fun t => ⟨[], t⟩ :=
    List.takeWhile_eq_self_iff.2 (by simpa [Token.isEof] using noEof)
  show (TokenStream.ofTokens ts).last.token.word = _
  rw [TokenStream.ofTokens, TokenStream.ofArrivals]
  simp only [all, List.drop_length]
  unfold TokenStream.missingEnd
  split <;> rfl

/-- A text whose words are those of a file of the grammar is parsed to the tree of the file, up to
    spans. -/
theorem parse_of_words {source : String} {ts : List Token} {tree : IdlFile}
    (has : HasWords source.toList (ts.map Token.word)) (file : IsFile ts tree) :
    ∃ tree', parse source = ⟨tree', []⟩ ∧ tree'.bare = tree.bare := by
  obtain ⟨quiet, words⟩ := hasWords_iff.1 has
  rw [← tokens_ofSource, List.map_append] at words
  obtain ⟨tokens, ending⟩ := List.append_inj' words rfl
  have noEof : ∀ t ∈ ts, t.kind ≠ .eof := by
    intro t mem
    have mem : t.word ∈ (initial (.ofSource source)).tokens.map Token.word :=
      tokens ▸ List.mem_map_of_mem mem
    obtain ⟨u, mem, same⟩ := List.mem_map.1 mem
    have kind : u.kind = t.kind := congrArg Prod.fst same
    rw [← kind]
    exact noEof_initial _ u mem
  have all : beforeEof ts = ts :=
    List.takeWhile_eq_self_iff.2 (by simpa [Token.isEof] using noEof)
  -- The source and the tokens run side by side, with the same words and different places.
  have beside : (initial (.ofSource source)).Beside (initial (.ofTokens ts)) := {
    plain := plain_initial (List.flatMap_eq_nil_iff.1 quiet)
    plain' := plain_ofTokens ts
    tokens := by rw [tokens, tokens_ofTokens, all]
    ending := (List.cons.inj ending).1.trans (word_ending_ofTokens noEof).symm
    consumed := (consumed_initial _).trans (consumed_initial _).symm
    messages := rfl }
  obtain ⟨same, silent⟩ := parseStream_beside beside
  rw [(parseStream_iff (plain_ofTokens ts)).2 (by rwa [tokens_ofTokens, all])] at same silent
  exact ⟨(parse source).tree, congrArg (ParseResult.mk _) (List.map_eq_nil_iff.1 silent), same⟩

/-! ## Insertion -/

/-- Between `before` and `after` another item may stand: no lexeme and no item of the source goes
    over this place, and no line comment ends there. -/
structure BetweenItems (before after : String) (tree : IdlFile) : Prop where
  lexemes : ∃ ls ls', Splits (before ++ after).toList (ls ++ ls') ∧ textOf ls = before.toList ∧
    ∀ l, ls.getLast? = some l → l.kind ≠ .lineComment
  imports : ∀ i ∈ tree.imports, i.span.stop ≤ before.length ∨ before.length ≤ i.span.start
  namespaces : ∀ ns ∈ tree.namespaces, ns.span.stop ≤ before.length ∨ before.length ≤ ns.span.start

theorem BetweenItems.clear {before after : String} {items : List TopLevel}
    (h : BetweenItems before after (treeOf items)) :
    ∀ item ∈ items, item.span.stop ≤ before.length ∨ before.length ≤ item.span.start := by
  intro item mem
  cases item with
  | import_ i => exact h.imports i (mem_imports_treeOf.2 mem)
  | namespace_ ns => exact h.namespaces ns (mem_namespaces_treeOf mem)

/-- The tokens of a source are those of its lexemes. -/
theorem beforeEof_of_splits {source : String} {ls : List Lexeme} (h : Splits source.toList ls) :
    beforeEof (tokenize source).tokens = placed [] ls := by
  have upcoming : (initial (.ofSource source)).tokens = beforeEof (tokenize source).tokens :=
    tokens_initial (arrivals source)
  have tokens := calc
    _ = (tokenize source).tokens := tokens_ofSource source
    _ = tokensFrom [] ls := congrArg Tokenized.tokens (tokenize_of_splits h)
    _ = placed [] ls ++ _ := tokensFrom_eq [] ls
  rw [← upcoming]
  exact (List.append_inj' tokens rfl).1

/-- Lexemes whose tokens are items are closed, unless a line comment comes last. -/
theorem closed_of_items {ls : List Lexeme} {items : List TopLevel}
    (h : Many IsTopLevel (placed [] ls) items)
    (noComment : ∀ l, ls.getLast? = some l → l.kind ≠ .lineComment) : Closed ls where
  mark word last := by
    rw [← words_placed [], List.getLast?_map] at last
    obtain ⟨t, final, rfl⟩ := Option.map_eq_some_iff.1 last
    obtain kind | kind := h.ended final
    · exact ⟨.semicolon, by decide, kind⟩
    · exact ⟨.rbrace, by decide, kind⟩
  comment := noComment

/-- At a place between the items of a source that is parsed without complaint any text of items may be
    put in: the source stays without complaint, and the new items come between those in front of the
    place and those behind it. -/
theorem parse_inserted {before after text : String} {tree : IdlFile} {ts : List Token}
    {items : List TopLevel} (parsed : parse (before ++ after) = ⟨tree, []⟩)
    (between : BetweenItems before after tree) (inserted : Many IsTopLevel ts items)
    (has : ∀ rest words, HasWords rest words →
      HasWords (text.toList ++ rest) (ts.map Token.word ++ words)) :
    ∃ earlier later tree', tree = treeOf (earlier ++ later) ∧
      (∀ item ∈ earlier, item.span.stop ≤ before.length) ∧
      (∀ item ∈ later, before.length ≤ item.span.start) ∧
      parse (before ++ text ++ after) = ⟨tree', []⟩ ∧
      tree'.bare = (treeOf (earlier ++ items ++ later)).bare := by
  obtain ⟨ls, ls', splits, front, noComment⟩ := between.lexemes
  obtain ⟨quiet, file⟩ := parse_source_iff.1 parsed
  rw [beforeEof_of_splits splits, placed_append, List.nil_append, front] at file
  rw [tokenize_of_splits splits] at quiet
  have sound := (faultsFrom_eq_nil_iff [] _).1 quiet
  have nonempty : ∀ l ∈ ls ++ ls', l.text ≠ [] := fun l mem =>
    (splits.front l mem).elim fun _ front => front.text_ne_nil
  have early := placed_bounds [] (List.forall_mem_append.1 nonempty).1
  have late := placed_bounds before.toList (List.forall_mem_append.1 nonempty).2
  rw [List.nil_append, front, String.length_toList] at early
  rw [String.length_toList] at late
  -- The items are cut where the lexemes are.
  obtain ⟨all, rfl, many⟩ := isFile_iff.1 file
  obtain ⟨earlier, later, rfl, first, second⟩ := many.cut rfl
    (fun t mem => Int.lt_of_lt_of_le (early t mem).2.1 (early t mem).2.2)
    (fun t mem => Int.lt_of_le_of_lt (late t mem).1 (late t mem).2.1) between.clear
  -- The words of the new text are those of the parts.
  rw [String.toList_append, ← front] at splits
  have behind : HasWords after.toList (ls'.filterMap wordOf?) :=
    ⟨ls', splits.right, (List.forall_mem_append.1 sound).2, rfl⟩
  have whole := (has _ _ behind).behind splits (List.forall_mem_append.1 sound).1
    (closed_of_items first noComment)
  rw [← words_placed [], ← words_placed before.toList, ← List.append_assoc, ← List.map_append,
    ← List.map_append, ← List.append_assoc, front, ← String.toList_append,
    ← String.toList_append] at whole
  obtain ⟨tree', result, same⟩ := parse_of_words whole (.mk ((first.append inserted).append second))
  refine ⟨earlier, later, tree', rfl, ?_, ?_, result, same⟩
  · intro item mem
    obtain ⟨us, sub, phrase⟩ := first.of_mem mem
    exact phrase.stop_le fun t mem => (early t (sub mem)).2.2
  · intro item mem
    obtain ⟨us, sub, phrase⟩ := second.of_mem mem
    exact phrase.le_start fun t mem => (late t (sub mem)).1

end IdlFront
