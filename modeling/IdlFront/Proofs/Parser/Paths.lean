import IdlFront.Proofs.Parser.Spelling

/-! # Paths of imports, whatever their literals

The scanner tells from the left where a string literal ends, and `Import.contents` looks at its last
character. They agree on every literal that is closed, and on every other one that does not end in an
escaped quote.

* `Resolves` — a text with its escapes resolved.
* `report_mem_faultsFrom` — the faults reported at a token are those of its lexeme.
* `unescape_cut` — the quote at the end of a literal that is not closed is escaped.
* `Import.Resolved` — the literal that an import stands for, and what the path makes of it.
* `paths_resolved` — all imports in the tree of any source are such.
-/

namespace IdlFront

open Lexical

/-! ## Escapes -/

/-- Every backslash gives way to the character after it, and a lone one at the end stays. -/
inductive Resolves : List Char → List Char → Prop where
  | nil : Resolves [] []
  | lone : Resolves ['\\'] ['\\']
  | pair {c : Char} {cs ds : List Char} : Resolves cs ds → Resolves ('\\' :: c :: cs) (c :: ds)
  | plain {c : Char} {cs ds : List Char} :
      c ≠ '\\' → Resolves cs ds → Resolves (c :: cs) (c :: ds)

theorem unescape_plain {c : Char} (noBackslash : c ≠ '\\') (cs : List Char) :
    unescape (c :: cs) = c :: unescape cs :=
  unescape.eq_2 c cs fun _ _ backslash => absurd backslash noBackslash

theorem resolves_unescape (cs : List Char) : Resolves cs (unescape cs) := by
  induction cs using unescape.induct with
  | case1 c cs ih => exact .pair ih
  | case2 c cs noPair ih =>
    by_cases backslash : c = '\\'
    · obtain rfl : cs = [] := by
        cases cs with
        | nil => rfl
        | cons d ds => exact (noPair d ds backslash rfl).elim
      exact backslash ▸ .lone
    · rw [unescape_plain backslash]
      exact .plain backslash ih
  | case3 => exact .nil

/-- The quote at the end of a text in which no literal ends is an escaped one, so a backslash is left
    where it is cut off. -/
theorem unescape_cut {front : List Char} (oneLine : '\n' ∉ front)
    (never : ∀ body, StringBody body → ¬ body ++ ['"'] <+: front ++ ['"']) :
    ∃ kept, unescape front = kept ++ ['\\'] ∧ unescape (front ++ ['"']) = kept ++ ['"'] := by
  -- By the steps of unescaping: no quote comes before the last one, so the text ends inside an escape.
  induction front using unescape.induct with
  | case1 c cs ih =>
    obtain ⟨lineFeed, oneLine⟩ : c ≠ '\n' ∧ '\n' ∉ cs := by
      simp only [List.mem_cons, not_or] at oneLine
      exact ⟨Ne.symm oneLine.2.1, oneLine.2.2⟩
    obtain ⟨kept, whole, cut⟩ := ih oneLine fun body isBody front =>
      never ('\\' :: c :: body) (.escape lineFeed isBody)
        ((List.prefix_cons_inj _).2 ((List.prefix_cons_inj _).2 front))
    exact ⟨c :: kept, congrArg (c :: ·) whole, congrArg (c :: ·) cut⟩
  | case2 c cs noPair ih =>
    obtain ⟨lineFeed, oneLine⟩ : c ≠ '\n' ∧ '\n' ∉ cs := by
      simp only [List.mem_cons, not_or] at oneLine
      exact ⟨Ne.symm oneLine.1, oneLine.2⟩
    by_cases backslash : c = '\\'
    · subst backslash
      cases cs with
      | nil => exact ⟨[], rfl, rfl⟩
      | cons d ds => exact (noPair d ds rfl rfl).elim
    have quote : c ≠ '"' := by
      rintro rfl
      exact never [] .nil ⟨cs ++ ['"'], rfl⟩
    obtain ⟨kept, whole, cut⟩ := ih oneLine fun body isBody front =>
      never (c :: body) (.plain quote backslash lineFeed isBody) ((List.prefix_cons_inj _).2 front)
    refine ⟨c :: kept, ?_, ?_⟩
    · rw [unescape_plain backslash, whole, List.cons_append]
    · rw [List.cons_append, unescape_plain backslash, cut, List.cons_append]
  | case3 => exact absurd List.prefix_rfl (never [] .nil)

/-! ## Contents of literals -/

section Contents

variable {body : List Char}

theorem betweenQuotes_append (front : List Char) :
    betweenQuotes ('"' :: (front ++ ['"'])) = front := by
  simp [betweenQuotes, List.getLast?_cons]

theorem betweenQuotes_open (last : body.getLast? ≠ some '"') : betweenQuotes ('"' :: body) = body := by
  cases body with
  | nil => rfl
  | cons c cs => simp_all [betweenQuotes]

theorem toList_contents {literal : String} {cs : List Char} (value : literal.toList = cs) :
    (Import.contents literal).toList = unescape (betweenQuotes cs) := by
  rw [Import.contents, value, String.toList_ofList]

end Contents

/-! ## Faults at tokens -/

namespace Lexical

variable {rest before : List Char} {ls : List Lexeme} {t : Token}

theorem mem_faults_iff {p : Position} {l : Lexeme} {d : Diagnostic} :
    d ∈ p.faults l ↔ ∃ problem, l.fault = some problem ∧ d = ⟨p.line, p.column, problem⟩ := by
  simp [Position.faults, eq_comm]

/-- What is reported at a token while a text is split is the fault of the lexeme that the token is. -/
theorem report_mem_faultsFrom (splits : Splits rest ls) (mem : t ∈ tokensFrom before ls)
    (noEof : t.kind ≠ .eof) : ∃ l rest', Front l rest' ∧ l.kind = .token t.kind ∧
      t.value.toList = l.text ∧
      ∀ problem, t.report problem ∈ faultsFrom before ls ↔ l.fault = some problem := by
  induction splits generalizing before with
  | nil =>
    rw [tokensFrom, List.mem_singleton] at mem
    exact absurd (congrArg Token.kind mem) noEof
  | @cons l rest ls front splits ih =>
    have further : (placeOf before).place < (placeOf (before ++ l.text)).place := by
      rw [← after_placeOf]
      exact Position.place_after _ front.text_ne_nil
    -- A token behind the first lexeme has none of its faults.
    have behind : t ∈ tokensFrom (before ++ l.text) ls → ∃ l' rest', Front l' rest' ∧
        l'.kind = .token t.kind ∧ t.value.toList = l'.text ∧
        ∀ problem, t.report problem ∈ faultsFrom before (l :: ls) ↔ l'.fault = some problem := by
      intro mem
      obtain ⟨l', rest', front', kind, value, faults⟩ := ih mem
      refine ⟨l', rest', front', kind, value, fun problem => ?_⟩
      rw [faultsFrom, List.mem_append, faults problem, or_iff_right]
      intro here
      obtain ⟨problem', -, eq⟩ := mem_faults_iff.1 here
      have same : t.place = (placeOf before).place :=
        (t.place_report problem).symm.trans (congrArg Diagnostic.place eq)
      exact absurd ((tokensFrom_increasing _ splits).2 t mem) (not_le.2 (same ▸ further))
    rw [tokensFrom] at mem
    split at mem
    · next kind token =>
      obtain rfl | mem := List.mem_cons.1 mem
      · refine ⟨l, rest, front, token, String.toList_ofList, fun problem => ?_⟩
        rw [faultsFrom, List.mem_append, or_iff_left]
        · refine mem_faults_iff.trans ⟨?_, fun fault => ⟨problem, fault, rfl⟩⟩
          rintro ⟨problem', fault, eq⟩
          rw [fault, (Diagnostic.mk.inj eq).2.2]
        · intro later
          have floor := (faultsFrom_increasing (before ++ l.text) splits).2 _ later
          exact absurd floor (not_le.2 further)
      · exact behind mem
    · exact behind mem

theorem IsWord.kind_ne_string {text : List Char} {kind : TokenKind} (h : IsWord text kind) :
    kind ≠ .string := by
  cases h <;> exact TokenKind.noConfusion

/-- A literal is a string, or its fault is that it is not closed and no front part of it is one. -/
theorem Front.string_cases {l : Lexeme} (front : Front l rest) (kind : l.kind = .token .string) :
    (l.fault = none ∧ IsString l.text) ∨ l.fault = some .unterminatedString ∧
      ∃ body, l.text = '"' :: body ∧ '\n' ∉ body ∧
        ∀ text, IsString text → ¬ text <+: '"' :: body := by
  cases front with
  | solid _ solid =>
    cases solid with
    | string isString => exact .inl ⟨rfl, isString⟩
    | openString oneLine _ never =>
      exact .inr ⟨rfl, _, rfl, oneLine, fun text isString front =>
        never text isString (front.trans (List.prefix_append _ _))⟩
    | decimal _ _ decimal => cases decimal <;> cases kind
    | word _ _ _ _ isWord => exact absurd (LexemeKind.token.inj kind) isWord.kind_ne_string
    | _ => cases kind
  | _ => cases kind

end Lexical

/-! ## Imports of a source -/

variable {source : String}

/-- The word of the import and its literal stand next to each other in the source, the span starts at
    the word, and the path is what the literal denotes. -/
def Import.DenotedIn (source : String) (keyword literal : Token) (i : Import) : Prop :=
  [keyword, literal] <:+: (tokenize source).tokens ∧ keyword.kind = .keyword .import_ ∧
    literal.kind = .string ∧ i.span.start = keyword.offset ∧ i.path = Import.contents literal.value

namespace Parser

open ParserState

theorem draws_importDirective :
    Draws source (fun i => ∃ keyword literal, i.DenotedIn source keyword literal) importDirective := by
  intro s t i reads run
  obtain ⟨keyword, u, first, run⟩ := bind_ok run
  obtain ⟨literal, v, second, run⟩ := bind_ok run
  obtain ⟨isImport, consumed⟩ := expect_ok reads (by decide) first
  obtain ⟨isString, consumed'⟩ := expect_ok (reads.reaches (reaches_ok first)) (by decide) second
  have rest : Gives (fun i : Import => i.span.start = keyword.offset ∧
      i.path = Import.contents literal.value) (do
        expectOrReport (.punct .semicolon)
        return ⟨Import.contents literal.value, ← spanFrom keyword⟩) :=
    .behind fun _ => (gives_spanFrom keyword).bind fun span starts => .pure ⟨starts, rfl⟩
  refine ⟨keyword, literal, ?_, isImport, isString, rest run⟩
  obtain ⟨us, eq⟩ := reads
  exact ⟨us, v.tokens ++ [s.ending], by
    rw [← eq, (consumed.trans consumed').tokens]
    simp⟩

theorem draws_imports : Draws source (fun tree : IdlFile =>
    ∀ i ∈ tree.imports, ∃ keyword literal, i.DenotedIn source keyword literal) file := by
  have item : Draws source (fun item => ∀ i, item = .import_ i →
      ∃ keyword literal, i.DenotedIn source keyword literal) topLevel := by
    refine .behind fun start => ?_
    split
    · refine draws_importDirective.bind fun i denoted => draws_pure ?_
      rintro _ ⟨⟩
      exact denoted
    · refine .behind fun attributes => .behind fun found => ?_
      split
      · refine .behind fun ns => draws_pure ?_
        rintro i ⟨⟩
      · exact draws_unexpected
  refine .iterate (fun tree denoted => item.recovering.bind fun o one => draws_pure ?_) ?_
  · match o with
    | none => exact denoted
    | some (.import_ i) =>
      exact List.forall_mem_append.2 ⟨denoted, List.forall_mem_singleton.2 (one _ rfl i rfl)⟩
    | some (.namespace_ ns) => exact denoted
  · simp [IdlFile.empty]

end Parser

/-- What the path of an import is, by what the scanner says of its literal: of a closed one the text
    between the quotes with its escapes resolved, and of one that is not closed all the text behind
    its quote. But if that text ends in a quote, which a backslash escapes, the quote is taken for the
    closing one, and the path has the backslash in its place. -/
structure Import.ResolvedFrom (source : String) (literal : Token) (body : List Char) (i : Import) :
    Prop where
  value : literal.value.toList = '"' :: body
  closed : literal.report .unterminatedString ∉ (tokenize source).faults →
    ∃ inner, StringBody inner ∧ body = inner ++ ['"'] ∧ Resolves inner i.path.toList
  whole : literal.report .unterminatedString ∈ (tokenize source).faults →
    body.getLast? ≠ some '"' → Resolves body i.path.toList
  cut : literal.report .unterminatedString ∈ (tokenize source).faults →
    body.getLast? = some '"' →
    ∃ kept, Resolves body (kept ++ ['"']) ∧ i.path.toList = kept ++ ['\\']

/-- The import has a literal in the source, and its path is what this literal says. -/
def Import.Resolved (source : String) (i : Import) : Prop :=
  ∃ keyword literal body, i.DenotedIn source keyword literal ∧ i.ResolvedFrom source literal body

theorem Import.DenotedIn.resolvedFrom {keyword literal : Token} {i : Import}
    (h : i.DenotedIn source keyword literal) : ∃ body, i.ResolvedFrom source literal body := by
  obtain ⟨behind, -, kind, -, path⟩ := h
  have splits := splits_singly source.toList
  have tokens := tokenize_of_splits splits
  have mem : literal ∈ (tokenize source).tokens := behind.subset (by simp)
  rw [tokens] at mem
  obtain ⟨l, rest, front, isToken, value, faults⟩ :=
    report_mem_faultsFrom splits mem (by rw [kind]; exact TokenKind.noConfusion)
  have reported := faults .unterminatedString
  rw [kind] at isToken
  -- The literal is closed, or it is open and loses a last character that looks like a closing quote.
  obtain ⟨noFault, inner, isBody, text⟩ | ⟨fault, body, text, oneLine, never⟩ :=
    front.string_cases isToken
  · have silent : literal.report .unterminatedString ∉ (tokenize source).faults := by
      rw [tokens, reported, noFault]
      exact nofun
    have path' : i.path.toList = unescape inner := by
      rw [path, toList_contents (value.trans text), List.cons_append, betweenQuotes_append]
    exact ⟨inner ++ ['"'], value.trans text,
      fun _ => ⟨inner, isBody, rfl, path' ▸ resolves_unescape inner⟩,
      fun unclosed => absurd unclosed silent, fun unclosed => absurd unclosed silent⟩
  · have unclosed : literal.report .unterminatedString ∈ (tokenize source).faults := by
      rw [tokens, reported, fault]
    have path' := congrArg String.toList path
    rw [toList_contents (value.trans text)] at path'
    refine ⟨body, value.trans text, fun silent => absurd unclosed silent, fun _ last => ?_,
      fun _ last => ?_⟩
    · rw [path', betweenQuotes_open last]
      exact resolves_unescape body
    · obtain ⟨inner, rfl⟩ := List.getLast?_eq_some_iff.1 last
      obtain ⟨kept, cut, whole⟩ := unescape_cut (fun mem => oneLine (List.mem_append_left _ mem))
        fun body isBody front => never _ ⟨body, isBody, rfl⟩ ((List.prefix_cons_inj _).2 front)
      refine ⟨kept, ?_, ?_⟩
      · rw [← whole]
        exact resolves_unescape _
      · rw [path', betweenQuotes_append, cut]

open IdlFront.Parser IdlFront.ParserState in
/-- The path of every import in the tree of any source text, well-formed or not, is read from the
    literal behind its word as `Import.ResolvedFrom` says. So no part of a literal that is not closed
    is taken for its closing quote, unless it ends in an escaped quote. -/
theorem paths_resolved (source : String) : ∀ i ∈ (parse source).tree.imports, i.Resolved source := by
  obtain ⟨t, run, -⟩ := file_source source
  intro i mem
  obtain ⟨keyword, literal, denoted⟩ := draws_imports (reads_initial source) run i mem
  obtain ⟨body, resolved⟩ := denoted.resolvedFrom
  exact ⟨keyword, literal, body, denoted, resolved⟩

/-- A literal that is not closed, with an escaped quote inside and a lone backslash at its end. -/
theorem paths_resolved_unclosed :
    (⟨"a\"b\\", ⟨1, 1, 0, 13⟩⟩ : Import) ∈ (parse "import \"a\\\"b\\").tree.imports ∧
    Import.Resolved "import \"a\\\"b\\" ⟨"a\"b\\", ⟨1, 1, 0, 13⟩⟩ := by
  have mem : (⟨"a\"b\\", ⟨1, 1, 0, 13⟩⟩ : Import) ∈ (parse "import \"a\\\"b\\").tree.imports := by
    decide +kernel
  exact ⟨mem, paths_resolved _ _ mem⟩

/-- Where a literal that is not closed ends in an escaped quote, the path ends in a backslash, though
    the escape stands for the quote. -/
theorem path_cut :
    (⟨1, 8, .unterminatedString⟩ : Diagnostic) ∈ (parse "import \"a\\\"").diagnostics ∧
    (parse "import \"a\\\"").tree.imports.map Import.path = ["a\\"] ∧
    Resolves "a\\\"".toList "a\"".toList := by
  refine ⟨by decide +kernel, by decide +kernel, ?_⟩
  exact .plain (by decide) (.pair .nil)

end IdlFront
