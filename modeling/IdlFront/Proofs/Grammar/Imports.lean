import IdlFront.Proofs.Grammar.Insertion

/-! # Paths of imports

The scanner and `Import.contents` pair backslashes in the same way, so every path on one line can be
written as a literal, and is read back from it.

* `Escapes` — a text with backslashes in front of characters, of all that need one among them.
* `Escapes.stringBody` — the scanner takes such a text for the body of a literal.
* `Escapes.contents` — the literal denotes the text without the backslashes.
* `import_quoted` — the import of a path, alone and between the items of a source.
-/

namespace IdlFront

open Lexical Grammar

/-! ## Escapes -/

/-- The second text is the first one with a backslash in front of every quote, of every backslash,
    and of any of the other characters. -/
inductive Escapes : List Char → List Char → Prop where
  | nil : Escapes [] []
  | plain {c : Char} {w w' : List Char} :
      c ≠ '"' → c ≠ '\\' → Escapes w w' → Escapes (c :: w) (c :: w')
  | escaped {c : Char} {w w' : List Char} : Escapes w w' → Escapes (c :: w) ('\\' :: c :: w')

namespace Escapes

variable {w w' : List Char}

theorem stringBody (h : Escapes w w') (oneLine : '\n' ∉ w) : StringBody w' := by
  induction h with
  | nil => exact .nil
  | plain noQuote noBackslash _ ih =>
    exact .plain noQuote noBackslash (List.ne_of_not_mem_cons oneLine).symm
      (ih (List.not_mem_of_not_mem_cons oneLine))
  | escaped _ ih =>
    exact .escape (List.ne_of_not_mem_cons oneLine).symm
      (ih (List.not_mem_of_not_mem_cons oneLine))

theorem unescape (h : Escapes w w') : unescape w' = w := by
  induction h with
  | nil => rfl
  | @plain c w w' _ noBackslash _ ih =>
    have step : IdlFront.unescape (c :: w') = c :: IdlFront.unescape w' := by
      rw [IdlFront.unescape.eq_2 c w' fun _ _ backslash => absurd backslash noBackslash]
    rw [step, ih]
  | escaped _ ih => rw [IdlFront.unescape, ih]

/-- Between quotes the text denotes what it escapes. -/
theorem contents (h : Escapes w w') :
    Import.contents (String.ofList ('"' :: w' ++ ['"'])) = String.ofList w := by
  have between : betweenQuotes ('"' :: w' ++ ['"']) = w' := by
    simp [betweenQuotes, List.getLast?_cons]
  rw [Import.contents, String.toList_ofList, between, h.unescape]

end Escapes

/-! ## The text of an import -/

/-- The import of a path that is written like this between the quotes. -/
def importOf (written : String) : String := "import \"" ++ written ++ "\";"

theorem front_import (rest : List Char) :
    Front (.sound (.token (.keyword .import_)) ['i', 'm', 'p', 'o', 'r', 't']) (' ' :: rest) := by
  have longest : Longest (Run isIdentifierContinue) ['m', 'p', 'o', 'r', 't']
      (['m', 'p', 'o', 'r', 't'] ++ ' ' :: rest) := by
    have inside : ['m', 'p', 'o', 'r', 't'].all isIdentifierContinue = true := by decide +kernel
    have ends : isIdentifierContinue ' ' = false := by decide +kernel
    exact longest_run_iff.2 (takeWhile_run (List.all_eq_true.1 inside) (by simp [ends])).symm
  have noUuid : ¬ UuidAhead ('i' :: ['m', 'p', 'o', 'r', 't'] ++ ' ' :: rest) :=
    uuidText?_eq_none_iff.1 (no_uuid (.inl rfl))
  have start : isIdentifierStart 'i' = true := by decide +kernel
  exact Solid.front (.word noUuid rfl start longest (.keyword .import_)) rfl

theorem hasWords_import {body rest : List Char} {words : List (TokenKind × String)}
    (isBody : StringBody body) (h : HasWords rest words) :
    HasWords ("import \"".toList ++ body ++ "\";".toList ++ rest)
      ((.keyword .import_, "import") :: (.string, String.ofList ('"' :: body ++ ['"'])) ::
        (.punct .semicolon, ";") :: words) := by
  have mark := h.cons (Solid.front (.punctuation .semicolon) rfl) rfl
  have isString : IsString ('"' :: body ++ ['"']) := ⟨body, isBody, rfl⟩
  have literal := mark.cons (Solid.front (.string isString) rfl) rfl
  have blank := literal.cons (.whitespace (c := ' ') (by decide)) rfl
  have keyword := blank.cons (front_import _) rfl
  simpa [wordOf?, Lexeme.sound, Punctuation.char] using keyword

/-! ## Imports in sources -/

/-- The tokens of the import of a literal, all at one place. -/
def tokensOfImport (literal : String) : List Token :=
  [⟨.keyword .import_, "import", 1, 1, 0⟩, ⟨.string, literal, 1, 1, 0⟩,
    ⟨.punct .semicolon, ";", 1, 1, 0⟩]

variable {w w' before after : String} {tree : IdlFile}

theorem exists_import {literal : String} (path : Import.contents literal = w) :
    ∃ i, i.path = w ∧ IsImport (tokensOfImport literal) i :=
  ⟨⟨Import.contents literal, spanOver (tokensOfImport literal)⟩, path, .mk rfl rfl rfl⟩

/-- An import between the items of a source is one more import there, and nothing else changes. -/
theorem parse_import_between (escapes : Escapes w.toList w'.toList) (oneLine : '\n' ∉ w.toList)
    (parsed : parse (before ++ after) = ⟨tree, []⟩) (between : BetweenItems before after tree) :
    ∃ earlier i later tree', i.path = w ∧ tree.imports = earlier ++ later ∧
      (∀ j ∈ earlier, j.span.stop ≤ before.length) ∧
      (∀ j ∈ later, before.length ≤ j.span.start) ∧
      parse (before ++ importOf w' ++ after) = ⟨tree', []⟩ ∧
      tree'.bare = IdlFile.bare ⟨earlier ++ i :: later, tree.namespaces⟩ := by
  have contents := escapes.contents
  rw [String.ofList_toList] at contents
  generalize literal : String.ofList ('"' :: w'.toList ++ ['"']) = text at contents
  obtain ⟨i, path, phrase⟩ := exists_import contents
  have has : ∀ rest words, HasWords rest words → HasWords ((importOf w').toList ++ rest)
      ((tokensOfImport text).map Token.word ++ words) := by
    intro rest words h
    have whole := hasWords_import (escapes.stringBody oneLine) h
    rwa [← String.toList_append, ← String.toList_append, literal] at whole
  obtain ⟨earlier, later, tree', rfl, stops, starts, result, same⟩ :=
    parse_inserted parsed between (.cons (.import_ phrase) .nil) has
  refine ⟨(treeOf earlier).imports, i, (treeOf later).imports, tree', path, ?_, ?_, ?_, result, ?_⟩
  · rw [treeOf_append]
  · exact fun j mem => stops _ (mem_imports_treeOf.1 mem)
  · exact fun j mem => starts _ (mem_imports_treeOf.1 mem)
  · rw [same, treeOf_append, treeOf_append, treeOf_append]
    simp [treeOf]

theorem between_nothing : BetweenItems "" "" .empty where
  lexemes := ⟨[], [], .nil, rfl, by simp⟩
  imports := by simp [IdlFile.empty]
  namespaces := by simp [IdlFile.empty]

/-- Paths survive quoting. With a backslash in front of every quote and every backslash in a path, and
    in front of any other characters, the import of it is parsed to this path; and at any place
    between the items of a source without complaints it is one more import of this path, between those
    in front of the place and those behind it, in a source without complaints. -/
theorem import_quoted (escapes : Escapes w.toList w'.toList) (oneLine : '\n' ∉ w.toList) :
    (∃ span, parse (importOf w') = ⟨⟨[⟨w, span⟩], []⟩, []⟩) ∧
    ∀ (before after : String) (tree : IdlFile), parse (before ++ after) = ⟨tree, []⟩ →
      BetweenItems before after tree →
      ∃ earlier i later tree', i.path = w ∧ tree.imports = earlier ++ later ∧
        (∀ j ∈ earlier, j.span.stop ≤ before.length) ∧
        (∀ j ∈ later, before.length ≤ j.span.start) ∧
        parse (before ++ importOf w' ++ after) = ⟨tree', []⟩ ∧
        tree'.bare = IdlFile.bare ⟨earlier ++ i :: later, tree.namespaces⟩ := by
  refine ⟨?_, fun before after tree => parse_import_between escapes oneLine⟩
  -- Alone the import stands at the one place of a source of nothing.
  have nothing : parse ("" ++ "") = ⟨.empty, []⟩ := by rw [String.empty_append, parse_nothing]
  obtain ⟨earlier, i, later, ⟨imports, namespaces⟩, path, none, -, -, result, same⟩ :=
    parse_import_between escapes oneLine nothing between_nothing
  obtain ⟨rfl, rfl⟩ := List.append_eq_nil_iff.1 none.symm
  obtain ⟨one, noNamespace⟩ := IdlFile.mk.inj same
  obtain rfl := List.map_eq_nil_iff.1 noNamespace
  obtain ⟨j, rfl, bare⟩ := List.map_eq_singleton_iff.1 one
  have path' : j.path = w := (congrArg Import.path bare).trans path
  rw [String.empty_append, String.append_empty] at result
  exact ⟨j.span, by rw [result, ← path']⟩

def firstImport : String := "import \"x\";"

def secondImport : String := " import \"y\";"

def twoImports : IdlFile := ⟨[⟨"x", ⟨1, 1, 0, 11⟩⟩, ⟨"y", ⟨1, 13, 12, 23⟩⟩], []⟩

theorem parse_twoImports : parse (firstImport ++ secondImport) = ⟨twoImports, []⟩ := by
  have tokens : beforeEof (tokenize (firstImport ++ secondImport)).tokens =
      [⟨.keyword .import_, "import", 1, 1, 0⟩, ⟨.string, "\"x\"", 1, 8, 7⟩,
        ⟨.punct .semicolon, ";", 1, 11, 10⟩] ++
      ([⟨.keyword .import_, "import", 1, 13, 12⟩, ⟨.string, "\"y\"", 1, 20, 19⟩,
        ⟨.punct .semicolon, ";", 1, 23, 22⟩] ++ []) := by
    decide +kernel
  rw [parse_source_iff, tokens]
  exact ⟨by decide +kernel, isFile_iff.2 ⟨[.import_ _, .import_ _], rfl,
    .cons (.import_ (.mk rfl rfl rfl)) (.cons (.import_ (.mk rfl rfl rfl)) .nil)⟩⟩

/-- The place is behind the fourth lexeme, the semicolon of the first import. -/
theorem between_twoImports : BetweenItems firstImport secondImport twoImports where
  lexemes := by
    have splits := splits_singly (firstImport ++ secondImport).toList
    rw [← List.take_append_drop 4 ((Lexeme.split _).flatMap singly)] at splits
    have last : (((Lexeme.split (firstImport ++ secondImport).toList).flatMap singly).take
        4).getLast? = some (.sound (.token (.punct .semicolon)) [';']) := by
      decide +kernel
    refine ⟨_, _, splits, by decide +kernel, fun l eq => ?_⟩
    rw [last] at eq
    cases eq
    simp [Lexeme.sound]
  imports := by decide
  namespaces := by simp [twoImports]

/-- A path with a quote, a backslash and two slashes, one character of it escaped without need, between
    two imports. -/
theorem import_quoted_between :
    Escapes "a\"b\\c//".toList "a\\\"b\\\\\\c//".toList ∧ '\n' ∉ "a\"b\\c//".toList ∧
    parse (firstImport ++ secondImport) = ⟨twoImports, []⟩ ∧
    BetweenItems firstImport secondImport twoImports ∧
    (parse (firstImport ++ importOf "a\\\"b\\\\\\c//" ++ secondImport)).diagnostics = [] := by
  have escapes : Escapes "a\"b\\c//".toList "a\\\"b\\\\\\c//".toList :=
    .plain (by decide) (by decide) (.escaped (.plain (by decide) (by decide) (.escaped (.escaped
      (.plain (by decide) (by decide) (.plain (by decide) (by decide) .nil))))))
  have oneLine : '\n' ∉ "a\"b\\c//".toList := by decide
  obtain ⟨_, _, _, _, -, -, -, -, result, -⟩ :=
    (import_quoted escapes oneLine).2 _ _ _ parse_twoImports between_twoImports
  exact ⟨escapes, oneLine, parse_twoImports, between_twoImports,
    congrArg ParseResult.diagnostics result⟩

end IdlFront
