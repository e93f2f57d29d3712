import IdlFront.Parser.Declaration

/-! # Parsing source texts

* `Import.contents` — the path that a string literal denotes.
* `Parser.file` — imports and namespaces up to the end of input. It never gives up: what cannot be
  parsed is reported and skipped.
* `parse`, `parseTokens` — the tree of a source text or of a token list, with all diagnostics.
-/

namespace IdlFront

/-! ## Imports -/

/-- Characters with every escape resolved: a backslash gives way to the character after it. -/
def unescape : List Char → List Char
  | '\\' :: c :: cs => c :: unescape cs
  | c :: cs => c :: unescape cs
  | [] => []

/-- What is between the quotes of a literal. The closing quote may be missing. -/
def betweenQuotes (literal : List Char) : List Char :=
  if 2 ≤ literal.length ∧ literal.getLast? = some '"' then literal.tail.dropLast else literal.tail

def Import.contents (literal : String) : String :=
  String.ofList (unescape (betweenQuotes literal.toList))

/-! ## Files -/

/-- What stands at the top level. -/
inductive TopLevel where
  | import_ (i : Import)
  | namespace_ (ns : Namespace)

/-- The tree with one more item, if there is one. -/
def IdlFile.add (tree : IdlFile) : Option TopLevel → IdlFile
  | some (.import_ i) => { tree with imports := tree.imports ++ [i] }
  | some (.namespace_ ns) => { tree with namespaces := tree.namespaces ++ [ns] }
  | none => tree

namespace Parser

def importDirective : Parser Import := do
  let start ← expect (.keyword .import_)
  let path ← expect .string
  expectOrReport (.punct .semicolon)
  return ⟨Import.contents path.value, ← spanFrom start⟩

def topLevel : Parser TopLevel := do
  let start ← current
  if start.kind = .keyword .import_ then
    return .import_ (← importDirective)
  else
    let attributes ← attributeLists
    if ← check [.keyword .namespace_] then
      return .namespace_ (← namespaceDecl start attributes)
    else
      unexpected [.keyword .namespace_, .keyword .import_]

def topLevelRound (tree : IdlFile) : Parser IdlFile := do
  return tree.add (← recovering topLevelResume true topLevel)

def file : Parser IdlFile :=
  iterate (· != .eof) topLevelRound .empty

end Parser

/-! ## Results -/

/-- What parsing gives: a tree, whatever the input, and every diagnostic in the order of
    reporting. -/
structure ParseResult where
  tree : IdlFile
  diagnostics : List Diagnostic
  deriving DecidableEq

/-- The number of diagnostics. It is zero for well-formed input. -/
def ParseResult.errorCount (r : ParseResult) : Nat := r.diagnostics.length

/-- A result and the number of tokens consumed for it. -/
structure ParseRun where
  result : ParseResult
  consumed : Nat
  deriving DecidableEq

/-- The run that ends in a state with a tree. -/
def ParserState.run (s : ParserState) (tree : IdlFile) : ParseRun :=
  ⟨⟨tree, s.log.toList⟩, s.stream.consumed⟩

/-- Parse a stream to its end. A failure would be logged like any other; the list of top-level items
    leaves none to log. -/
def parseStream (stream : TokenStream) : ParseRun :=
  match Parser.file (.initial stream) with
  | .ok tree s => s.run tree
  | .error d s => (s.reported d).run .empty

def parse (source : String) : ParseResult := (parseStream (.ofSource source)).result

def parseTokens (tokens : List Token) : ParseRun := parseStream (.ofTokens tokens)

end IdlFront
