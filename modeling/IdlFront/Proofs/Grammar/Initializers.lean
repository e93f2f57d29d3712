import IdlFront.Proofs.Grammar.Exchange
import IdlFront.Proofs.Grammar.Regions

/-! # Illegal initializers stay apart

An initializer that is no integer is read whole and reported once, so whatever stands behind it is
read as before.

* `initializers_isolated` — exchanged initializers cost the values of their members, and a report
  each.
-/

namespace IdlFront.Grammar

theorem IsMistake.ofKinds {ts : List Token} (h : IsMistake ts) :
    OfKinds [.float, .string, .uuid, .identifier, .punct .dot] ts := by
  have literals : ∀ k ∈ [TokenKind.float, .string, .uuid],
      k ∈ [TokenKind.float, .string, .uuid, .identifier, .punct .dot] := by decide
  cases h with
  | literal kind => exact .single (literals _ kind)
  | name names => exact IsQualified.ofKinds names (by decide) (by decide)

/-- No end of input is put in. -/
theorem Exchanged.noEof {ts us : List Token} {marks : List (Option Token)}
    (h : Exchanged ts us marks) (noEof : ∀ t ∈ ts, t.isEof = false) : ∀ t ∈ us, t.isEof = false := by
  induction h with
  | nil => exact noEof
  | other _ _ ih =>
    obtain ⟨first, more⟩ := List.forall_mem_cons.1 noEof
    exact List.forall_mem_cons.2 ⟨first, ih more⟩
  | kept _ _ _ ih =>
    obtain ⟨first, more⟩ := List.forall_mem_cons.1 noEof
    obtain ⟨second, more⟩ := List.forall_mem_cons.1 more
    exact List.forall_mem_cons.2 ⟨first, List.forall_mem_cons.2 ⟨second, ih more⟩⟩
  | mistaken _ _ mistake _ ih =>
    obtain ⟨first, more⟩ := List.forall_mem_cons.1 noEof
    obtain ⟨-, more⟩ := List.forall_mem_cons.1 more
    have kinds : ∀ k ∈ [TokenKind.float, .string, .uuid, .identifier, .punct .dot],
        (k == .eof) = false := by decide
    refine List.forall_mem_cons.2 ⟨first, List.forall_mem_append.2 ⟨fun t ht => ?_, ih more⟩⟩
    exact kinds _ (mistake.ofKinds t ht)

end IdlFront.Grammar

namespace IdlFront

open IdlFront.Parser IdlFront.ParserState IdlFront.Grammar

/-- Illegal initializers are isolated. Whichever integers of a file without diagnostics give way to
    other literals or to names, each costs one diagnostic at the first token that stands in its place
    and the value of its member, and nothing else in the tree changes up to spans. -/
theorem initializers_isolated {ts us : List Token} {tree : IdlFile} {marks : List (Option Token)}
    (silent : (parseTokens ts).result = ⟨tree, []⟩) (exchanged : Exchanged (beforeEof ts) us marks) :
    (parseTokens (us ++ fromEof ts)).result.diagnostics =
        marks.reduceOption.map (fun t => t.report (.expected [.integer, .hex] t)) ∧
      IdlFile.Erased marks tree.bare (parseTokens (us ++ fromEof ts)).result.tree.bare := by
  -- What is parsed in silence is a phrase of the grammar, and exchanged it is one with faults.
  have full : IsFile (beforeEof ts) tree := by
    rw [← tokens_ofTokens]
    exact (parseStream_iff (plain_ofTokens ts)).1 silent
  have tokens : beforeEof (us ++ fromEof ts) = us :=
    beforeEof_append (exchanged.noEof fun t ht => by simpa using List.mem_takeWhile_imp ht) ts
  obtain ⟨tree', phrase, erased⟩ := full.exchanges.all exchanged
  rw [← tokens] at phrase
  rw [parseTokens_faulty phrase]
  exact ⟨rfl, erased⟩

/-- The tokens of a namespace with an enumeration whose two members have values. -/
def valuedTokens : List Token :=
  [⟨.keyword .namespace_, "namespace", 1, 1, 0⟩, ⟨.identifier, "N", 1, 11, 10⟩,
    ⟨.punct .lbrace, "\x7b", 1, 13, 12⟩, ⟨.keyword .enum, "enum", 1, 15, 14⟩,
    ⟨.identifier, "E", 1, 20, 19⟩, ⟨.punct .lbrace, "\x7b", 1, 22, 21⟩,
    ⟨.identifier, "A", 1, 24, 23⟩, ⟨.punct .equals, "=", 1, 25, 24⟩, ⟨.integer, "1", 1, 26, 25⟩,
    ⟨.punct .comma, ",", 1, 27, 26⟩, ⟨.identifier, "B", 1, 29, 28⟩,
    ⟨.punct .equals, "=", 1, 30, 29⟩, ⟨.hex, "0x2", 1, 31, 30⟩,
    ⟨.punct .rbrace, "\x7d", 1, 35, 34⟩, ⟨.punct .rbrace, "\x7d", 1, 37, 36⟩]

/-- The second value gives way to the name `x.y`. -/
def misvaluedTokens : List Token :=
  valuedTokens.take 12 ++
    [⟨.identifier, "x", 1, 31, 30⟩, ⟨.punct .dot, ".", 1, 32, 31⟩, ⟨.identifier, "y", 1, 33, 32⟩] ++
    valuedTokens.drop 13

def valuedTree : IdlFile :=
  ⟨[], [⟨["N"], [.enum ⟨"E", [⟨"A", some ⟨.integer, "1", ⟨1, 26, 25, 26⟩⟩, [], ⟨1, 24, 23, 26⟩⟩,
    ⟨"B", some ⟨.hex, "0x2", ⟨1, 31, 30, 33⟩⟩, [], ⟨1, 29, 28, 33⟩⟩], [], ⟨1, 15, 14, 35⟩⟩], [],
    ⟨1, 1, 0, 37⟩⟩]⟩

theorem initializers_isolated_name :
    (parseTokens valuedTokens).result = ⟨valuedTree, []⟩ ∧
      Exchanged (beforeEof valuedTokens) misvaluedTokens [none, some ⟨.identifier, "x", 1, 31, 30⟩] ∧
      (parseTokens (misvaluedTokens ++ fromEof valuedTokens)).result.diagnostics =
        [⟨1, 31, .expected [.integer, .hex] ⟨.identifier, "x", 1, 31, 30⟩⟩] ∧
      IdlFile.Erased [none, some ⟨.identifier, "x", 1, 31, 30⟩] valuedTree.bare
        (parseTokens (misvaluedTokens ++ fromEof valuedTokens)).result.tree.bare := by
  have silent : (parseTokens valuedTokens).result = ⟨valuedTree, []⟩ := by decide +kernel
  have name : IsQualified
      [⟨.identifier, "x", 1, 31, 30⟩, ⟨.punct .dot, ".", 1, 32, 31⟩, ⟨.identifier, "y", 1, 33, 32⟩]
      ["x", "y"] :=
    .cons (IsIdentifier.mk rfl) rfl (.one (IsIdentifier.mk rfl))
  have last : Exchanged (valuedTokens.drop 13) (valuedTokens.drop 13) [] :=
    .other (by decide) (.other (by decide) .nil)
  have second : Exchanged (valuedTokens.drop 9) (misvaluedTokens.drop 9)
      [some ⟨.identifier, "x", 1, 31, 30⟩] :=
    .other (by decide) (.other (by decide) (.mistaken rfl (.inr rfl) (.name name) last))
  have first : Exchanged (valuedTokens.drop 6) (misvaluedTokens.drop 6)
      [none, some ⟨.identifier, "x", 1, 31, 30⟩] :=
    .other (by decide) (.kept rfl (.inl rfl) second)
  have exchanged : Exchanged (beforeEof valuedTokens) misvaluedTokens
      [none, some ⟨.identifier, "x", 1, 31, 30⟩] :=
    .other (by decide) (.other (by decide) (.other (by decide) (.other (by decide)
      (.other (by decide) (.other (by decide) first)))))
  exact ⟨silent, exchanged, initializers_isolated silent exchanged⟩

end IdlFront
