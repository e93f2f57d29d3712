import IdlFront.Proofs.Grammar.DeclarationMending
import IdlFront.Proofs.Grammar.FaultReports

/-! # Bad regions cost no neighbour

* `Interspersed.between` — well-formed items with one region between them.
* `regions_isolated` — each list reads the items on both sides of a region and makes one report,
  wherever in a file it stands.
-/

namespace IdlFront.Grammar

open IdlFront.Parser IdlFront.ParserState

variable {α : Type} {ts us : List Token} {ds : List Diagnostic} {d : Diagnostic}

/-! ## Regions between items -/

section Lists

variable {region : List Token → List Token → Diagnostic → Prop} {phrase : List Token → α → Prop}
  {faulty : List Token → List Diagnostic → α → Prop} {as bs : List α}

theorem Interspersed.after (proper : ∀ {ts a}, phrase ts a → faulty ts [] a)
    (front : Many phrase ts as) (rest : Interspersed region faulty us ds bs) :
    Interspersed region faulty (ts ++ us) ds (as ++ bs) := by
  induction front with
  | nil => exact rest
  | cons first _ ih =>
    rw [List.append_assoc]
    exact .item (proper first) ih

theorem Interspersed.between {pre g post : List Token}
    (proper : ∀ {ts a}, phrase ts a → faulty ts [] a) (front : Many phrase pre as)
    (bad : region g post d) (back : Many phrase post bs) :
    Interspersed region faulty (pre ++ g ++ post) [d] (as ++ bs) := by
  have last : Interspersed region faulty (post ++ []) [] (bs ++ []) := .after proper back .nil
  rw [List.append_nil, List.append_nil] at last
  rw [List.append_assoc]
  exact .after proper front (.region bad last)

end Lists

namespace Faulty

theorem Attributed.proper {m : EnumMember} (h : Grammar.Attributed Grammar.IsMember ts m) :
    Attributed IsMember ts [] m := by
  obtain ⟨front, body⟩ := h
  exact .mk front (.proper body)

theorem Followed.proper {d : Declaration}
    (h : Grammar.Followed (.punct .semicolon) Grammar.IsDeclaration ts d) :
    Followed (.punct .semicolon) IsDeclaration ts [] d := by
  cases h with
  | bare h => exact .bare (.proper h)
  | marked h mark => exact .marked (.proper h) mark

/-- Members with commas between them, one more comma, and what follows it in the list. -/
theorem AreMembers.after {members more : List EnumMember} {c : Token}
    (front : Separated (.punct .comma) (Grammar.Attributed Grammar.IsMember) ts members)
    (comma : c.kind = .punct .comma) (rest : AreMembers us ds more) :
    AreMembers (ts ++ c :: us) ds (members ++ more) := by
  induction front with
  | one first => exact .member (.proper first) comma rest
  | cons first eq _ ih =>
    rw [List.append_assoc, List.cons_append]
    exact .member (.proper first) eq ih

theorem AreMembers.proper {members : List EnumMember} (h : Grammar.AreMembers ts members) :
    AreMembers ts [] members := by
  cases h with
  | none => exact .none
  | some all =>
    cases all with
    | bare all =>
      induction all with
      | one first => exact .last (.proper first)
      | cons first comma _ ih => exact .member (.proper first) comma ih
    | marked all comma =>
      rw [← List.append_nil members]
      exact .after all comma .none

end Faulty

/-- What follows a stump in the body of a namespace is a declaration or the end of the body, and
    declarations go on at either. -/
theorem IsBodyRegion.of_stump {ds : List Declaration} (h : Followed (.punct .semicolon) IsStump ts d)
    (back : Many (Followed (.punct .semicolon) IsDeclaration) us ds) : IsBodyRegion ts us d := by
  cases h with
  | marked h mark => exact .closedStump h mark
  | bare h =>
    refine .stump h ?_
    cases back with
    | nil => exact .inl rfl
    | cons next _ =>
      have begins := next.begins IsDeclaration.begins (by decide)
      have resumes : ∀ k ∈ .punct .lbracket :: declarationKeywords, k ∈ bodyResume := by decide
      exact .inr (resumes _ (nextKind_append_mem begins (by decide) _))

end IdlFront.Grammar

namespace IdlFront

open IdlFront.Parser IdlFront.ParserState IdlFront.Grammar

/-- A file with faults is parsed to the tree of what is left, with the reports of the faults. -/
theorem parseTokens_faulty {ts : List Token} {ds : List Diagnostic} {tree : IdlFile}
    (h : Faulty.IsFile (beforeEof ts) ds tree) : (parseTokens ts).result = ⟨tree, ds⟩ := by
  -- The parser reads the tokens before the end of input from a state without reports.
  obtain ⟨t, run, moves⟩ := h.reports _ (plain_ofTokens ts) rfl
    ((tokens_ofTokens ts).trans (List.append_nil _).symm)
  have log : t.log.toList = ds := moves.log
  unfold parseTokens parseStream
  rw [run]
  simp only [ParserState.run, log]

/-- One bad region costs one report and no neighbour. In each list the items before and behind a
    region are read as they are, and the report is the one that the region stands for. So it is with
    any number of regions at any depth of a file. -/
theorem regions_isolated :
    (∀ {ts pre g post : List Token} {d : Diagnostic} {as bs : List TopLevel},
      beforeEof ts = pre ++ g ++ post →
      Many IsTopLevel pre as → IsStrayTopLevel g d → Many IsTopLevel post bs →
      (parseTokens ts).result = ⟨treeOf (as ++ bs), [d]⟩) ∧
    (∀ {stop : Int} {pre g post rest : List Token} {d : Diagnostic} {as bs : List Declaration},
      Many (Followed (.punct .semicolon) IsDeclaration) pre as →
      IsStrayDeclaration g d ∨ Followed (.punct .semicolon) IsStump g d →
      Many (Followed (.punct .semicolon) IsDeclaration) post bs → nextKind rest = .punct .rbrace →
      Reports (declarations declaration) stop (pre ++ g ++ post) [d] (as ++ bs) rest) ∧
    (∀ {stop : Int} {pre g post rest : List Token} {d : Diagnostic} {as bs : List StructField},
      Many IsField pre as → IsStrayField g d → Many IsField post bs →
      nextKind rest = .punct .rbrace →
      Reports structFields stop (pre ++ g ++ post) [d] (as ++ bs) rest) ∧
    (∀ {stop : Int} {pre g post rest : List Token} {d : Diagnostic} {as bs : List InterfaceMember},
      Many (Attributed IsInterfaceMember) pre as → IsStrayMember g d →
      Many (Attributed IsInterfaceMember) post bs → nextKind rest = .punct .rbrace →
      Reports interfaceMembers stop (pre ++ g ++ post) [d] (as ++ bs) rest) ∧
    (∀ {stop : Int} {pre g post rest : List Token} {c c' : Token} {d : Diagnostic}
      {as bs : List EnumMember},
      Separated (.punct .comma) (Attributed IsMember) pre as → c.kind = .punct .comma →
      IsGap g c' d → AreMembers post bs → nextKind rest = .punct .rbrace →
      Reports enumMembers stop (pre ++ c :: (g ++ c' :: post)) [d] (as ++ bs) rest) ∧
    (∀ {ts : List Token} {ds : List Diagnostic} {tree : IdlFile},
      Faulty.IsFile (beforeEof ts) ds tree → (parseTokens ts).result = ⟨tree, ds⟩) := by
  refine ⟨?topLevel, ?namespaces, ?structs, ?interfaces, ?enums, parseTokens_faulty⟩
  case topLevel =>
    intro ts pre g post d as bs all front bad back
    exact parseTokens_faulty (all ▸ .mk (.between .proper front bad back))
  case namespaces =>
    intro stop pre g post rest d as bs front bad back closed
    have region : IsBodyRegion g post d := bad.elim .stray fun stump => .of_stump stump back
    exact Faulty.declarations_reports (.between .proper front region back) closed
  case structs =>
    intro stop pre g post rest d as bs front bad back closed
    exact Faulty.AreFields.reports (.between .mk front bad back) (by rw [closed]; decide)
  case interfaces =>
    intro stop pre g post rest d as bs front bad back closed
    exact Faulty.AreInterfaceMembers.reports (.between .mk front bad back) (by rw [closed]; decide)
      (by rw [closed]; decide)
  case enums =>
    intro stop pre g post rest c c' d as bs front comma gap back closed
    exact Faulty.enumMembers_reports (.after front comma (.gap gap (.proper back))) closed

/-- A parenthesis and a semicolon in front of an import. -/
def strayTokens : List Token :=
  [⟨.punct .rparen, ")", 1, 1, 0⟩, ⟨.punct .semicolon, ";", 1, 2, 1⟩,
    ⟨.keyword .import_, "import", 1, 4, 3⟩, ⟨.string, "\"a\"", 1, 11, 10⟩,
    ⟨.punct .semicolon, ";", 1, 14, 13⟩]

/-- What is reported of the parenthesis. -/
def strayReport : Diagnostic :=
  ⟨1, 1, .expected [.keyword .namespace_, .keyword .import_] ⟨.punct .rparen, ")", 1, 1, 0⟩⟩

/-- The region in front of the import, a namespace with nothing but `enum 5` in it, and two commas
    between two members. -/
theorem regions_isolated_import :
    IsStrayTopLevel (strayTokens.take 2) strayReport ∧
    (parseTokens strayTokens).result = ⟨⟨[⟨"a", ⟨1, 4, 3, 14⟩⟩], []⟩, [strayReport]⟩ ∧
    Reports (declarations declaration) 0 [⟨.keyword .enum, "enum", 1, 1, 0⟩, ⟨.integer, "5", 1, 6, 5⟩]
      [⟨1, 6, .expected [.identifier] ⟨.integer, "5", 1, 6, 5⟩⟩] []
      [⟨.punct .rbrace, "\x7d", 1, 8, 7⟩] ∧
    Reports enumMembers 0
      [⟨.identifier, "A", 1, 1, 0⟩, ⟨.punct .comma, ",", 1, 2, 1⟩, ⟨.punct .comma, ",", 1, 3, 2⟩,
        ⟨.identifier, "B", 1, 4, 3⟩]
      [⟨1, 3, .expected [.identifier] ⟨.punct .comma, ",", 1, 3, 2⟩⟩]
      [⟨"A", none, [], ⟨1, 1, 0, 1⟩⟩, ⟨"B", none, [], ⟨1, 4, 3, 4⟩⟩]
      [⟨.punct .rbrace, "\x7d", 1, 5, 4⟩] := by
  obtain ⟨atTop, inNamespace, -, -, inEnum, -⟩ := regions_isolated
  -- A region of one token is skipped if that is no brace and no list goes on at it.
  have unbraced {t : Token} {resume : List TokenKind} (noBrace : Unbraced t.kind)
      (noEof : t.kind ≠ .eof) (passed : t.kind ≠ .punct .semicolon ∧ t.kind ∉ resume) :
      Skipped resume [t] :=
    .of_unbraced (by simpa using noBrace) (by simpa using noEof) (by simpa using passed)
  have skipped : Skipped topLevelResume (strayTokens.take 1) :=
    unbraced (inferInstanceAs (Unbraced (.punct .rparen))) (by decide) (by decide)
  have number : Skipped bodyResume [⟨.integer, "5", 1, 6, 5⟩] :=
    unbraced ⟨by decide, by decide⟩ (by decide) (by decide)
  have stray : IsStrayTopLevel (strayTokens.take 2) strayReport :=
    .mk skipped rfl rfl (by decide)
  have item : Many IsTopLevel (strayTokens.drop 2) [.import_ ⟨"a", ⟨1, 4, 3, 14⟩⟩] :=
    .cons (IsTopLevel.import_ (.mk rfl rfl rfl)) .nil
  have member {t : Token} (eq : t.kind = .identifier) :
      Attributed IsMember [t] ⟨t.value, none, [], spanOver [t]⟩ :=
    @Attributed.mk _ _ [] _ _ _ (.mk .nil) (.mk eq .absent)
  have nothing : Skipped enumResume [] := .of_unbraced (by simp) (by simp) (by simp)
  have gap := @IsGap.mk [] ⟨.punct .comma, ",", 1, 3, 2⟩ _ nothing rfl rfl (by decide) (by decide)
  refine ⟨stray, atTop rfl .nil stray item, ?_, ?_⟩
  · exact inNamespace .nil (.inr (.bare (.mk (by decide) (by decide) number))) .nil rfl
  · exact inEnum (.one (member rfl)) rfl gap (.some (.bare (.one (member rfl)))) rfl

end IdlFront
