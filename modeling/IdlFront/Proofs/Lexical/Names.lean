import IdlFront.Proofs.Lexical.Places

/-! # Names in source texts

* `IsPlainName`, `IsDottedName` — identifiers that are not reserved, and such joined by dots.
* `Token.LexedIn.isName`, `Token.LexedIn.mark` — what identifiers and punctuation marks are in a
  source.
* `ReadsAs` — what a stretch of a source reads as without trivia and rejected characters.
* `tokens_readsAs` — tokens in a row read as their values.
-/

namespace IdlFront

open Lexical

namespace Lexical

/-! ## Names -/

/-- A character that starts identifiers, and then characters that continue them; but no keyword. -/
def IsPlainName (name : String) : Prop :=
  (∃ c cs, name.toList = c :: cs ∧ isIdentifierStart c = true ∧ Run isIdentifierContinue cs) ∧
    ∀ k : Keyword, k.text ≠ name

/-- One or more names, joined by dots. -/
def IsDottedName (name : String) : Prop :=
  ∃ names, names ≠ [] ∧ (∀ n ∈ names, IsPlainName n) ∧ name = ".".intercalate names

/-- No keyword is a dotted name. -/
theorem IsDottedName.ne_text {name : String} (h : IsDottedName name) (k : Keyword) :
    name ≠ k.text := by
  obtain ⟨names, nonempty, all, rfl⟩ := h
  match names with
  | [] => exact absurd rfl nonempty
  | [n] =>
    rw [String.intercalate_singleton]
    exact ((all n (by simp)).2 k).symm
  | n :: m :: names =>
    intro eq
    have dot : '.' ∈ (".".intercalate (n :: m :: names)).toList := by simp
    rw [eq] at dot
    cases k <;> simp [Keyword.text] at dot

variable {l : Lexeme} {rest : List Char}

theorem IsWord.kind_eq {text : List Char} {kind : TokenKind} (h : IsWord text kind) :
    (kind = .identifier ∧ ∀ k : Keyword, k.text.toList ≠ text) ∨ ∃ k, kind = .keyword k := by
  cases h with
  | keyword k => exact .inr ⟨k, rfl⟩
  | identifier free => exact .inl ⟨rfl, free⟩

theorem Front.isName (h : Front l rest) (identifier : l.kind = .token .identifier) :
    IsPlainName (String.ofList l.text) := by
  cases h with
  | solid _ solid =>
    cases solid with
    | @word c run rest kind _ _ start longest isWord =>
      obtain ⟨-, free⟩ | ⟨k, rfl⟩ := isWord.kind_eq
      · refine ⟨⟨c, run, String.toList_ofList, start, longest.mem⟩, fun k eq => free k ?_⟩
        rw [eq]
        exact String.toList_ofList
      · cases identifier
    | decimal _ _ decimal => cases decimal <;> cases identifier
    | _ => cases identifier
  | _ => cases identifier

theorem Front.mark (h : Front l rest) {p : Punctuation} (punct : l.kind = .token (.punct p)) :
    l.text = [p.char] := by
  cases h with
  | solid _ solid =>
    cases solid with
    | punctuation q =>
      cases punct
      rfl
    | word _ _ _ _ isWord => obtain ⟨rfl, -⟩ | ⟨k, rfl⟩ := isWord.kind_eq <;> cases punct
    | decimal _ _ decimal => cases decimal <;> cases punct
    | _ => cases punct
  | _ => cases punct

end Lexical

namespace Token.LexedIn

variable {source : String} {t : Token}

theorem isName (h : t.LexedIn source) (identifier : t.kind = .identifier) : IsPlainName t.value := by
  obtain ⟨before, l, rest, -, front, kind, place⟩ := h
  rw [place]
  exact front.isName (identifier ▸ kind)

theorem mark (h : t.LexedIn source) {p : Punctuation} (punct : t.kind = .punct p) :
    t.value.toList = [p.char] := by
  obtain ⟨before, l, rest, -, front, kind, place⟩ := h
  rw [place]
  exact String.toList_ofList.trans (front.mark (punct ▸ kind))

end Token.LexedIn

/-! ## Stretches of a source -/

/-- Is it neither trivia nor a rejected character? -/
def Lexeme.isToken (l : Lexeme) : Bool :=
  match l.kind with
  | .token _ => true
  | _ => false

namespace Lexical

def textOf (ls : List Lexeme) : List Char := ls.flatMap Lexeme.text

/-- Between the offsets the source has some of its lexemes, and those of them that are neither trivia
    nor rejected characters make up the text. -/
def ReadsAs (source : String) (start stop : Int) (text : String) : Prop :=
  ∃ before ls after, Splits source.toList (before ++ ls ++ after) ∧
    start = (textOf before).length ∧ stop = (textOf (before ++ ls)).length ∧
    textBetween source start stop = String.ofList (textOf ls) ∧
    text = String.ofList (textOf (ls.filter Lexeme.isToken))

variable {before : List Char} {ls : List Lexeme} {us ts rest : List Token} {t : Token}

@[simp] theorem textOf_append (ls ms : List Lexeme) : textOf (ls ++ ms) = textOf ls ++ textOf ms :=
  List.flatMap_append

@[simp] theorem textOf_cons (l : Lexeme) (ls : List Lexeme) : textOf (l :: ls) = l.text ++ textOf ls :=
  List.flatMap_cons

@[simp] theorem textOf_nil : textOf [] = [] := rfl

theorem Splits.text {cs : List Char} (h : Splits cs ls) : textOf ls = cs := by
  induction h with
  | nil => rfl
  | cons _ _ ih => rw [textOf_cons, ih]

/-- A token is one of the lexemes, and those around it are around it. -/
theorem tokensFrom_split (noEof : t.kind ≠ .eof) (eq : tokensFrom before ls = us ++ t :: ts) :
    ∃ front l back, ls = front ++ l :: back ∧ l.isToken = true ∧
      t = (placeOf (before ++ textOf front)).token t.kind l.text ∧
      ts = tokensFrom (before ++ textOf (front ++ [l])) back ∧
      textOf (front.filter Lexeme.isToken) = us.flatMap fun u => u.value.toList := by
  -- On the lexemes: each is the one of the token, or stands in front of it.
  induction ls generalizing before us with
  | nil =>
    have last : t ∈ tokensFrom before [] := eq ▸ List.mem_append_right us List.mem_cons_self
    rw [tokensFrom, List.mem_singleton] at last
    exact absurd (congrArg Token.kind last) noEof
  | cons l ls ih =>
    rw [tokensFrom] at eq
    split at eq
    · next kind token =>
      have isToken : l.isToken = true := by rw [Lexeme.isToken, token]
      cases us with
      | nil =>
        obtain ⟨rfl, rfl⟩ := List.cons.inj eq
        exact ⟨[], l, ls, rfl, isToken, by simp [Position.token], by simp, rfl⟩
      | cons u us =>
        obtain ⟨rfl, -⟩ := List.cons.inj eq
        have behind : tokensFrom (before ++ l.text) ls = us ++ t :: ts := (List.cons.inj eq).2
        obtain ⟨front, m, back, rfl, isToken', here, later, text⟩ := ih behind
        refine ⟨l :: front, m, back, rfl, isToken', by simpa using here, by simpa using later, ?_⟩
        rw [List.filter_cons_of_pos isToken, textOf_cons, text]
        simp [Position.token]
    · next noToken =>
      have isToken : ¬ l.isToken = true := by
        unfold Lexeme.isToken
        split
        · next kind token => exact absurd token (noToken kind)
        · exact Bool.false_ne_true
      obtain ⟨front, m, back, rfl, isToken', here, later, text⟩ := ih eq
      refine ⟨l :: front, m, back, rfl, isToken', by simpa using here, by simpa using later, ?_⟩
      rw [List.filter_cons_of_neg isToken, text]

/-- Tokens in a row are a stretch of the lexemes, from the start of the first to the end of the
    last. -/
theorem tokensFrom_stretch (noEof : ∀ u ∈ t :: ts, u.kind ≠ .eof)
    (eq : tokensFrom before ls = us ++ t :: (ts ++ rest)) :
    ∃ front stretch back, ls = front ++ stretch ++ back ∧
      t.offset = (before ++ textOf front).length ∧
      ((t :: ts).getLast (List.cons_ne_nil t ts)).stop =
        (before ++ textOf (front ++ stretch)).length ∧
      textOf (front.filter Lexeme.isToken) = us.flatMap (fun u => u.value.toList) ∧
      textOf (stretch.filter Lexeme.isToken) = (t :: ts).flatMap fun u => u.value.toList := by
  induction ts generalizing before ls us t with
  | nil =>
    obtain ⟨front, l, back, rfl, isToken, here, -, text⟩ :=
      tokensFrom_split (noEof t List.mem_cons_self) eq
    have value : t.value.toList = l.text := by
      rw [here]
      exact String.toList_ofList
    refine ⟨front, [l], back, by simp, ?_, ?_, text, ?_⟩
    · rw [here]
      rfl
    · rw [List.getLast_singleton, here, Position.stop_token, after_placeOf]
      simp [placeOf]
    · simp [isToken, value]
  | cons u ts ih =>
    obtain ⟨first, others⟩ := List.forall_mem_cons.1 noEof
    obtain ⟨front, l, back, rfl, isToken, here, later, text⟩ := tokensFrom_split first eq
    have value : t.value.toList = l.text := by
      rw [here]
      exact String.toList_ofList
    -- Between the two tokens there is nothing that is a token.
    have behind : tokensFrom (before ++ textOf (front ++ [l])) back = [] ++ u :: (ts ++ rest) :=
      later.symm
    obtain ⟨between, stretch, back, rfl, -, stop, none, texts⟩ := ih others behind
    refine ⟨front, l :: between ++ stretch, back, by simp, ?_, ?_, text, ?_⟩
    · rw [here]
      rfl
    · rw [List.getLast_cons (List.cons_ne_nil u ts), stop]
      simp
    · simp [isToken, value, none, texts]

/-- Tokens of a source in a row read as their values, one after the other. -/
theorem tokens_readsAs {source : String} (noEof : ∀ u ∈ t :: ts, u.kind ≠ .eof)
    (eq : (tokenize source).tokens = us ++ t :: (ts ++ rest)) :
    ReadsAs source t.offset (max t.offset ((t :: ts).getLast (List.cons_ne_nil t ts)).stop)
      (String.ofList ((t :: ts).flatMap fun u => u.value.toList)) := by
  have splits := splits_singly source.toList
  rw [tokenize_of_splits splits] at eq
  obtain ⟨front, stretch, back, split, start, stop, -, text⟩ := tokensFrom_stretch noEof eq
  rw [split] at splits
  rw [List.nil_append] at start stop
  have ends : max t.offset ((t :: ts).getLast (List.cons_ne_nil t ts)).stop =
      (textOf (front ++ stretch)).length := by
    rw [start, stop, textOf_append, List.length_append]
    exact Int.max_eq_right (by omega)
  refine ⟨front, stretch, back, splits, start, ends, ?_, by rw [text]⟩
  have whole : source.toList = textOf front ++ (textOf stretch ++ textOf back) := by
    rw [← splits.text]
    simp
  rw [ends, start, ← textBetween_append whole, textOf_append, List.length_append]
  rfl

end Lexical

end IdlFront
