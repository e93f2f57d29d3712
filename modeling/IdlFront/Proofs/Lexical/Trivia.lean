import IdlFront.Proofs.Lexical.Lookahead

/-! # Trivia between tokens

A token is the same token before any trivia, so texts that differ only in the trivia between their
tokens have the same words.

* `Trivium`, `IsTrivia`, `IsEnding` — pieces of trivia, any number of them, and what may stand at the
  end of a text.
* `Respaced` — texts with trivia between them.
* `HasWords` — a text of sound lexemes, and the tokens among them.
* `HasWords.respaced` — the words of a text are those of any text that spaces them out.
-/

namespace IdlFront

/-- The kind and text of a token. -/
def Token.word (t : Token) : TokenKind × String := (t.kind, t.value)

namespace Lexical

variable {c : Char} {text rest rest' : List Char} {l : Lexeme} {ls : List Lexeme}

/-! ## Trivia -/

/-- One piece of trivia: a whitespace character, a line comment with the line feed that ends it, or a
    block comment that ends with the first `*/` behind its start. -/
inductive Trivium : List Char → Prop where
  | whitespace {c : Char} : c ∈ whitespace → Trivium [c]
  | lineComment {body : List Char} : '\n' ∉ body → Trivium ('/' :: '/' :: (body ++ ['\n']))
  | blockComment {body : List Char} :
      ¬ ['*', '/'] <:+: body ++ ['*'] → Trivium ('/' :: '*' :: (body ++ ['*', '/']))

/-- Any number of pieces of trivia. -/
inductive IsTrivia : List Char → Prop where
  | nil : IsTrivia []
  | cons {piece pieces : List Char} : Trivium piece → IsTrivia pieces → IsTrivia (piece ++ pieces)

/-- What may follow the last token: trivia, and then perhaps a line comment that no line feed ends. -/
inductive IsEnding : List Char → Prop where
  | trivia {pieces : List Char} : IsTrivia pieces → IsEnding pieces
  | openLine {pieces body : List Char} : IsTrivia pieces → '\n' ∉ body →
      IsEnding (pieces ++ '/' :: '/' :: body)

/-- Texts one after the other, with trivia in front of each and an ending behind the last. -/
inductive SpacedOut : List (List Char) → List Char → Prop where
  | ending {w : List Char} : IsEnding w → SpacedOut [] w
  | text {w text rest : List Char} {texts : List (List Char)} :
      IsTrivia w → w ≠ [] → SpacedOut texts rest → SpacedOut (text :: texts) (w ++ (text ++ rest))

/-- Texts one after the other with trivia between them: `w₀ v₁ w₁ v₂ … vₙ wₙ`. Only the trivia in
    front of the first text and the ending may be empty. -/
inductive Respaced : List (List Char) → List Char → Prop where
  | nothing {w : List Char} : IsEnding w → Respaced [] w
  | texts {w text rest : List Char} {texts : List (List Char)} :
      IsTrivia w → SpacedOut texts rest → Respaced (text :: texts) (w ++ (text ++ rest))

/-! ## Words -/

/-- The kind and text of a lexeme that is a token. -/
def wordOf? (l : Lexeme) : Option (TokenKind × String) :=
  match l.kind with
  | .token kind => some (kind, String.ofList l.text)
  | _ => none

theorem wordOf?_eq_some {word : TokenKind × String} (h : wordOf? l = some word) :
    l.kind = .token word.1 ∧ l.text = word.2.toList := by
  unfold wordOf? at h
  split at h
  · next kind eq =>
    cases h
    exact ⟨eq, by simp⟩
  · cases h

/-- The text is a sequence of lexemes without faults, and the tokens among them are these words. -/
def HasWords (cs : List Char) (words : List (TokenKind × String)) : Prop :=
  ∃ ls, Splits cs ls ∧ (∀ l ∈ ls, l.fault = none) ∧ ls.filterMap wordOf? = words

variable {words : List (TokenKind × String)}

theorem hasWords_nil : HasWords [] [] := ⟨[], .nil, by simp, rfl⟩

theorem HasWords.cons (h : HasWords rest words) (front : Front l rest) (sound : l.fault = none) :
    HasWords (l.text ++ rest) ((wordOf? l).toList ++ words) := by
  obtain ⟨ls, splits, quiet, rfl⟩ := h
  refine ⟨l :: ls, .cons front splits, List.forall_mem_cons.2 ⟨sound, quiet⟩, ?_⟩
  rw [List.filterMap_cons]
  cases wordOf? l <;> rfl

theorem HasWords.trivium {piece : List Char} (h : HasWords rest words) (trivium : Trivium piece) :
    HasWords (piece ++ rest) words := by
  cases trivium with
  | whitespace blank => exact h.cons (.whitespace blank) rfl
  | @lineComment body noLineFeed =>
    -- The line feed is a whitespace character behind the comment.
    have behind : HasWords ('\n' :: rest) words := h.cons (.whitespace (by decide)) rfl
    rw [List.cons_append, List.cons_append, List.append_assoc]
    exact behind.cons (.lineComment noLineFeed fun c head => by simpa using head.symm) rfl
  | blockComment first => exact h.cons (.blockComment first) rfl

theorem HasWords.trivia {w : List Char} (h : HasWords rest words) (trivia : IsTrivia w) :
    HasWords (w ++ rest) words := by
  induction trivia with
  | nil => exact h
  | cons trivium _ ih =>
    rw [List.append_assoc]
    exact ih.trivium trivium

theorem IsEnding.hasWords {w : List Char} (h : IsEnding w) : HasWords w [] := by
  cases h with
  | trivia trivia => simpa using hasWords_nil.trivia trivia
  | openLine trivia noLineFeed =>
    have last := hasWords_nil.cons (.lineComment noLineFeed (by simp [EndsLine])) rfl
    rw [List.append_nil] at last
    exact last.trivia trivia

/-! ## Spaced texts -/

theorem Trivium.head {piece : List Char} (h : Trivium piece) :
    ∃ c cs, piece = c :: cs ∧ c ∈ separators := by
  cases h with
  | whitespace blank => exact ⟨_, _, rfl, List.mem_cons_of_mem _ blank⟩
  | lineComment => exact ⟨_, _, rfl, List.mem_cons_self⟩
  | blockComment => exact ⟨_, _, rfl, List.mem_cons_self⟩

/-- In front of more than nothing trivia separate. -/
theorem IsTrivia.separated {w : List Char} (h : IsTrivia w) (more : w ≠ []) (rest : List Char) :
    Separated (w ++ rest) := by
  cases h with
  | nil => exact absurd rfl more
  | cons trivium _ =>
    obtain ⟨c, cs, rfl, separator⟩ := trivium.head
    rintro d ⟨⟩
    exact separator

theorem IsEnding.separated {w : List Char} (h : IsEnding w) : Separated w := by
  cases h with
  | @trivia w trivia =>
    cases w with
    | nil => simp [Separated]
    | cons c cs => simpa using trivia.separated (List.cons_ne_nil c cs) []
  | @openLine pieces body trivia =>
    cases pieces with
    | nil =>
      rintro d ⟨⟩
      exact List.mem_cons_self
    | cons c cs => exact trivia.separated (List.cons_ne_nil c cs) _

theorem SpacedOut.separated {texts : List (List Char)} {cs : List Char} (h : SpacedOut texts cs) :
    Separated cs := by
  cases h with
  | ending ending => exact ending.separated
  | text trivia more => exact trivia.separated more _

/-- One more sound token, with trivia in front of it. -/
theorem HasWords.token {w r : List Char} {word : TokenKind × String} (h : HasWords rest words)
    (isWord : wordOf? l = some word) (sound : l.fault = none) (front : Front l r)
    (trivia : IsTrivia w) (separated : Separated rest) :
    HasWords (w ++ (word.2.toList ++ rest)) (word :: words) := by
  rw [← (wordOf?_eq_some isWord).2]
  have here := h.cons (front.separated (wordOf?_eq_some isWord).1 sound separated) sound
  rw [isWord] at here
  exact here.trivia trivia

/-- The texts of sound tokens, spaced out, have these tokens as their words. -/
theorem SpacedOut.hasWords {cs : List Char} (tokens : ∀ l ∈ ls, l.fault = none ∧
    ∃ rest, Front l rest) (h : SpacedOut (words.map fun word => word.2.toList) cs)
    (eq : ls.map wordOf? = words.map some) : HasWords cs words := by
  induction words generalizing ls cs with
  | nil =>
    cases h with
    | ending ending => exact ending.hasWords
  | cons word words ih =>
    cases ls with
    | nil => cases eq
    | cons l ls =>
      obtain ⟨isWord, eq⟩ := List.cons.inj eq
      obtain ⟨⟨sound, _, front⟩, others⟩ := List.forall_mem_cons.1 tokens
      cases h with
      | text trivia _ spaced =>
        exact (ih others spaced eq).token isWord sound front trivia spaced.separated

theorem Splits.front {cs : List Char} (h : Splits cs ls) : ∀ l ∈ ls, ∃ rest, Front l rest := by
  induction h with
  | nil => simp
  | cons front _ ih => exact List.forall_mem_cons.2 ⟨⟨_, front⟩, ih⟩

/-- A text with other trivia between its tokens has the same words. -/
theorem HasWords.respaced {cs cs' : List Char} (h : HasWords cs words)
    (respaced : Respaced (words.map fun word => word.2.toList) cs') : HasWords cs' words := by
  obtain ⟨ls, splits, sound, rfl⟩ := h
  -- Only the tokens matter, each in front of some rest.
  have eq : (ls.filter fun l => (wordOf? l).isSome).map wordOf? = (ls.filterMap wordOf?).map some := by
    clear splits sound respaced
    induction ls with
    | nil => rfl
    | cons l ls ih => cases word : wordOf? l <;> simp [word, ih]
  have tokens : ∀ l ∈ ls.filter fun l => (wordOf? l).isSome, l.fault = none ∧ ∃ rest, Front l rest :=
    fun l mem => ⟨sound l (List.mem_filter.1 mem).1, splits.front l (List.mem_filter.1 mem).1⟩
  generalize ls.filterMap wordOf? = words at respaced eq ⊢
  cases words with
  | nil =>
    cases respaced with
    | nothing ending => exact ending.hasWords
  | cons word words =>
    cases hls : ls.filter fun l => (wordOf? l).isSome with
    | nil =>
      rw [hls] at eq
      cases eq
    | cons l ls' =>
      rw [hls] at eq tokens
      obtain ⟨isWord, eq⟩ := List.cons.inj eq
      obtain ⟨⟨quiet, _, front⟩, others⟩ := List.forall_mem_cons.1 tokens
      cases respaced with
      | texts trivia spaced =>
        exact (spaced.hasWords others eq).token isWord quiet front trivia spaced.separated

/-! ## Tokens -/

theorem words_tokensFrom (before : List Char) (ls : List Lexeme) :
    (tokensFrom before ls).map Token.word = ls.filterMap wordOf? ++ [(.eof, "")] := by
  induction ls generalizing before with
  | nil => rfl
  | cons l ls ih =>
    rw [tokensFrom, List.filterMap_cons, wordOf?]
    cases l.kind with
    | token kind => simp [ih, Token.word, Position.token]
    | _ => exact ih _

theorem faultsFrom_eq_nil_iff (before : List Char) (ls : List Lexeme) :
    faultsFrom before ls = [] ↔ ∀ l ∈ ls, l.fault = none := by
  induction ls generalizing before with
  | nil => simp [faultsFrom]
  | cons l ls ih => simp [faultsFrom, ih, Position.faults]

theorem hasWords_iff {source : String} : HasWords source.toList words ↔
    (tokenize source).faults = [] ∧ (tokenize source).tokens.map Token.word = words ++ [(.eof, "")] := by
  constructor
  · rintro ⟨ls, splits, sound, rfl⟩
    rw [tokenize_of_splits splits]
    exact ⟨(faultsFrom_eq_nil_iff [] ls).2 sound, words_tokensFrom [] ls⟩
  · rintro ⟨quiet, tokens⟩
    have splits := splits_singly source.toList
    rw [tokenize_of_splits splits] at quiet tokens
    rw [words_tokensFrom] at tokens
    exact ⟨_, splits, (faultsFrom_eq_nil_iff [] _).1 quiet, List.append_cancel_right tokens⟩

theorem exists_words {source : String} (quiet : (tokenize source).faults = []) :
    ∃ words, HasWords source.toList words := by
  have splits := splits_singly source.toList
  rw [tokenize_of_splits splits] at quiet
  exact ⟨_, _, splits, (faultsFrom_eq_nil_iff [] _).1 quiet, rfl⟩

end Lexical

end IdlFront
