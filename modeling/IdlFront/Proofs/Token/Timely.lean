import IdlFront.Proofs.Parser.Interleaving
import IdlFront.Proofs.Token.Buffering

/-! # Faults come with their tokens

A source is split into tokens as somebody asks for them. When it hands on a token it knows of every
fault up to there, those of the token itself among them, and of no fault behind.

* `faults_parted` — an arrival parts the faults of the text: up to its token, and behind.
* `TokenBuffer.Refines.faults` — what a buffer knows are the faults of what has been drawn.
* `faults_timely` — at every token of a run, the faults known are those up to the place of the token.
-/

namespace IdlFront

/-! ## Faults up to a token -/

section Parted

variable {source : String} {before after : List Arrival} {a : Arrival}

/-- The faults of the arrivals up to one are not behind its token, and all others are. -/
theorem faults_parted (eq : arrivals source = before ++ a :: after) :
    (∀ d ∈ (before ++ [a]).flatMap Arrival.faults, d.place ≤ a.token.place) ∧
      ∀ d ∈ after.flatMap Arrival.faults, a.token.place < d.place := by
  have lexical := arrivals_lexical source
  have sorted := arrivals_inOrder source
  -- The mark of the token stands between the two parts of the trail.
  have trail : (arrivals source).flatMap Arrival.trail =
      (before.flatMap Arrival.trail ++ a.faults) ++ a.token.mark :: after.flatMap Arrival.trail := by
    rw [eq]
    simp [Arrival.trail]
  rw [trail] at sorted
  obtain ⟨-, behind, across⟩ := List.pairwise_append.1 sorted
  constructor
  · intro d mem
    have among : d ∈ before.flatMap Arrival.trail ++ a.faults := by
      rw [List.flatMap_append, List.flatMap_singleton, List.mem_append] at mem
      refine List.mem_append.2 (mem.imp_left fun mem => ?_)
      obtain ⟨b, early, mem⟩ := List.mem_flatMap.1 mem
      exact List.mem_flatMap.2 ⟨b, early, List.mem_append_left _ mem⟩
    exact Diagnostic.place_le_of_rank_le (across d among _ List.mem_cons_self)
  · intro d mem
    obtain ⟨b, late, mem⟩ := List.mem_flatMap.1 mem
    have fault : d.isLexical = true := lexical b (by simp [eq, late]) d mem
    have among : d ∈ after.flatMap Arrival.trail :=
      List.mem_flatMap.2 ⟨b, late, List.mem_append_left _ mem⟩
    -- A fault at the place of the mark would stand in front of it.
    obtain later | ⟨-, lexical⟩ :=
      Diagnostic.rank_le_iff.1 ((List.pairwise_cons.1 behind).1 d among)
    · exact later
    · exact absurd (lexical fault) Bool.false_ne_true

theorem faults_upTo (eq : arrivals source = before ++ a :: after) :
    (before ++ [a]).flatMap Arrival.faults =
      (tokenize source).faults.filter fun d => d.place ≤ a.token.place := by
  obtain ⟨early, late⟩ := faults_parted eq
  have all : (tokenize source).faults =
      (before ++ [a]).flatMap Arrival.faults ++ after.flatMap Arrival.faults := by
    rw [tokenize, eq]
    simp
  have inside : ((before ++ [a]).flatMap Arrival.faults).filter (fun d => d.place ≤ a.token.place) =
      (before ++ [a]).flatMap Arrival.faults :=
    List.filter_eq_self.2 fun d mem => decide_eq_true (early d mem)
  have outside : (after.flatMap Arrival.faults).filter (fun d => d.place ≤ a.token.place) = [] :=
    List.filter_eq_nil_iff.2 fun d mem => by simpa using late d mem
  rw [all, List.filter_append, inside, outside, List.append_nil]

end Parted

/-! ## Faults of a run -/

namespace TokenBuffer.Refines

variable {front back : List Arrival} {m : IndexedTokens} {drawn : Nat} {b : TokenBuffer}

/-- A buffer knows the faults of the arrivals that have been drawn, and no others. -/
theorem faults (h : Refines front back m drawn b) :
    b.faults = ((front ++ back).take drawn).flatMap Arrival.faults := by
  cases h with
  | drawing eq _ => rw [eq, List.append_assoc, List.take_left]
  | ended _ =>
    have one : back.take (back.take 1).length = back.take 1 :=
      (List.prefix_iff_eq_take.1 (List.take_prefix 1 back)).symm
    rw [List.take_length_add_append, one]

/-- What has been drawn and not been consumed waits, and behind it the end of input, if it has been
    reached. -/
theorem waiting (h : Refines front back m drawn b) (source : back ≠ []) :
    b.waiting ++ b.ending.toList = (((front ++ back).take drawn).map Arrival.token).drop m.index := by
  obtain ⟨e, back, rfl⟩ := List.exists_cons_of_ne_nil source
  cases h with
  | drawing eq _ =>
    rw [eq, List.append_assoc, List.take_left]
    exact List.append_nil _
  | @ended _ index le =>
    have short : index ≤ (front.map Arrival.token).length := by rwa [List.length_map]
    simp [List.take_length_add_append, List.drop_append_of_le_length short, endBehind]

end TokenBuffer.Refines

/-- Counting hands on every token with the number of faults in all arrivals up to it. -/
theorem tokenizeCounting.go_getElem? (before after : List Arrival) (a : Arrival) (known : Nat) :
    (go known (before ++ a :: after))[before.length]? =
      some (a.token, known + ((before ++ [a]).flatMap Arrival.faults).length) := by
  induction before generalizing known with
  | nil => simp [go]
  | cons b before ih =>
    have rest := ih (known + b.faults.length)
    simp only [List.cons_append, go, List.length_cons, List.getElem?_cons_succ, rest,
      List.flatMap_cons, List.length_append, Nat.add_assoc]

/-- When a source hands on a token, whether it is drawn into a buffer or counted, the faults known are
    those of the whole text that are not behind the place of the token, in their order: no fault comes
    late, none comes early, and at the end of input all are there. -/
theorem faults_timely (source : String) (i : Fin (tokenize source).tokens.length) :
    let t := (tokenize source).tokens[i]
    let known := (tokenize source).faults.filter fun d => d.place ≤ t.place
    let buffer := (TokenBuffer.ofSource source).fillUp (i + 1)
    buffer.waiting ++ buffer.ending.toList = (tokenize source).tokens.take (i + 1) ∧
      buffer.taken = i + 1 ∧ buffer.faults = known ∧
      (tokenizeCounting source)[i.val]? = some (t, known.length) ∧
      known <+: (tokenize source).faults ∧ (t.kind = .eof → known = (tokenize source).faults) := by
  intro t known buffer
  obtain ⟨as, last, eq, noEof, ending⟩ := arrivals_eq source
  have parted : Parted (arrivals source) as [last] :=
    ⟨eq, by simpa [Token.isEof] using noEof, by simpa [Token.isEof] using ending⟩
  have inside : i.val < (arrivals source).length := by simpa [tokenize] using i.isLt
  have length : (arrivals source).length = as.length + 1 := by rw [eq, List.length_append]; rfl
  -- The text is parted at the arrival of the token.
  have split : arrivals source =
      (arrivals source).take i ++ (arrivals source)[i.val] :: (arrivals source).drop (i + 1) := by
    rw [← List.drop_eq_getElem_cons inside, List.take_append_drop]
  have upTo : (arrivals source).take (i + 1) = (arrivals source).take i ++ [(arrivals source)[i.val]] :=
    List.take_succ_eq_append_getElem inside
  have token : t = (arrivals source)[i.val].token := by simp [t, tokenize]
  have known_eq : ((arrivals source).take (i + 1)).flatMap Arrival.faults = known := by
    rw [upTo, faults_upTo split, ← token]
  have refines : TokenBuffer.Refines as [last] (.ofTokens ((arrivals source).map Arrival.token))
      (i + 1) buffer := by
    have filled := ((TokenBuffer.refines_ofArrivals parted).fillUp (n := i + 1) parted).1
    rwa [Nat.zero_add, Nat.min_eq_right (by rw [List.length_take, List.length_singleton]; omega)] at filled
  refine ⟨?_, refines.taken, ?_, ?_, ?_, ?_⟩
  · rw [refines.waiting (List.cons_ne_nil _ _), ← eq, parted.ofTokens_eq, List.drop_zero, List.map_take]
    rfl
  · rw [refines.faults, ← eq, known_eq]
  · have counted := tokenizeCounting.go_getElem? ((arrivals source).take i)
      ((arrivals source).drop (i + 1)) (arrivals source)[i.val] 0
    rw [← split, List.length_take, Nat.min_eq_left (Nat.le_of_lt inside), ← upTo, known_eq,
      Nat.zero_add, ← token] at counted
    exact counted
  · rw [← known_eq]
    refine ⟨((arrivals source).drop (i + 1)).flatMap Arrival.faults, ?_⟩
    rw [← List.flatMap_append, List.take_append_drop]
    rfl
  · intro isEnd
    have whole : (arrivals source).length ≤ i + 1 := by
      by_contra short
      have early : (arrivals source)[i.val] ∈ as := by
        simp only [eq]
        rw [List.getElem_append_left (by omega)]
        exact List.getElem_mem _
      exact noEof _ early (token ▸ isEnd)
    rw [← known_eq, List.take_of_length_le whole]
    rfl

end IdlFront
