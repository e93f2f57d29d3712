import Mathlib.Data.List.Forall2
import IdlFront.Proofs.Grammar.Containers
import IdlFront.Proofs.Grammar.Recognition

/-! # Errors stay in their block

Whatever stands in the block of a container, the list that the container is an item of reads one node
and goes on behind the closing brace as if the block had been empty.

* `Shifted` — two states that differ only in what is behind them.
* `Isolates` — a list that reads a container apart from what follows it.
* `containers_isolated` — the body of a namespace does so, and the top level.
-/

namespace IdlFront

open IdlFront.Parser IdlFront.ParserState IdlFront.Grammar

/-! ## States that differ in the past -/

/-- The same tokens are to come in both states; `L` and `M` were reported before, and the same since
    then; and the token counts differ by as much as `j` and `k`. -/
structure Shifted (L M : List Diagnostic) (j k : Nat) (s t : ParserState) : Prop where
  plain : s.Plain
  plain' : t.Plain
  tokens : s.tokens = t.tokens
  ending : s.ending = t.ending
  prevStop : s.prevStop = t.prevStop
  consumed : s.stream.consumed + j = t.stream.consumed + k
  log : ∃ E, s.log.toList = L ++ E ∧ t.log.toList = M ++ E

theorem shifted_bisimulation (L M : List Diagnostic) (j k : Nat) :
    Bisimulation (Shifted L M j k) where
  tokens h := h.tokens
  ending h := h.ending
  prevStop h := h.prevStop
  consumed h h' := by
    have := h.consumed
    have := h'.consumed
    omega
  looked {s t} h := by
    obtain ⟨E, hs, ht⟩ := h.log
    exact ⟨h.plain.looked, h.plain'.looked, by rw [tokens_looked, tokens_looked, h.tokens],
      by rw [ending_looked, ending_looked, h.ending], h.prevStop, h.consumed,
      E, by rw [h.plain.log_looked, hs], by rw [h.plain'.log_looked, ht]⟩
  advanced {s t} h := by
    obtain ⟨E, hs, ht⟩ := h.log
    have left := h.plain.moves_advanced
    have right := h.plain'.moves_advanced
    refine ⟨left.plainAfter, right.plainAfter, by rw [tokens_advanced, tokens_advanced, h.tokens],
      by rw [ending_advanced, ending_advanced, h.ending],
      by rw [prevStop_advanced, prevStop_advanced, h.tokens, h.prevStop], ?_,
      E, by rw [left.log, List.append_nil, hs], by rw [right.log, List.append_nil, ht]⟩
    -- Both consume one token or, at the end of input, none.
    have same : s.remaining = t.remaining := by rw [remaining_eq, remaining_eq, h.tokens]
    have := consumed_advanced s
    have := consumed_advanced t
    have := remaining_advanced s
    have := remaining_advanced t
    have := h.consumed
    omega
  reported {s t} d h := by
    obtain ⟨E, hs, ht⟩ := h.log
    exact ⟨(h.plain.moves_reported d).plainAfter, (h.plain'.moves_reported d).plainAfter, h.tokens,
      h.ending, h.prevStop, h.consumed, E ++ [d], by simp [ParserState.reported, hs],
      by simp [ParserState.reported, ht]⟩

/-- Where the same tokens are to come, a parser that never fails gives the same value and reports the
    same. -/
theorem same_from_here {α : Type} {p : Parser α} [hp : Uniform p] [total : Total p]
    {s t : ParserState} (plain : s.Plain) (plain' : t.Plain) (tokens : s.tokens = t.tokens)
    (ending : s.ending = t.ending) (prevStop : s.prevStop = t.prevStop) :
    ∃ a E s' t', p s = .ok a s' ∧ p t = .ok a t' ∧ s'.log.toList = s.log.toList ++ E ∧
      t'.log.toList = t.log.toList ++ E := by
  have start : Shifted s.log.toList t.log.toList t.stream.consumed s.stream.consumed s t :=
    ⟨plain, plain', tokens, ending, prevStop, Nat.add_comm _ _, [], by simp, by simp⟩
  obtain ⟨a, s', t', hs, ht, h⟩ | ⟨d, s', t', hs, -, -⟩ :=
    (hp.alike (shifted_bisimulation _ _ _ _) start).split
  · obtain ⟨E, logs, logt⟩ := h.log
    exact ⟨a, E, s', t', hs, ht, logs, logt⟩
  · obtain ⟨a, u, run⟩ := total.succeeds s
    rw [run] at hs
    cases hs

/-! ## Lists that go on -/

section Lists

variable {β : Type} {continues : TokenKind → Bool} {round : β → Parser β}

/-- What a loop has at the start it keeps in front of what it adds. -/
theorem iterate_map (f : β → β) (commutes : ∀ b, round (f b) = f <$> round b) (b : β) :
    iterate continues round (f b) = f <$> iterate continues round b := by
  funext s
  induction hn : s.remaining using Nat.strongRecOn generalizing s b with
  | ind n ih =>
    rw [map_apply, iterate, iterate, commutes]
    split
    · rw [map_apply]
      cases hr : round b s.looked with
      | error d t => rfl
      | ok b' t =>
        simp only
        split
        · rw [ih t.remaining (by omega) b' t rfl, map_apply]
        · rfl
    · rfl

end Lists

/-- The body of a namespace from some declarations on. -/
def bodyLoop (ds : List Declaration) : Parser (List Declaration) :=
  iterate untilClosed (declarationRound declaration) ds

/-- The body of a namespace from behind the last of some declarations on. -/
def behindDeclaration (ds : List Declaration) : Parser (List Declaration) := do
  discard (accept (.punct .semicolon))
  bodyLoop ds

/-- The top level from some items on. -/
def fileLoop (tree : IdlFile) : Parser IdlFile := iterate (· != .eof) topLevelRound tree

/-- One tree with the items of another behind its own. -/
def IdlFile.append (tree tree' : IdlFile) : IdlFile :=
  ⟨tree.imports ++ tree'.imports, tree.namespaces ++ tree'.namespaces⟩

/-! ## Isolation -/

namespace ContainerText

theorem stopAfter_tokens (c : ContainerText) (stop : Int) :
    stopAfter stop c.tokens = c.closing.stop := by
  simp [tokens]

theorem begins (c : ContainerText) :
    nextKind c.tokens ∈ .punct .lbracket :: declarationKeywords := by
  obtain ⟨front, l, B, r, header, isHeader, -, -, -⟩ := c
  obtain @⟨as, ts, attributes, header, hattributes, title⟩ := isHeader
  simp only [tokens, List.append_assoc]
  obtain rfl | bracket := hattributes.begins
  · exact List.mem_cons_of_mem _ (nextKind_append_mem title.begins (by decide) _)
  · exact List.mem_append_left declarationKeywords (nextKind_append_mem bracket (by decide) _)

theorem emptied_eq {c : ContainerText} (empty : c.body = []) : c.emptied = c := by
  cases c
  subst empty
  rfl

end ContainerText

section Isolation

variable {ι β : Type}

/-- A list reads a container as one node, wherever it stands, and goes on behind the closing brace.
    All that is reported for the block, which is nothing if it is empty, has then been reported. -/
def Reads (loop behind : β → Parser β) (append : β → ι → β) (IsNode : ContainerText → ι → Prop)
    (c : ContainerText) : Prop :=
  ∀ (b : β) (R : List Token) (s : ParserState), s.Plain → s.tokens = c.tokens ++ R →
    ∃ a D m, IsNode c a ∧ (c.body = [] → D = []) ∧ s.Moves c.tokens D m ∧
      loop b s = behind (append b a) m

/-- Behind a container a list goes on as if the block had been empty: it adds the same to what it
    has, and reports the same. -/
def Isolates (loop behind : β → Parser β) (append : β → ι → β) (join : β → β → β)
    (IsNode : ContainerText → ι → Prop) (c : ContainerText) : Prop :=
  ∀ (b : β) (R : List Token) (s s₀ : ParserState), s.Plain → s.tokens = c.tokens ++ R →
    s₀.Plain → s₀.tokens = c.emptied.tokens ++ R → s₀.ending = s.ending →
    ∃ a a₀ later D E m t t₀, IsNode c a ∧ IsNode c.emptied a₀ ∧
      s.Moves c.tokens D m ∧ loop b s = behind (append b a) m ∧
      loop b s = .ok (join (append b a) later) t ∧
      t.log.toList = s.log.toList ++ D ++ E ∧
      loop b s₀ = .ok (join (append b a₀) later) t₀ ∧
      t₀.log.toList = s₀.log.toList ++ E

variable {loop behind : β → Parser β} {append : β → ι → β} {join : β → β → β} {none : β}
  {IsNode : ContainerText → ι → Prop} {item : Parser ι} {c : ContainerText}

/-- A list reads a container if its rounds read it as an item, and in silence where the block is
    empty. -/
theorem reads_of
    (step : ∀ {b s a D m}, s.Plain → s.looked.Moves c.tokens D m → item s.looked = .ok a m →
      loop b s = behind (append b a) m)
    (takes : ∀ {stop rest}, Takes item stop c.tokens (IsNode c) rest)
    (accepts : ∃ a₀, IsNode c.emptied a₀ ∧
      ∀ {stop rest}, Accepts item stop c.emptied.tokens a₀ rest) :
    Reads loop behind append IsNode c := by
  intro b R s plain tokens
  rw [← tokens_looked] at tokens
  -- Where nothing is inside, the grammar says what is read, and that nothing is reported.
  by_cases empty : c.body = []
  · rw [ContainerText.emptied_eq empty] at accepts
    obtain ⟨a, good, accepts⟩ := accepts
    obtain ⟨m, run, moves⟩ := accepts s.looked plain.looked rfl tokens
    exact ⟨a, [], m, good, fun _ => rfl, plain.moves_looked.trans moves, step plain moves run⟩
  · obtain ⟨a, D, m, run, moves, good⟩ := takes s.looked plain.looked rfl tokens
    exact ⟨a, D, m, good, fun h => absurd h empty, plain.moves_looked.trans moves,
      step plain moves run⟩

/-- A list that reads a container isolates it if what it has does not change how it goes on. -/
theorem isolates_of [Uniform (behind none)] [Total (behind none)]
    (reads : Reads loop behind append IsNode c) (reads₀ : Reads loop behind append IsNode c.emptied)
    (kept : ∀ b, behind b = join b <$> behind none) :
    Isolates loop behind append join IsNode c := by
  intro b R s s₀ plain tokens plain₀ tokens₀ ending
  obtain ⟨a, D, m, good, -, moves, first⟩ := reads b R s plain tokens
  obtain ⟨a₀, D₀, m₀, good₀, silent, moves₀, first₀⟩ := reads₀ b R s₀ plain₀ tokens₀
  obtain rfl := silent rfl
  -- Behind the closing brace the two runs differ in the past only.
  obtain ⟨later, E, t, t₀, ht, ht₀, log, log₀⟩ := same_from_here (p := behind none)
    moves.plainAfter moves₀.plainAfter ((moves.rest tokens).trans (moves₀.rest tokens₀).symm)
    (by rw [moves.ending, moves₀.ending, ending])
    (by rw [moves.prevStop, moves₀.prevStop, c.stopAfter_tokens, c.emptied.stopAfter_tokens]; rfl)
  refine ⟨a, a₀, later, D, E, m, t, t₀, good, good₀, moves, first, ?_, ?_, ?_, ?_⟩
  · rw [first, kept, map_apply, ht]
  · rw [log, moves.log]
  · rw [first₀, kept, map_apply, ht₀]
  · rw [log₀, moves₀.log, List.append_nil]

/-- Containers one after the other are read as one node each. -/
theorem reads_sequence {cs : List ContainerText} {R : List Token}
    (reads : ∀ c ∈ cs, Reads loop behind append IsNode c)
    (settle : ∀ {b m}, m.Plain → nextKind m.tokens ≠ .punct .semicolon →
      ∃ m', m.Moves [] [] m' ∧ behind b m = loop b m')
    (next : nextKind R ≠ .punct .semicolon) (b : β) {s : ParserState} (plain : s.Plain)
    (tokens : s.tokens = cs.flatMap ContainerText.tokens ++ R) :
    ∃ as D m, List.Forall₂ IsNode cs as ∧ s.Moves (cs.flatMap ContainerText.tokens) D m ∧
      loop b s = loop (as.foldl append b) m := by
  induction cs generalizing b s with
  | nil => exact ⟨[], [], s, .nil, .refl plain, rfl⟩
  | cons c cs ih =>
    rw [List.flatMap_cons, List.append_assoc] at tokens
    obtain ⟨a, D, m, good, -, moves, first⟩ := reads c List.mem_cons_self b _ s plain tokens
    have rest := moves.rest tokens
    -- Another container follows or the rest, and neither starts with a semicolon.
    have noSemicolon : nextKind m.tokens ≠ .punct .semicolon := by
      rw [rest]
      cases cs with
      | nil => exact next
      | cons c' cs =>
        rw [List.flatMap_cons, List.append_assoc]
        exact ne_of_mem_of_not_mem (nextKind_append_mem c'.begins (by decide) _) (by decide)
    obtain ⟨m', still, settled⟩ := settle moves.plainAfter noSemicolon
    obtain ⟨as, D', u, goods, moves', all⟩ := ih (fun c h => reads c (List.mem_cons_of_mem _ h))
      (append b a) still.plainAfter (by rw [← still.tokens.trans (List.nil_append _), rest])
    refine ⟨a :: as, D ++ D', u, .cons good goods, ?_, ?_⟩
    · have both := moves.trans (still.trans moves')
      simpa using both
    · rw [first, settled, all, List.foldl_cons]

end Isolation

/-! ## Bodies of namespaces -/

/-- With nothing in its block a container is a declaration of the grammar. -/
theorem ContainerText.emptied_isDeclaration (c : ContainerText) :
    ∃ d, IsDeclaration c.emptied.tokens d ∧ c.emptied.IsNode d := by
  obtain ⟨front, l, B, r, header, isHeader, hl, -, hr⟩ := c
  obtain @⟨as, ts, attributes, header, hattributes, title⟩ := isHeader
  have assoc : as ++ ts ++ l :: [] ++ [r] = as ++ (ts ++ l :: [] ++ [r]) := by simp
  unfold ContainerText.IsNode ContainerText.emptied ContainerText.tokens
  rw [assoc]
  cases title with
  | namespace_ hk hname =>
    exact ⟨_, .namespace_ (.mk hattributes (.mk hk hname hl .nil hr)), rfl, rfl⟩
  | enum hk hn => exact ⟨_, .enum (.mk hattributes (.mk hk hn hl .none hr)), rfl, rfl⟩
  | struct hk hn => exact ⟨_, .struct (.mk hattributes (.mk hk hn hl .nil hr)), rfl, rfl⟩
  | interface hk hn hbases =>
    exact ⟨_, .interface (.mk hattributes (.mk hk hn hbases hl .nil hr)), rfl, rfl⟩

instance (ds : List Declaration) : Uniform (bodyLoop ds) := by unfold bodyLoop; infer_instance

instance (ds : List Declaration) : Uniform (behindDeclaration ds) := by
  unfold behindDeclaration; infer_instance

instance (p : Parser Declaration) (ds : List Declaration) : Total (declarationRound p ds) := by
  unfold declarationRound
  refine @total_bind _ _ _ _ _ fun o => ?_
  cases o <;> infer_instance

instance (ds : List Declaration) : Total (bodyLoop ds) := by unfold bodyLoop; infer_instance

instance (ds : List Declaration) : Total (behindDeclaration ds) := by
  unfold behindDeclaration; infer_instance

theorem declarationRound_append (p : Parser Declaration) (as bs : List Declaration) :
    declarationRound p (as ++ bs) = (as ++ ·) <$> declarationRound p bs := by
  unfold declarationRound
  rw [map_bind]
  congr 1
  funext o
  cases o with
  | none => rfl
  | some d => simp

theorem bodyLoop_append (ds : List Declaration) : bodyLoop ds = (ds ++ ·) <$> bodyLoop [] := by
  have kept : bodyLoop (ds ++ []) = (ds ++ ·) <$> bodyLoop [] :=
    iterate_map (ds ++ ·) (declarationRound_append declaration ds) []
  rwa [List.append_nil] at kept

theorem behindDeclaration_append (ds : List Declaration) :
    behindDeclaration ds = (ds ++ ·) <$> behindDeclaration [] := by
  unfold behindDeclaration
  rw [map_bind, bodyLoop_append]

theorem current_of_container {c : ContainerText} {s m : ParserState} {D : List Diagnostic}
    (plain : s.Plain) (moves : s.looked.Moves c.tokens D m) :
    s.current.kind ∈ .punct .lbracket :: declarationKeywords := by
  rw [plain.current_kind, ← tokens_looked, moves.tokens]
  exact nextKind_append_mem c.begins (by decide) _

theorem bodyLoop_step (c : ContainerText) {ds : List Declaration} {s m : ParserState}
    {d : Declaration} {D : List Diagnostic} (plain : s.Plain) (moves : s.looked.Moves c.tokens D m)
    (run : declaration s.looked = .ok d m) : bodyLoop ds s = behindDeclaration (ds ++ [d]) m := by
  have goesOn : ∀ k ∈ .punct .lbracket :: declarationKeywords, untilClosed k = true := by decide
  obtain ⟨found, u, accepted⟩ := (inferInstance : Total (accept (.punct .semicolon))).succeeds m
  have round : declarationRound declaration ds s.looked = .ok (ds ++ [d]) u := by
    unfold declarationRound
    rw [bind_apply, recovering_apply, run]
    simp only [bind_apply, discard_apply, accepted, pure_apply]
  have less : u.remaining < s.remaining := by
    have := (reaches_ok accepted).remaining_le
    have := moves.remaining
    have := List.length_pos_iff.2 (ne_nil_of_nextKind c.begins (by decide))
    rw [remaining_looked] at *
    omega
  have result : bodyLoop ds s = bodyLoop (ds ++ [d]) u :=
    iterate_step (goesOn _ (current_of_container plain moves)) round less
  rw [result, behindDeclaration, bind_apply, discard_apply, accepted]

theorem bodyLoop_reads (c : ContainerText) :
    Reads bodyLoop behindDeclaration (fun ds d => ds ++ [d]) ContainerText.IsNode c := by
  refine reads_of (fun plain moves run => bodyLoop_step c plain moves run) c.declaration_takes ?_
  obtain ⟨d, phrase, good⟩ := c.emptied_isDeclaration
  exact ⟨d, good, declaration_complete phrase⟩

theorem behindDeclaration_settles {ds : List Declaration} {m : ParserState} (plain : m.Plain)
    (next : nextKind m.tokens ≠ .punct .semicolon) :
    ∃ m', m.Moves [] [] m' ∧ behindDeclaration ds m = bodyLoop ds m' := by
  obtain ⟨m', run⟩ := accepts_accept_not next m plain rfl (List.nil_append _).symm
  exact ⟨m', run.moves, by rw [behindDeclaration, bind_apply, discard_apply, run.result]⟩

/-- A body of containers has one declaration for each. -/
theorem bodyLoop_sequence (cs : List ContainerText) (ds : List Declaration) {R : List Token}
    {s : ParserState} (plain : s.Plain) (tokens : s.tokens = cs.flatMap ContainerText.tokens ++ R)
    (closed : untilClosed (nextKind R) = false) :
    ∃ ds' D t, List.Forall₂ ContainerText.IsNode cs ds' ∧ bodyLoop ds s = .ok (ds ++ ds') t ∧
      s.Moves (cs.flatMap ContainerText.tokens) D t := by
  have next : nextKind R ≠ .punct .semicolon := by
    intro eq
    rw [eq] at closed
    exact absurd closed (by decide)
  obtain ⟨ds', D, m, goods, moves, all⟩ := reads_sequence (fun c _ => bodyLoop_reads c)
    behindDeclaration_settles next ds plain tokens
  refine ⟨ds', D, m.looked, goods, ?_, by simpa using moves.trans moves.plainAfter.moves_looked⟩
  have appended : ds'.foldl (fun ds d => ds ++ [d]) ds = ds ++ ds' := by
    clear goods all
    induction ds' generalizing ds with
    | nil => simp
    | cons d ds' ih => rw [List.foldl_cons, ih, List.append_assoc, List.singleton_append]
  rw [all, appended]
  exact iterate_end (by simp [moves.plainAfter.current_kind, moves.rest tokens, closed])

/-! ## The top level -/

/-- With nothing in its block a namespace is an item of the grammar. -/
theorem ContainerText.emptied_isTopLevel (c : ContainerText) (kind : c.header.kind = .namespace_) :
    ∃ item, IsTopLevel c.emptied.tokens item ∧ c.emptied.IsNamespaceNode item := by
  obtain ⟨d, phrase, header, span⟩ := c.emptied_isDeclaration
  have headerKind : ∀ h, d.header? = some h → h.kind = .namespace_ → ∃ ns, d = .namespace_ ns := by
    cases d <;> simp [Declaration.header?]
  obtain ⟨ns, rfl⟩ := headerKind _ header kind
  cases phrase with
  | namespace_ phrase => exact ⟨.namespace_ ns, .namespace_ phrase, ns, rfl, header, span⟩

instance (tree : IdlFile) : Total (topLevelRound tree) := by unfold topLevelRound; infer_instance

instance (tree : IdlFile) : Uniform (fileLoop tree) := by unfold fileLoop; infer_instance

instance (tree : IdlFile) : Total (fileLoop tree) := by unfold fileLoop; infer_instance

theorem IdlFile.add_append (tree tree' : IdlFile) (o : Option TopLevel) :
    (tree.append tree').add o = tree.append (tree'.add o) := by
  cases o with
  | none => rfl
  | some item => cases item <;> simp [append, add]

theorem fileLoop_append (tree : IdlFile) : fileLoop tree = tree.append <$> fileLoop .empty := by
  have commutes : ∀ tree', topLevelRound (tree.append tree') =
      tree.append <$> topLevelRound tree' := by
    intro tree'
    unfold topLevelRound
    rw [map_bind]
    simp only [tree.add_append, map_pure]
  have kept : fileLoop (tree.append .empty) = tree.append <$> fileLoop .empty :=
    iterate_map tree.append commutes .empty
  have same : tree.append .empty = tree := by simp [IdlFile.append, IdlFile.empty]
  rwa [same] at kept

theorem fileLoop_step (c : ContainerText) {tree : IdlFile} {s m : ParserState} {item : TopLevel}
    {D : List Diagnostic} (plain : s.Plain) (moves : s.looked.Moves c.tokens D m)
    (run : topLevel s.looked = .ok item m) : fileLoop tree s = fileLoop (tree.add (some item)) m := by
  have goesOn : ∀ k ∈ .punct .lbracket :: declarationKeywords, (k != .eof) = true := by decide
  have round : topLevelRound tree s.looked = .ok (tree.add (some item)) m := by
    unfold topLevelRound
    rw [bind_apply, recovering_apply, run]
    rfl
  have less : m.remaining < s.remaining := by
    have := moves.remaining
    have := List.length_pos_iff.2 (ne_nil_of_nextKind c.begins (by decide))
    rw [remaining_looked] at *
    omega
  exact iterate_step (goesOn _ (current_of_container plain moves)) round less

theorem fileLoop_reads (c : ContainerText) (kind : c.header.kind = .namespace_) :
    Reads fileLoop fileLoop (fun tree item => tree.add (some item)) ContainerText.IsNamespaceNode
      c := by
  refine reads_of (fun plain moves run => fileLoop_step c plain moves run) (c.topLevel_takes kind) ?_
  obtain ⟨item, phrase, good⟩ := c.emptied_isTopLevel kind
  exact ⟨item, good, topLevel_complete phrase⟩

/-- The nodes that a file adds for namespaces are the namespaces. -/
theorem namespaces_of_nodes {cs : List ContainerText} {items : List TopLevel}
    (h : List.Forall₂ ContainerText.IsNamespaceNode cs items) :
    ∃ nss : List Namespace, List.Forall₂ (fun c ns => c.IsNode (.namespace_ ns)) cs nss ∧
      ∀ tree : IdlFile, items.foldl (fun tree item => tree.add (some item)) tree =
        ⟨tree.imports, tree.namespaces ++ nss⟩ := by
  induction h with
  | nil => exact ⟨[], .nil, fun tree => by simp⟩
  | cons good _ ih =>
    obtain ⟨ns, rfl, good⟩ := good
    obtain ⟨nss, goods, added⟩ := ih
    refine ⟨ns :: nss, .cons good goods, fun tree => ?_⟩
    rw [List.foldl_cons, added]
    simp [IdlFile.add]

/-- A file of namespaces has one for each, and no imports. -/
theorem fileLoop_sequence {cs : List ContainerText} (kinds : ∀ c ∈ cs, c.header.kind = .namespace_)
    {s : ParserState} (plain : s.Plain) (tokens : s.tokens = cs.flatMap ContainerText.tokens) :
    ∃ nss t, List.Forall₂ (fun c ns => c.IsNode (.namespace_ ns)) cs nss ∧
      fileLoop .empty s = .ok ⟨[], nss⟩ t := by
  rw [← List.append_nil (cs.flatMap _)] at tokens
  obtain ⟨items, D, m, nodes, moves, all⟩ := reads_sequence
    (fun c h => fileLoop_reads c (kinds c h)) (fun plain _ => ⟨_, .refl plain, rfl⟩)
    (by decide) .empty plain tokens
  obtain ⟨nss, goods, added⟩ := namespaces_of_nodes nodes
  have ended : ¬ (m.current.kind != .eof) = true := by
    rw [moves.plainAfter.current_kind, moves.rest tokens]
    decide
  refine ⟨nss, m.looked, goods, ?_⟩
  rw [all, added]
  exact iterate_end ended

/-- The same for a list of tokens. -/
theorem parseTokens_sequence {cs : List ContainerText}
    (kinds : ∀ c ∈ cs, c.header.kind = .namespace_)
    (noEof : ∀ t ∈ cs.flatMap ContainerText.tokens, t.kind ≠ .eof) :
    ∃ nss, List.Forall₂ (fun c ns => c.IsNode (.namespace_ ns)) cs nss ∧
      (parseTokens (cs.flatMap ContainerText.tokens)).result.tree = ⟨[], nss⟩ := by
  have all : beforeEof (cs.flatMap ContainerText.tokens) = cs.flatMap ContainerText.tokens :=
    List.takeWhile_eq_self_iff.2 fun t ht => by simpa [Token.isEof] using noEof t ht
  obtain ⟨nss, t, goods, run⟩ := fileLoop_sequence kinds (plain_ofTokens _)
    ((tokens_ofTokens _).trans all)
  have whole : file (initial (.ofTokens (cs.flatMap ContainerText.tokens))) = .ok ⟨[], nss⟩ t := run
  exact ⟨nss, goods, by rw [parseTokens, parseStream, whole]; rfl⟩

/-! ## Both lists -/

/-- Whatever stands in the blocks of containers, as long as its braces are balanced and no end of
    input is in it, the body of a namespace and the top level read one node for each and go on as if
    the blocks had been empty. -/
theorem containers_isolated :
    declarations declaration = bodyLoop [] ∧ file = fileLoop .empty ∧
    (∀ c, Reads bodyLoop behindDeclaration (fun ds d => ds ++ [d]) ContainerText.IsNode c ∧
      Isolates bodyLoop behindDeclaration (fun ds d => ds ++ [d]) (· ++ ·) ContainerText.IsNode c) ∧
    (∀ c, c.header.kind = .namespace_ →
      Reads fileLoop fileLoop (fun tree item => tree.add (some item)) ContainerText.IsNamespaceNode
        c ∧
      Isolates fileLoop fileLoop (fun tree item => tree.add (some item)) IdlFile.append
        ContainerText.IsNamespaceNode c) ∧
    (∀ (cs : List ContainerText) (ds : List Declaration) (R : List Token) (s : ParserState),
      s.Plain → s.tokens = cs.flatMap ContainerText.tokens ++ R →
      untilClosed (nextKind R) = false →
      ∃ ds' D t, List.Forall₂ ContainerText.IsNode cs ds' ∧ bodyLoop ds s = .ok (ds ++ ds') t ∧
        s.Moves (cs.flatMap ContainerText.tokens) D t) ∧
    (∀ cs : List ContainerText, (∀ c ∈ cs, c.header.kind = .namespace_) →
      (∀ t ∈ cs.flatMap ContainerText.tokens, t.kind ≠ .eof) →
      ∃ nss, List.Forall₂ (fun c ns => c.IsNode (.namespace_ ns)) cs nss ∧
        (parseTokens (cs.flatMap ContainerText.tokens)).result.tree = ⟨[], nss⟩) := by
  refine ⟨rfl, rfl, fun c => ⟨bodyLoop_reads c, ?_⟩, fun c kind => ⟨fileLoop_reads c kind, ?_⟩,
    fun cs ds _ _ plain tokens closed => bodyLoop_sequence cs ds plain tokens closed,
    fun _ kinds noEof => parseTokens_sequence kinds noEof⟩
  · exact isolates_of (bodyLoop_reads c) (bodyLoop_reads c.emptied) behindDeclaration_append
  · exact isolates_of (fileLoop_reads c kind) (fileLoop_reads c.emptied kind) fileLoop_append

/-- A namespace `A` with a stray parenthesis and a block of its own in the block. -/
def strayContainer : ContainerText where
  front := [⟨.keyword .namespace_, "namespace", 1, 1, 0⟩, ⟨.identifier, "A", 1, 11, 10⟩]
  opening := ⟨.punct .lbrace, "\x7b", 1, 13, 12⟩
  body := [⟨.punct .rparen, ")", 1, 15, 14⟩, ⟨.punct .lbrace, "\x7b", 1, 17, 16⟩,
    ⟨.punct .rbrace, "\x7d", 1, 19, 18⟩]
  closing := ⟨.punct .rbrace, "\x7d", 1, 21, 20⟩
  header := ⟨.namespace_, ["A"], [], []⟩
  isHeader := @IsHeader.mk [] _ _ _ (.mk .nil) (.namespace_ rfl (.one (.mk rfl)))
  opens := rfl
  balanced := balanced_iff_closes.2 (by simp [Closes, depthAfter])
  closes := rfl

theorem containers_isolated_stray :
    (∃ ns, strayContainer.IsNode (.namespace_ ns) ∧
      (parseTokens strayContainer.tokens).result.tree = ⟨[], [ns]⟩) ∧
    (∃ d D t, strayContainer.IsNode d ∧
      bodyLoop [] (initial (.ofTokens strayContainer.tokens)) = .ok [d] t ∧
      (initial (.ofTokens strayContainer.tokens)).Moves strayContainer.tokens D t) ∧
    Isolates fileLoop fileLoop (fun tree item => tree.add (some item)) IdlFile.append
      ContainerText.IsNamespaceNode strayContainer := by
  have tokens : [strayContainer].flatMap ContainerText.tokens = strayContainer.tokens :=
    List.append_nil _
  obtain ⟨-, -, -, atTop, inBody, inFile⟩ := containers_isolated
  refine ⟨?_, ?_, (atTop strayContainer rfl).2⟩
  · obtain ⟨nss, good, result⟩ := inFile [strayContainer] (by simp [strayContainer]) (by decide)
    obtain ⟨ns, _, node, rest, rfl⟩ := List.forall₂_cons_left_iff.1 good
    obtain rfl := List.forall₂_nil_left_iff.1 rest
    exact ⟨ns, node, tokens ▸ result⟩
  · obtain ⟨ds, D, t, good, result, moves⟩ := inBody [strayContainer] [] []
      (initial (.ofTokens strayContainer.tokens)) (plain_ofTokens _) (by rw [tokens_ofTokens]; rfl)
      rfl
    obtain ⟨d, _, node, rest, rfl⟩ := List.forall₂_cons_left_iff.1 good
    obtain rfl := List.forall₂_nil_left_iff.1 rest
    exact ⟨d, D, t, node, result, tokens ▸ moves⟩

end IdlFront
