import IdlFront.Proofs.Parser.Placement
import IdlFront.Proofs.Parser.Termination
import IdlFront.Proofs.Tree.Traversal

/-! # Walks go forward in the text

Of the nodes that a walk over the tree of a source comes to, the attributes start one behind the other,
and so do all other nodes, however broken the text is.

* `Node.mark`, `marks` — the first characters of nodes.
* `attributes_topLevel` — the attributes of an item are laid in the order of the text.
* `Heads`, `heads_behind` — what is in a declaration is behind its keyword, so it starts later.
* `heads_topLevel` — the same for the nodes that are no attributes.
* `Forward`, `walk_traverses` — what a walk comes to, how often and in which order.
-/

namespace IdlFront

/-! ## First characters -/

/-- The first character of a span. -/
def Span.first (s : Span) : Span := { s with stop := s.start + 1 }

theorem Span.LiesIn.first {source : String} {s : Span} (h : s.LiesIn source) :
    s.first.LiesIn source where
  nonneg := h.nonneg
  nonempty := Int.lt_succ s.start
  within := Int.le_trans (Int.add_one_le_of_lt h.nonempty) h.within
  line := h.line
  column := h.column

namespace Outline

def mark (o : Outline) : Outline := .node o.span.first []

theorem Placed.lies {source : String} {o : Outline} (h : o.Placed source) : o.span.LiesIn source := by
  cases h with
  | node lies => exact lies

theorem Laid.marked {source : String} {lo hi : Int} {os : List Outline} (h : Laid source lo hi os) :
    Laid source lo hi (os.map mark) := by
  have less : ∀ o ∈ os, o.mark.span.stop ≤ o.span.stop := fun o mem =>
    Int.add_one_le_of_lt (h.placed o mem).lies.nonempty
  refine ⟨⟨?_, ?_⟩, ?_, ?_⟩
  · simp only [List.forall_mem_map]
    exact fun o mem => .node (h.placed o mem).lies.first (by simp) (by simp) .nil
  · refine List.pairwise_map.2 (h.apart.imp_of_mem fun mem _ before => ?_)
    exact Int.le_trans (less _ mem) before
  · rw [List.forall_mem_map]
    exact h.after
  · simp only [List.forall_mem_map]
    exact fun o mem => Int.le_trans (less o mem) (h.before o mem)

end Outline

/-- The outline of the first character of a node. -/
def Node.mark (n : Node) : Outline := .node n.span.first []

/-- The first characters of the nodes of some classes. -/
def marks (select : Node → Bool) (ns : List Node) : List Outline := (ns.filter select).map Node.mark

section marks

variable {select : Node → Bool}

@[simp] theorem marks_nil : marks select [] = [] := rfl

@[simp] theorem marks_cons (n : Node) (ns : List Node) :
    marks select (n :: ns) = (if select n then [n.mark] else []) ++ marks select ns := by
  rw [marks, List.filter_cons]
  split <;> rfl

@[simp] theorem marks_append (ns ms : List Node) :
    marks select (ns ++ ms) = marks select ns ++ marks select ms := by
  simp [marks]

theorem marks_flatMap {α : Type} (xs : List α) (nodes : α → List Node) :
    marks select (xs.flatMap nodes) = xs.flatMap fun x => marks select (nodes x) := by
  induction xs with
  | nil => rfl
  | cons x xs ih => simp [ih]

/-- Where first characters stand one behind the other, so do the nodes start. -/
theorem starts_increasing {source : String} {ns : List Node}
    (h : Outline.InOrder source (marks select ns)) :
    ((ns.filter select).map fun n => n.span.start).Pairwise (· < ·) := by
  refine List.pairwise_map.2 ((List.pairwise_map.1 h.apart).imp fun before => ?_)
  exact Int.lt_of_add_one_le before

end marks

/-- Nodes that are not attributes. -/
@[simp] def Node.isHead (n : Node) : Bool := !n.isAttribute

@[simp] theorem marks_attributes (attributes : List Attribute) :
    marks Node.isAttribute (attributes.map Node.attribute) =
      (attributes.map Attribute.outline).map Outline.mark := by
  have all : (attributes.map Node.attribute).filter Node.isAttribute =
      attributes.map Node.attribute := by
    simp
  rw [marks, all, List.map_map, List.map_map]
  rfl

@[simp] theorem marks_isHead_attributes (attributes : List Attribute) :
    marks Node.isHead (attributes.map Node.attribute) = [] := by
  simp [marks]

/-- The nodes of an item at the top level. An import is none. -/
def TopLevel.nodes : TopLevel → List Node
  | .import_ _ => []
  | .namespace_ ns => ns.nodes

/-- A node that starts with a token of the source has its first character there. -/
theorem Token.StandsIn.first {source : String} {start : Token} (h : start.StandsIn source) (stop : Int) :
    (start.spanUntil stop).first.LiesIn source :=
  (h.span (Int.le_refl _) h.covers.2).first

namespace Parser

open ParserState Outline

variable {α β : Type} {source : String} {p : Parser α}

/-! ## Attributes -/

theorem lays_attributeMarks : Lays source [] attributeLists fun attributes =>
    marks Node.isAttribute (attributes.map Node.attribute) := by
  intro lo s t attributes stands le _ run
  simpa using (lays_attributeLists stands le laid_nil run).marked

/-- One more item of a list, whose nodes are laid behind those of the others. -/
theorem lays_added {select : Node → Bool} {nodes : α → List Node} {as : List α} {o : Option α} :
    Lays source (marks select (as.flatMap nodes) ++ o.toList.flatMap fun a => marks select (nodes a))
      (pure (as ++ o.toList)) fun as => marks select (as.flatMap nodes) :=
  lays_pure (by simp [marks_flatMap])

theorem attributes_enumMember :
    Lays source [] enumMember fun m => marks Node.isAttribute m.nodes := by
  refine .skip fun _ => lays_attributeMarks.bind fun attributes => .skip fun _ => .skip fun found => ?_
  split
  · exact .skip fun _ => .skip fun _ => lays_pure (by simp [EnumMember.nodes])
  · exact .skip fun _ => .skip fun _ => lays_pure (by simp [EnumMember.nodes])

/-- The members of an enumeration, each with its nodes. -/
theorem lays_enumMembers {select : Node → Bool}
    (h : Lays source [] enumMember fun m => marks select m.nodes) :
    Lays source [] enumMembers fun ms => marks select (ms.flatMap EnumMember.nodes) :=
  Lays.iterate (fun ms : List EnumMember => marks select (ms.flatMap EnumMember.nodes))
    (fun _ => h.recovered.bind fun _ => .skip fun _ => lays_added) []

theorem attributes_enumDecl (start : Token) (attributes : List Attribute) :
    Lays source (marks Node.isAttribute (attributes.map Node.attribute)) (enumDecl start attributes)
      fun d => marks Node.isAttribute (Declaration.enum d).nodes :=
  .skip fun _ => .skip fun _ => .skip fun _ => (lays_enumMembers attributes_enumMember).frame.bind
    fun _ => .skip fun _ => .skip fun _ => lays_pure (by simp [Declaration.nodes])

theorem attributes_structDecl (start : Token) (attributes : List Attribute) :
    Lays source (marks Node.isAttribute (attributes.map Node.attribute)) (structDecl start attributes)
      fun d => marks Node.isAttribute (Declaration.struct d).nodes :=
  .skip fun _ => .skip fun _ => .skip fun _ => .skip fun _ => .skip fun _ => .skip fun _ =>
    lays_pure (by simp [Declaration.nodes])

theorem attributes_delegateDecl (start : Token) (attributes : List Attribute) :
    Lays source (marks Node.isAttribute (attributes.map Node.attribute)) (delegateDecl start attributes)
      fun d => marks Node.isAttribute (Declaration.delegate d).nodes :=
  .skip fun _ => .skip fun _ => .skip fun _ => .skip fun _ => .skip fun _ => .skip fun _ =>
    .skip fun _ => .skip fun _ => lays_pure (by simp [Declaration.nodes])

set_option synthInstance.maxSize 100000 in
theorem attributes_interfaceMember :
    Lays source [] interfaceMember fun m => marks Node.isAttribute m.nodes := by
  refine .skip fun _ => lays_attributeMarks.bind fun attributes => .skip fun event => ?_
  split
  · exact .skip fun _ => .skip fun _ => .skip fun _ => .skip fun _ => lays_pure (List.Sublist.refl _)
  · refine .skip fun _ => .skip fun _ => .skip fun method => ?_
    split
    · exact .skip fun _ => .skip fun _ => .skip fun _ => .skip fun _ =>
        lays_pure (List.Sublist.refl _)
    · refine .skip fun block => ?_
      split
      · exact .skip fun _ => .skip fun _ => .skip fun _ => lays_pure (List.Sublist.refl _)
      · exact .skip fun _ => .skip fun _ => lays_pure (List.Sublist.refl _)

theorem attributes_interfaceDecl (start : Token) (attributes : List Attribute) :
    Lays source (marks Node.isAttribute (attributes.map Node.attribute)) (interfaceDecl start attributes)
      fun d => marks Node.isAttribute (Declaration.interface d).nodes := by
  have members : Lays source [] interfaceMembers fun ms =>
      marks Node.isAttribute (ms.flatMap InterfaceMember.nodes) :=
    Lays.iterate (fun ms => marks Node.isAttribute (ms.flatMap InterfaceMember.nodes))
      (fun _ => attributes_interfaceMember.recovered.bind fun _ => lays_added) []
  exact .skip fun _ => .skip fun _ => .skip fun _ => .skip fun _ => members.frame.bind fun _ =>
    .skip fun _ => .skip fun _ => lays_pure (by simp [Declaration.nodes])

/-- The declarations in a namespace, each with its nodes. -/
theorem lays_declarations {select : Node → Bool} {inner : Parser Declaration} [Uniform inner]
    (h : Lays source [] inner fun d => marks select d.nodes) :
    Lays source [] (declarations inner) fun ds => marks select (ds.flatMap Declaration.nodes) := by
  refine @Lays.iterate _ _ _ (declarationRound inner) _
    (fun ds => marks select (ds.flatMap Declaration.nodes)) (fun ds => h.recovered.bind fun o => ?_) []
  cases o with
  | none => exact lays_pure (by simp)
  | some d => exact .skip fun _ => lays_added (o := some d)

theorem attributes_namespacePhrase {inner : Parser Declaration} [Uniform inner]
    (h : Lays source [] inner fun d => marks Node.isAttribute d.nodes) (start : Token)
    (attributes : List Attribute) : Lays source (marks Node.isAttribute (attributes.map Node.attribute))
      (namespacePhrase inner start attributes) fun ns => marks Node.isAttribute ns.nodes :=
  .skip fun _ => .skip fun _ => .skip fun _ => (lays_declarations h).frame.bind fun _ => .skip fun _ =>
    .skip fun _ => lays_pure (by simp [Namespace.nodes_eq])

theorem attributes_declaration :
    Lays source [] declaration fun d => marks Node.isAttribute d.nodes := by
  refine .nested (fun _ _ => inferInstance) lays_unexpected fun inner _ h => ?_
  refine .skip fun start => lays_attributeMarks.bind fun attributes => .skip fun t => ?_
  split
  · exact .map (attributes_namespacePhrase h start attributes)
  · exact .map (attributes_enumDecl start attributes)
  · exact .map (attributes_structDecl start attributes)
  · exact .map (attributes_delegateDecl start attributes)
  · exact .map (attributes_interfaceDecl start attributes)
  · exact lays_unexpected

theorem attributes_topLevel :
    Lays source [] topLevel fun item => marks Node.isAttribute item.nodes := by
  refine .skip fun start => ?_
  split
  · exact .skip fun _ => lays_pure (List.Sublist.refl _)
  · refine lays_attributeMarks.bind fun attributes => .skip fun found => ?_
    split
    · exact (attributes_namespacePhrase attributes_declaration start attributes).bind fun _ =>
        lays_pure (List.Sublist.refl _)
    · exact lays_unexpected

/-! ## Other nodes -/

/-- In front of the keyword of a declaration from `start`, the parser gives nodes that are no
    attributes, one behind the other from `start` on. -/
def Heads (source : String) (start : Token) (p : Parser α) (nodes : α → List Node) : Prop :=
  ∀ ⦃s t : ParserState⦄ ⦃a : α⦄, s.Stands source → start.StandsIn source →
    start.offset ≤ s.current.offset → p s = .ok a t →
      Laid source start.offset t.prevStop (marks Node.isHead (nodes a))

section Heads

variable {start : Token} {nodes : α → List Node}

theorem Heads.skip [Uniform p] {f : α → Parser β} {nodes : β → List Node}
    (next : ∀ a, Heads source start (f a) nodes) : Heads source start (p >>= f) nodes := by
  intro s t b stands starts le run
  obtain ⟨a, u, run, run'⟩ := bind_ok run
  have onward := stands.onward (reaches_ok run)
  exact next a onward.stands starts (Int.le_trans le onward.offset) run'

theorem Heads.map {f : α → β} {nodes : β → List Node}
    (h : Heads source start p fun a => nodes (f a)) : Heads source start (f <$> p) nodes := by
  intro s t b stands starts le run
  obtain ⟨a, first, rfl⟩ := map_ok run
  exact h stands starts le first

theorem heads_unexpected {kinds : List TokenKind} : Heads source start (unexpected kinds) nodes := by
  intro s t a _ _ _ run
  cases run

/-- A node that starts with the next token and consumes it. -/
theorem Heads.lays {f : Token → Parser α} [∀ start, Uniform (f start)]
    (consumes : Consumes (current >>= f)) (h : ∀ start, Heads source start (f start) nodes) :
    Lays source [] (current >>= f) fun a => marks Node.isHead (nodes a) := by
  intro lo s t a stands le _ run
  have less := consumes.lowers stands.endIsEof run
  obtain ⟨start, u, look, run⟩ := bind_ok run
  cases look
  have looked := stands.onward (.single (.look s))
  exact (h s.current looked.stands (stands.current (by omega)) looked.offset run).mono_left le

/-- Behind a keyword everything is behind the first character of the declaration. -/
theorem heads_behind {kind : TokenKind} (inside : kind ≠ .eof) [Uniform p] (head : α → Node)
    (inner : α → List Outline) (eq : ∀ a, marks Node.isHead (nodes a) = (head a).mark :: inner a)
    (starts : Gives (fun a => ∃ stop, (head a).span = start.spanUntil stop) p)
    (h : Lays source [] p inner) :
    Heads source start (discard (expect kind) >>= fun _ => p) nodes := by
  intro s t a stands isToken le run
  obtain ⟨_, u, keyword, run⟩ := bind_ok run
  -- The first character is over where the keyword ends, and the rest is laid behind that.
  have first := stands.onward (reaches_ok keyword)
  have onward := first.stands.onward (reaches_ok run)
  have less := (consumes_discardExpect inside).lowers stands.endIsEof keyword
  have taken := first.stop_le less
  have nonempty := (stands.current (by omega)).covers.1
  have below := first.stands.prevStop_le_current
  obtain ⟨stop, span⟩ := starts run
  rw [eq, Node.mark, span]
  have mark : Laid source start.offset (start.offset + 1) [.node (start.spanUntil stop).first []] :=
    laid_singleton (.node (isToken.first stop) (by simp) (by simp) .nil) (Int.le_refl _) (Int.le_refl _)
  exact mark.append (h first.stands (Int.le_refl _) laid_nil run) (by omega) (by omega)
    (Int.le_trans (by omega) onward.prevStop)

/-- The last step of a declaration is its span. -/
theorem gives_spanned (start : Token) {f : Span → α} {head : α → Node}
    (eq : ∀ s, (head (f s)).span = s) : Gives (fun a => ∃ stop, (head a).span = start.spanUntil stop)
      (do return f (← spanFrom start)) := by
  rintro s t a ⟨⟩
  exact ⟨_, eq _⟩

end Heads

theorem heads_enumMember : Lays source [] enumMember fun m => marks Node.isHead m.nodes := by
  intro lo s t m stands le _ run
  have own : marks Node.isHead m.nodes = [m.outline].map mark := by
    simp only [EnumMember.nodes, marks_append, marks_isHead_attributes]
    rfl
  simpa only [own] using (lays_enumMember stands le laid_nil run).marked

theorem heads_enumDecl (start : Token) (attributes : List Attribute) :
    Heads source start (enumDecl start attributes) fun d => (Declaration.enum d).nodes := by
  refine heads_behind (by decide) .enum (fun d => marks Node.isHead (d.members.flatMap EnumMember.nodes))
    (fun d => by simp [Declaration.nodes]) ?starts ?inner
  case starts =>
    exact .behind fun _ => .behind fun _ => .behind fun _ => .behind fun _ =>
      gives_spanned start fun _ => rfl
  case inner =>
    exact .skip fun _ => .skip fun _ => (lays_enumMembers heads_enumMember).bind fun _ =>
      .skip fun _ => .skip fun _ => lays_pure (List.Sublist.refl _)

theorem heads_structDecl (start : Token) (attributes : List Attribute) :
    Heads source start (structDecl start attributes) fun d => (Declaration.struct d).nodes := by
  refine heads_behind (by decide) .struct (fun _ => []) (fun d => by simp [Declaration.nodes]) ?_ lays_skip
  exact .behind fun _ => .behind fun _ => .behind fun _ => .behind fun _ =>
    gives_spanned start fun _ => rfl

set_option synthInstance.maxSize 100000 in
theorem heads_delegateDecl (start : Token) (attributes : List Attribute) :
    Heads source start (delegateDecl start attributes) fun d => (Declaration.delegate d).nodes := by
  refine heads_behind (by decide) .delegate (fun _ => []) (fun d => by simp [Declaration.nodes]) ?_
    lays_skip
  exact .behind fun _ => .behind fun _ => .behind fun _ => .behind fun _ => .behind fun _ =>
    .behind fun _ => gives_spanned start fun _ => rfl

theorem heads_interfaceDecl (start : Token) (attributes : List Attribute) :
    Heads source start (interfaceDecl start attributes) fun d => (Declaration.interface d).nodes := by
  have own : ∀ d : InterfaceDecl, marks Node.isHead (Declaration.interface d).nodes =
      [(Node.interface d).mark] := by
    intro d
    simp [Declaration.nodes, marks_flatMap, InterfaceMember.nodes]
  refine heads_behind (by decide) .interface (fun _ => []) own ?_ lays_skip
  exact .behind fun _ => .behind fun _ => .behind fun _ => .behind fun _ => .behind fun _ =>
    gives_spanned start fun _ => rfl

theorem heads_namespacePhrase {inner : Parser Declaration} [Uniform inner]
    (h : Lays source [] inner fun d => marks Node.isHead d.nodes) (start : Token)
    (attributes : List Attribute) :
    Heads source start (namespacePhrase inner start attributes) Namespace.nodes := by
  refine heads_behind (by decide) .namespace_
    (fun ns => marks Node.isHead (ns.declarations.flatMap Declaration.nodes))
    (fun ns => by simp [Namespace.nodes_eq]) ?starts ?inner
  case starts =>
    exact .behind fun _ => .behind fun _ => .behind fun _ => .behind fun _ =>
      gives_spanned start fun _ => rfl
  case inner =>
    exact .skip fun _ => .skip fun _ => (lays_declarations h).bind fun _ => .skip fun _ =>
      .skip fun _ => lays_pure (List.Sublist.refl _)

theorem heads_declaration : Lays source [] declaration fun d => marks Node.isHead d.nodes := by
  refine .nested (fun _ _ => inferInstance) lays_unexpected fun inner _ h => ?_
  refine Heads.lays (inferInstanceAs (Consumes (declarationPhrase inner))) fun start =>
    .skip fun attributes => .skip fun t => ?_
  split
  · exact .map (heads_namespacePhrase h start attributes)
  · exact .map (heads_enumDecl start attributes)
  · exact .map (heads_structDecl start attributes)
  · exact .map (heads_delegateDecl start attributes)
  · exact .map (heads_interfaceDecl start attributes)
  · exact heads_unexpected

theorem heads_topLevel : Lays source [] topLevel fun item => marks Node.isHead item.nodes := by
  refine Heads.lays (inferInstanceAs (Consumes topLevel)) fun start => ?_
  split
  · refine .skip fun i => ?_
    rintro s t _ - - - ⟨⟩
    exact laid_nil
  · refine .skip fun attributes => .skip fun found => ?_
    split
    · rw [bind_pure_comp]
      exact .map (heads_namespacePhrase heads_declaration start attributes)
    · exact heads_unexpected

/-! ## Files -/

theorem lays_fileMarks {select : Node → Bool}
    (h : Lays source [] topLevel fun item => marks select item.nodes) :
    Lays source [] file fun tree => marks select tree.nodes := by
  refine Lays.iterate (fun tree : IdlFile => marks select tree.nodes) (fun tree => ?_) .empty
  refine h.recovered.bind fun o => lays_pure ?_
  obtain - | i | ns := o <;> simp [IdlFile.add, IdlFile.nodes, TopLevel.nodes]

end Parser

open IdlFront.Parser IdlFront.ParserState IdlFront.Outline

/-- The starts of attributes increase, and so do those of all other nodes. -/
structure Forward (visits : List Node) : Prop where
  attributes : ((visits.filter Node.isAttribute).map fun n => n.span.start).Pairwise (· < ·)
  heads : ((visits.filter Node.isHead).map fun n => n.span.start).Pairwise (· < ·)

theorem Forward.filter {visits : List Node} (h : Forward visits) (classes : Node → Bool) :
    Forward (visits.filter classes) where
  attributes := by
    rw [List.filter_comm]
    exact h.attributes.sublist (List.filter_sublist.map _)
  heads := by
    rw [List.filter_comm]
    exact h.heads.sublist (List.filter_sublist.map _)

/-- In the tree of any source text, what is laid in order is in order. -/
theorem parse_marks {source : String} {select : Node → Bool}
    (h : Lays source [] topLevel fun item => marks select item.nodes) :
    Outline.InOrder source (marks select (parse source).tree.nodes) := by
  obtain ⟨t, run, -⟩ := file_source source
  exact (lays_fileMarks h (stands_initial source) (Int.le_refl _) laid_nil run).toInOrder

/-- The tree of any source text is walked forward. -/
theorem parse_forward (source : String) : Forward (parse source).tree.nodes :=
  ⟨starts_increasing (parse_marks attributes_topLevel), starts_increasing (parse_marks heads_topLevel)⟩

/-- A walk over any tree, for any of the classes of nodes, does its actions at the nodes of these
    classes in preorder, and comes to each of them once; so the index of a tree has the texts of its
    nodes and no others. Over the tree of any source text it comes to the attributes in the order in
    which they start, no two at one place, and so it does to the other nodes. -/
theorem walk_traverses :
    (∀ tree : IdlFile,
      (∀ {σ : Type} (v : Visitor σ) (s : σ),
        walk v tree s = (tree.nodes.filter v.handles).foldl v.act s) ∧
      (∀ classes : NodeClass → Bool,
        walk (.recorder classes) tree [] = tree.nodes.filter (fun n => classes n.class_) ∧
        Lists (walk (.recorder classes) tree [])
          fun p => (tree.node? p).filter fun n => classes n.class_) ∧
      (collectNames tree).Gathers tree.nodes ∧ (collectNames tree).Increasing) ∧
    ∀ (source : String) (classes : NodeClass → Bool),
      Forward (walk (.recorder classes) (parse source).tree []) := by
  refine ⟨fun tree => ⟨fun v s => walk_eq v tree s, fun classes => ?_, collectNames_gathers tree⟩,
    fun source classes => ?_⟩
  · rw [walk_recorder]
    exact ⟨rfl, tree.lists_nodes.filter _⟩
  · rw [walk_recorder]
    exact (parse_forward source).filter _

end IdlFront
