import IdlFront.Proofs.Lexical.Lexicon
import IdlFront.Tree

/-! # Outlines of trees

What a tree says about places, without anything else.

* `Outline` — the span of a node and the nodes right below it, in the order of the text.
* `TypeRef.outline`, …, `Namespace.outline` — the outline of every class of nodes.
* `Span.LiesIn` — a span that covers some text of a source, and whose line and column are those of
  its first character.
* `Outline.Placed`, `Outline.InOrder` — nodes that lie in a source, each within the one above it and
  behind the one before it.
* `Outline.Laid` — nodes in order between two offsets.
-/

namespace IdlFront

/-- A node of a tree: its span and the nodes right below it, in the order of the text. -/
inductive Outline where
  | node (span : Span) (children : List Outline)

namespace Outline

def span : Outline → Span
  | node span _ => span

def children : Outline → List Outline
  | node _ children => children

end Outline

/-! ## Outlines of nodes -/

def Literal.outline (l : Literal) : Outline := .node l.span []

mutual

def TypeRef.outline : TypeRef → Outline
  | ⟨_, arguments, _, span⟩ => .node span (TypeRef.outlines arguments)

def TypeRef.outlines : List TypeRef → List Outline
  | [] => []
  | t :: ts => t.outline :: TypeRef.outlines ts

end

theorem TypeRef.outlines_eq (ts : List TypeRef) : TypeRef.outlines ts = ts.map TypeRef.outline := by
  induction ts with
  | nil => rfl
  | cons t ts ih => rw [outlines, ih, List.map_cons]

def Parameter.outline (p : Parameter) : Outline := .node p.span [p.type.outline]

def Attribute.outline (a : Attribute) : Outline := .node a.span (a.arguments.map Literal.outline)

def EnumMember.outline (m : EnumMember) : Outline :=
  .node m.span (m.attributes.map Attribute.outline ++ m.value.toList.map Literal.outline)

def EnumDecl.outline (d : EnumDecl) : Outline :=
  .node d.span (d.attributes.map Attribute.outline ++ d.members.map EnumMember.outline)

def StructField.outline (f : StructField) : Outline := .node f.span [f.type.outline]

def StructDecl.outline (d : StructDecl) : Outline :=
  .node d.span (d.attributes.map Attribute.outline ++ d.fields.map StructField.outline)

def DelegateDecl.outline (d : DelegateDecl) : Outline :=
  .node d.span (d.attributes.map Attribute.outline ++ [d.returnType.outline] ++
    d.parameters.map Parameter.outline)

def InterfaceMember.outline : InterfaceMember → Outline
  | .method m => .node m.span (m.attributes.map Attribute.outline ++ [m.returnType.outline] ++
      m.parameters.map Parameter.outline)
  | .property p => .node p.span (p.attributes.map Attribute.outline ++ [p.type.outline])
  | .event e => .node e.span (e.attributes.map Attribute.outline ++ [e.type.outline])

def InterfaceDecl.outline (d : InterfaceDecl) : Outline :=
  .node d.span (d.attributes.map Attribute.outline ++ d.bases.map TypeRef.outline ++
    d.members.map InterfaceMember.outline)

mutual

def Namespace.outline : Namespace → Outline
  | ⟨_, ds, attributes, span⟩ =>
    .node span (attributes.map Attribute.outline ++ Declaration.outlines ds)

def Declaration.outline : Declaration → Outline
  | .namespace_ ns => ns.outline
  | .enum d => d.outline
  | .struct d => d.outline
  | .delegate d => d.outline
  | .interface d => d.outline

def Declaration.outlines : List Declaration → List Outline
  | [] => []
  | d :: ds => d.outline :: Declaration.outlines ds

end

theorem Declaration.outlines_eq (ds : List Declaration) :
    Declaration.outlines ds = ds.map Declaration.outline := by
  induction ds with
  | nil => rfl
  | cons d ds ih => rw [outlines, ih, List.map_cons]

def Import.outline (i : Import) : Outline := .node i.span []

/-! ## Places in a source -/

/-- The span covers some text of the source, and its line and column are those of the first character
    of this text. -/
structure Span.LiesIn (source : String) (s : Span) : Prop where
  nonneg : 0 ≤ s.start
  nonempty : s.start < s.stop
  within : s.stop ≤ source.length
  line : s.line = (Lexical.placeOf (source.toList.take s.start.toNat)).line
  column : s.column = (Lexical.placeOf (source.toList.take s.start.toNat)).column

namespace Outline

/-- One node ends before another starts. -/
def Before (a b : Outline) : Prop := a.span.stop ≤ b.span.start

/-- A node that lies in the source, and the nodes below it, which lie within its span, each behind
    the one before it. -/
inductive Placed (source : String) : Outline → Prop where
  | node {span : Span} {children : List Outline} :
      span.LiesIn source → (∀ c ∈ children, Placed source c) →
      (∀ c ∈ children, span.contains c.span = true) → children.Pairwise Before →
      Placed source (node span children)

/-- Nodes that lie in the source, each behind the one before it. -/
structure InOrder (source : String) (os : List Outline) : Prop where
  placed : ∀ o ∈ os, o.Placed source
  apart : os.Pairwise Before

/-- Nodes in order between two offsets. -/
structure Laid (source : String) (lo hi : Int) (os : List Outline) : Prop
    extends InOrder source os where
  after : ∀ o ∈ os, lo ≤ o.span.start
  before : ∀ o ∈ os, o.span.stop ≤ hi

section Laid

variable {source : String} {lo lo' mid mid' hi hi' : Int} {os os' : List Outline}

theorem laid_nil : Laid source lo hi [] :=
  ⟨⟨by simp, .nil⟩, by simp, by simp⟩

theorem laid_singleton {o : Outline} (placed : o.Placed source) (after : lo ≤ o.span.start)
    (before : o.span.stop ≤ hi) : Laid source lo hi [o] :=
  ⟨⟨by simpa using placed, List.pairwise_singleton _ _⟩, by simpa using after, by simpa using before⟩

theorem Laid.mono_left (h : Laid source lo hi os) (le : lo' ≤ lo) : Laid source lo' hi os :=
  ⟨h.toInOrder, fun o mem => Int.le_trans le (h.after o mem), h.before⟩

theorem Laid.mono_right (h : Laid source lo hi os) (le : hi ≤ hi') : Laid source lo hi' os :=
  ⟨h.toInOrder, h.after, fun o mem => Int.le_trans (h.before o mem) le⟩

theorem Laid.sublist (h : Laid source lo hi os) (sub : os'.Sublist os) : Laid source lo hi os' :=
  ⟨⟨fun o mem => h.placed o (sub.subset mem), h.apart.sublist sub⟩,
    fun o mem => h.after o (sub.subset mem), fun o mem => h.before o (sub.subset mem)⟩

theorem Laid.append (h : Laid source lo mid os) (h' : Laid source mid' hi os') (first : lo ≤ mid')
    (between : mid ≤ mid') (last : mid ≤ hi) : Laid source lo hi (os ++ os') where
  placed := List.forall_mem_append.2 ⟨h.placed, h'.placed⟩
  apart := List.pairwise_append.2 ⟨h.apart, h'.apart, fun o mem o' mem' =>
    Int.le_trans (h.before o mem) (Int.le_trans between (h'.after o' mem'))⟩
  after := List.forall_mem_append.2
    ⟨h.after, fun o mem => Int.le_trans first (h'.after o mem)⟩
  before := List.forall_mem_append.2
    ⟨fun o mem => Int.le_trans (h.before o mem) last, h'.before⟩

/-- A node over nodes that are laid between its ends. -/
theorem Laid.placed_node {span : Span} (h : Laid source span.start span.stop os)
    (lies : span.LiesIn source) : (Outline.node span os).Placed source :=
  .node lies h.placed (fun o mem => by
    simp only [Span.contains, Bool.and_eq_true, decide_eq_true_eq]
    exact ⟨h.after o mem, h.before o mem⟩) h.apart

end Laid

end Outline

end IdlFront
