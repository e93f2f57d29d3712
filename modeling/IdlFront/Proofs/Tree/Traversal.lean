import Mathlib.Data.List.Nodup
import Mathlib.Data.String.Basic
import IdlFront.Tree.Names

/-! # Walks visit every node once

* `Node` — a node of a class that visitors can have an action for.
* `Namespace.nodes`, `Declaration.nodes`, `IdlFile.nodes` — the nodes of a tree in preorder:
  attributes, then what they are attached to, then what is in it.
* `walk_eq` — a walk does the actions of its visitor at these nodes, in this order.
* `Visitor.recorder`, `walk_recorder` — the nodes that a visitor comes to.
* `NameIndex.Gathers`, `collectNames_gathers` — the index of a tree has what its nodes say.
* `IdlFile.node?` — the node at an address of a tree.
* `Lists`, `IdlFile.lists_nodes` — the preorder has the node at every address once.
-/

namespace IdlFront

/-! ## Nodes -/

/-- The classes of nodes that a visitor can have an action for. -/
inductive NodeClass where
  | namespace_ | enum | enumMember | delegate | struct | interface | attribute
  deriving DecidableEq, Repr

inductive Node where
  | namespace_ (ns : Namespace)
  | enum (d : EnumDecl)
  | enumMember (m : EnumMember)
  | delegate (d : DelegateDecl)
  | struct (d : StructDecl)
  | interface (d : InterfaceDecl)
  | attribute (a : Attribute)

namespace Node

def class_ : Node → NodeClass
  | .namespace_ _ => .namespace_
  | .enum _ => .enum
  | .enumMember _ => .enumMember
  | .delegate _ => .delegate
  | .struct _ => .struct
  | .interface _ => .interface
  | .attribute _ => .attribute

def span : Node → Span
  | .namespace_ ns => ns.span
  | .enum d => d.span
  | .enumMember m => m.span
  | .delegate d => d.span
  | .struct d => d.span
  | .interface d => d.span
  | .attribute a => a.span

@[simp] def isAttribute : Node → Bool
  | .attribute _ => true
  | _ => false

end Node

/-! ## Preorder -/

def EnumMember.nodes (m : EnumMember) : List Node :=
  m.attributes.map Node.attribute ++ [.enumMember m]

/-- A member of an interface is no node of its own. -/
def InterfaceMember.nodes (m : InterfaceMember) : List Node := m.attributes.map Node.attribute

mutual

def Namespace.nodes : Namespace → List Node
  | ⟨name, ds, attributes, span⟩ => attributes.map Node.attribute ++
      .namespace_ ⟨name, ds, attributes, span⟩ :: Declaration.nodesOf ds

def Declaration.nodes : Declaration → List Node
  | .namespace_ ns => ns.nodes
  | .enum d =>
    d.attributes.map Node.attribute ++ .enum d :: d.members.flatMap EnumMember.nodes
  | .struct d => d.attributes.map Node.attribute ++ [.struct d]
  | .delegate d => d.attributes.map Node.attribute ++ [.delegate d]
  | .interface d =>
    d.attributes.map Node.attribute ++ .interface d :: d.members.flatMap InterfaceMember.nodes

def Declaration.nodesOf : List Declaration → List Node
  | [] => []
  | d :: ds => d.nodes ++ Declaration.nodesOf ds

end

def IdlFile.nodes (tree : IdlFile) : List Node := tree.namespaces.flatMap Namespace.nodes

theorem Declaration.nodesOf_eq (ds : List Declaration) :
    Declaration.nodesOf ds = ds.flatMap Declaration.nodes := by
  induction ds with
  | nil => rfl
  | cons d ds ih => rw [nodesOf, ih, List.flatMap_cons]

theorem Namespace.nodes_eq (ns : Namespace) : ns.nodes =
    ns.attributes.map Node.attribute ++ .namespace_ ns :: ns.declarations.flatMap Declaration.nodes := by
  obtain ⟨name, ds, attributes, span⟩ := ns
  rw [nodes, Declaration.nodesOf_eq]

/-! ## Actions at nodes -/

section Visitor

variable {σ : Type} (v : Visitor σ)

namespace Visitor

/-- The action of the visitor at a node, if it has one for its class. -/
def action : Node → Option (σ → σ)
  | .namespace_ ns => v.onNamespace.map fun f => f ns
  | .enum d => v.onEnum.map fun f => f d
  | .enumMember m => v.onEnumMember.map fun f => f m
  | .delegate d => v.onDelegate.map fun f => f d
  | .struct d => v.onStruct.map fun f => f d
  | .interface d => v.onInterface.map fun f => f d
  | .attribute a => v.onAttribute.map fun f => f a

def handles (n : Node) : Bool := (v.action n).isSome

/-- The state after the action at a node. -/
def act (s : σ) (n : Node) : σ := (v.action n).elim s fun f => f s

theorem act_of_not_handles {n : Node} (h : ¬ v.handles n = true) (s : σ) : v.act s n = s := by
  rw [handles, Option.not_isSome_iff_eq_none] at h
  rw [act, h, Option.elim_none]

end Visitor

theorem visit_map {α : Type} (action : Option (α → σ → σ)) (node : α) (s : σ) :
    visit action node s = (action.map fun f => f node).elim s fun f => f s := by
  cases action <;> rfl

theorem visitAll_eq (attributes : List Attribute) (s : σ) :
    visitAll v.onAttribute attributes s = (attributes.map Node.attribute).foldl v.act s := by
  rw [visitAll, List.foldl_map]
  exact congrArg (fun f => attributes.foldl f s) (funext₂ fun s a => visit_map _ a s)

theorem EnumMember.walk_eq (m : EnumMember) (s : σ) : m.walk v s = m.nodes.foldl v.act s := by
  rw [EnumMember.walk, nodes, List.foldl_append, visitAll_eq, visit_map]
  rfl

theorem EnumDecl.walk_eq (d : EnumDecl) (s : σ) :
    d.walk v s = (.enum d :: d.members.flatMap EnumMember.nodes).foldl v.act s := by
  rw [EnumDecl.walk, List.foldl_cons, List.foldl_flatMap, visit_map]
  exact congrArg (fun f => d.members.foldl f _) (funext₂ fun s m => m.walk_eq v s)

theorem InterfaceDecl.walk_eq (d : InterfaceDecl) (s : σ) :
    d.walk v s = (.interface d :: d.members.flatMap InterfaceMember.nodes).foldl v.act s := by
  rw [InterfaceDecl.walk, List.foldl_cons, List.foldl_flatMap, visit_map]
  exact congrArg (fun f => d.members.foldl f _) (funext₂ fun s m => visitAll_eq v m.attributes s)

mutual

theorem Namespace.walk_eq (ns : Namespace) (s : σ) : ns.walk v s = ns.nodes.foldl v.act s := by
  obtain ⟨name, ds, attributes, span⟩ := ns
  rw [Namespace.walk, Namespace.nodes, List.foldl_append, List.foldl_cons, Declaration.walkAll_eq ds,
    visitAll_eq, visit_map]
  rfl

theorem Declaration.walk_eq (d : Declaration) (s : σ) : d.walk v s = d.nodes.foldl v.act s := by
  cases d with
  | namespace_ ns => exact Namespace.walk_eq ns s
  | enum d =>
    rw [Declaration.walk, Declaration.nodes, List.foldl_append, ← visitAll_eq, d.walk_eq]
  | struct d =>
    rw [Declaration.walk, Declaration.nodes, List.foldl_append, ← visitAll_eq, visit_map]
    rfl
  | delegate d =>
    rw [Declaration.walk, Declaration.nodes, List.foldl_append, ← visitAll_eq, visit_map]
    rfl
  | interface d =>
    rw [Declaration.walk, Declaration.nodes, List.foldl_append, ← visitAll_eq, d.walk_eq]

theorem Declaration.walkAll_eq (ds : List Declaration) (s : σ) :
    Declaration.walkAll v ds s = (Declaration.nodesOf ds).foldl v.act s := by
  cases ds with
  | nil => rfl
  | cons d ds =>
    rw [Declaration.walkAll, Declaration.nodesOf, List.foldl_append, Declaration.walk_eq d,
      Declaration.walkAll_eq ds]

end

/-- A walk does the actions of its visitor at the nodes in preorder. -/
theorem walk_eq_foldl (tree : IdlFile) (s : σ) : walk v tree s = tree.nodes.foldl v.act s := by
  rw [walk, IdlFile.nodes, List.foldl_flatMap]
  exact congrArg (fun f => tree.namespaces.foldl f s) (funext₂ fun s ns => ns.walk_eq v s)

/-- A class without an action does not matter for the others. -/
theorem walk_eq (tree : IdlFile) (s : σ) :
    walk v tree s = (tree.nodes.filter v.handles).foldl v.act s := by
  rw [walk_eq_foldl, List.foldl_filter]
  refine congrArg (fun f => tree.nodes.foldl f s) (funext₂ fun s n => ?_)
  split
  · rfl
  · next h => exact v.act_of_not_handles h s

end Visitor

/-! ## Recording -/

/-- The visitor that has an action for some classes, and records the nodes it comes to. -/
def Visitor.recorder (classes : NodeClass → Bool) : Visitor (List Node) where
  onNamespace := if classes .namespace_ then some fun ns seen => seen ++ [.namespace_ ns] else none
  onEnum := if classes .enum then some fun d seen => seen ++ [.enum d] else none
  onEnumMember := if classes .enumMember then some fun m seen => seen ++ [.enumMember m] else none
  onDelegate := if classes .delegate then some fun d seen => seen ++ [.delegate d] else none
  onStruct := if classes .struct then some fun d seen => seen ++ [.struct d] else none
  onInterface := if classes .interface then some fun d seen => seen ++ [.interface d] else none
  onAttribute := if classes .attribute then some fun a seen => seen ++ [.attribute a] else none

theorem Visitor.act_recorder (classes : NodeClass → Bool) (seen : List Node) (n : Node) :
    (recorder classes).act seen n = seen ++ if classes n.class_ then [n] else [] := by
  cases n <;> simp only [act, action, recorder, Node.class_] <;> split <;> simp [*]

/-- The nodes that a visitor comes to are those of its classes, in preorder. -/
theorem walk_recorder (classes : NodeClass → Bool) (tree : IdlFile) :
    walk (.recorder classes) tree [] = tree.nodes.filter fun n => classes n.class_ := by
  rw [walk_eq_foldl]
  suffices all : ∀ (ns seen : List Node), ns.foldl (Visitor.recorder classes).act seen =
      seen ++ ns.filter fun n => classes n.class_ from all _ []
  intro ns
  induction ns with
  | nil => simp
  | cons n ns ih =>
    intro seen
    rw [List.foldl_cons, ih, Visitor.act_recorder, List.filter_cons, List.append_assoc]
    split <;> rfl

/-! ## Sets of names -/

namespace NameSet

variable {x y : String} {set : NameSet}

theorem mem_insert : y ∈ set.insert x ↔ y = x ∨ y ∈ set := by
  induction set with
  | nil => simp [insert]
  | cons z zs ih =>
    rw [insert]
    split
    · simp
    · split
      · next eq => simp [eq]
      · simp only [List.mem_cons, ih]
        exact or_left_comm

theorem increasing_insert (h : set.Pairwise (· < ·)) : (set.insert x).Pairwise (· < ·) := by
  induction h with
  | nil => exact List.pairwise_singleton _ _
  | @cons z zs behind increasing ih =>
    rw [insert]
    split
    · next less =>
      exact .cons (List.forall_mem_cons.2 ⟨less, fun w mem => lt_trans less (behind w mem)⟩)
        (.cons behind increasing)
    · next notLess =>
      split
      · exact .cons behind increasing
      · next other =>
        refine .cons (fun w mem => ?_) ih
        obtain rfl | mem := mem_insert.1 mem
        · exact lt_of_le_of_ne (not_lt.1 notLess) (Ne.symm other)
        · exact behind w mem

theorem mem_insertAll {xs : List String} : y ∈ set.insertAll xs ↔ y ∈ xs ∨ y ∈ set := by
  rw [insertAll]
  induction xs generalizing set with
  | nil => simp
  | cons x xs ih => rw [List.foldl_cons, ih, mem_insert, List.mem_cons, or_assoc, or_left_comm]

theorem increasing_insertAll {xs : List String} (h : set.Pairwise (· < ·)) :
    (set.insertAll xs).Pairwise (· < ·) := by
  rw [insertAll]
  induction xs generalizing set with
  | nil => exact h
  | cons x xs ih => exact ih (increasing_insert h)

end NameSet

/-! ## The index of a tree -/

/-- The texts that a node adds to the three sets of an index. -/
def Node.texts : Node → List String × List String × List String
  | .namespace_ ns => ([ns.qualifiedName], [], [])
  | .enum d => ([], [d.name], [])
  | .enumMember m => ([], m.name :: m.value.toList.map Literal.text, [])
  | .attribute a => ([], [], a.arguments.map Literal.text)
  | _ => ([], [], [])

namespace NameIndex

/-- The sets of an index, each without repetition and in order. -/
structure Increasing (index : NameIndex) : Prop where
  namespaces : index.namespaces.Pairwise (· < ·)
  enums : index.enums.Pairwise (· < ·)
  expressions : index.expressions.Pairwise (· < ·)

/-- The index has the texts of these nodes, and of no others. -/
structure Gathers (index : NameIndex) (ns : List Node) : Prop where
  namespaces : ∀ x, x ∈ index.namespaces ↔ ∃ n ∈ ns, x ∈ n.texts.1
  enums : ∀ x, x ∈ index.enums ↔ ∃ n ∈ ns, x ∈ n.texts.2.1
  expressions : ∀ x, x ∈ index.expressions ↔ ∃ n ∈ ns, x ∈ n.texts.2.2

theorem act_visitor (index : NameIndex) (n : Node) : visitor.act index n =
    ⟨index.namespaces.insertAll n.texts.1, index.enums.insertAll n.texts.2.1,
      index.expressions.insertAll n.texts.2.2⟩ := by
  cases n <;> rfl

variable {index : NameIndex} {ns : List Node}

theorem Increasing.act (h : index.Increasing) (n : Node) : (visitor.act index n).Increasing := by
  rw [act_visitor]
  exact ⟨NameSet.increasing_insertAll h.namespaces, NameSet.increasing_insertAll h.enums,
    NameSet.increasing_insertAll h.expressions⟩

theorem Gathers.act (h : index.Gathers ns) (n : Node) : (visitor.act index n).Gathers (ns ++ [n]) := by
  rw [act_visitor]
  constructor <;> intro x <;> rw [NameSet.mem_insertAll]
  · rw [h.namespaces, or_comm]
    simp [or_and_right, exists_or]
  · rw [h.enums, or_comm]
    simp [or_and_right, exists_or]
  · rw [h.expressions, or_comm]
    simp [or_and_right, exists_or]

theorem foldl_visitor (more : List Node) (h : index.Gathers ns) (increasing : index.Increasing) :
    (more.foldl visitor.act index).Gathers (ns ++ more) ∧
      (more.foldl visitor.act index).Increasing := by
  induction more generalizing index ns with
  | nil =>
    rw [List.append_nil]
    exact ⟨h, increasing⟩
  | cons n more ih =>
    have next := ih (h.act n) (increasing.act n)
    rwa [List.append_assoc, List.singleton_append] at next

end NameIndex

/-- The index of a tree is gathered from its nodes. -/
theorem collectNames_gathers (tree : IdlFile) :
    (collectNames tree).Gathers tree.nodes ∧ (collectNames tree).Increasing := by
  rw [collectNames, walk_eq_foldl]
  have first : NameIndex.empty.Gathers [] := ⟨by simp [NameIndex.empty], by simp [NameIndex.empty],
    by simp [NameIndex.empty]⟩
  exact NameIndex.foldl_visitor tree.nodes first ⟨.nil, .nil, .nil⟩

/-! ## Addresses -/

/-- Nodes under addresses: one at the root, those of a first part behind a zero, and those of the parts
    that follow with the first number of their addresses raised by one. -/
def branch (root : Option Node) (first later : List Nat → Option Node) : List Nat → Option Node
  | [] => root
  | 0 :: p => first p
  | (i + 1) :: p => later (i :: p)

/-- The nodes of a list of items, by the position of the item and the address within it. -/
def among {α : Type} (sub : α → List Nat → Option Node) : List α → List Nat → Option Node
  | [] => fun _ => none
  | x :: xs => branch none (sub x) (among sub xs)

def Attribute.node? (a : Attribute) : List Nat → Option Node :=
  branch (some (.attribute a)) (fun _ => none) fun _ => none

/-- What carries attributes has them behind a zero, and what is in it behind the numbers from one on. -/
def attributed (attributes : List Attribute) (root : Option Node) (inner : List Nat → Option Node) :
    List Nat → Option Node :=
  branch root (among Attribute.node? attributes) inner

def EnumMember.node? (m : EnumMember) : List Nat → Option Node :=
  attributed m.attributes (some (.enumMember m)) fun _ => none

def InterfaceMember.node? (m : InterfaceMember) : List Nat → Option Node :=
  attributed m.attributes none fun _ => none

mutual

def Namespace.node? : Namespace → List Nat → Option Node
  | ⟨name, ds, attributes, span⟩ => attributed attributes
      (some (.namespace_ ⟨name, ds, attributes, span⟩)) (Declaration.nodeOf? ds)

def Declaration.node? : Declaration → List Nat → Option Node
  | .namespace_ ns => ns.node?
  | .enum d => attributed d.attributes (some (.enum d)) (among EnumMember.node? d.members)
  | .struct d => attributed d.attributes (some (.struct d)) fun _ => none
  | .delegate d => attributed d.attributes (some (.delegate d)) fun _ => none
  | .interface d =>
    attributed d.attributes (some (.interface d)) (among InterfaceMember.node? d.members)

def Declaration.nodeOf? : List Declaration → List Nat → Option Node
  | [] => fun _ => none
  | d :: ds => branch none d.node? (Declaration.nodeOf? ds)

end

/-- The node at an address: numbers down the tree, from the namespaces of the file on. -/
def IdlFile.node? (tree : IdlFile) : List Nat → Option Node := among Namespace.node? tree.namespaces

/-- The list has the node at every address that there is, once and in the order of some list of these
    addresses. -/
def Lists (ns : List Node) (node? : List Nat → Option Node) : Prop :=
  ∃ addresses : List (List Nat), addresses.Nodup ∧ (∀ p, p ∈ addresses ↔ (node? p).isSome) ∧
    addresses.map node? = ns.map some

/-- The address with the first number raised by one. -/
def further : List Nat → List Nat
  | [] => []
  | i :: p => (i + 1) :: p

theorem further_injective : Function.Injective further := by
  rintro (- | ⟨i, p⟩) (- | ⟨j, q⟩) eq <;> simp_all [further]

/-- The addresses under a branching of nodes, by those of its two parts. -/
def branchAddresses (root : Option Node) (ps qs : List (List Nat)) : List (List Nat) :=
  ps.map (List.cons 0) ++ root.toList.map (fun _ => []) ++ qs.map further

section branchAddresses

variable {root : Option Node} {first later : List Nat → Option Node} {ps qs : List (List Nat)}

/-- Without a root, every address of the later part has a number to raise. -/
theorem exists_further (noRoot : [] ∉ qs) {q : List Nat} (mem : q ∈ qs) :
    ∃ i p, q = i :: p ∧ further q = (i + 1) :: p := by
  obtain ⟨i, p, rfl⟩ := List.exists_cons_of_ne_nil (ne_of_mem_of_not_mem mem noRoot)
  exact ⟨i, p, rfl, rfl⟩

theorem nodup_branchAddresses (noRoot : [] ∉ qs) (distinct : ps.Nodup) (distinct' : qs.Nodup) :
    (branchAddresses root ps qs).Nodup := by
  have one : (root.toList.map fun _ => ([] : List Nat)).Nodup := by cases root <;> simp
  refine ((distinct.map List.cons_injective).append one (by simp [List.Disjoint])).append
    (distinct'.map further_injective) ?_
  simp only [List.Disjoint, List.mem_append, List.mem_map]
  rintro _ before ⟨q, mem, rfl⟩
  obtain ⟨i, p, -, eq⟩ := exists_further noRoot mem
  simp [eq] at before

theorem mem_branchAddresses (noRoot : [] ∉ qs) (p : List Nat) :
    p ∈ branchAddresses root ps qs ↔
      p = [] ∧ root.isSome ∨ (∃ q ∈ ps, p = 0 :: q) ∨ ∃ i q, i :: q ∈ qs ∧ p = (i + 1) :: q := by
  have raised : p ∈ qs.map further ↔ ∃ i q, i :: q ∈ qs ∧ p = (i + 1) :: q := by
    rw [List.mem_map]
    constructor
    · rintro ⟨q, mem, rfl⟩
      obtain ⟨i, q, rfl, eq⟩ := exists_further noRoot mem
      exact ⟨i, q, mem, eq⟩
    · rintro ⟨i, q, mem, rfl⟩
      exact ⟨_, mem, rfl⟩
  have own : p ∈ root.toList.map (fun _ => []) ↔ p = [] ∧ root.isSome := by
    cases root <;> simp
  rw [branchAddresses, List.mem_append, List.mem_append, raised, own, List.mem_map]
  simp only [or_left_comm, or_assoc, eq_comm]

theorem map_branchAddresses (noRoot : [] ∉ qs) :
    (branchAddresses root ps qs).map (branch root first later) =
      ps.map first ++ root.toList.map some ++ qs.map later := by
  have atFirst : (ps.map (List.cons 0)).map (branch root first later) = ps.map first := by
    rw [List.map_map]
    rfl
  have atRoot : (root.toList.map fun _ => []).map (branch root first later) =
      root.toList.map some := by
    cases root <;> rfl
  have atLater : (qs.map further).map (branch root first later) = qs.map later := by
    rw [List.map_map]
    refine List.map_congr_left fun q mem => ?_
    obtain ⟨i, p, rfl, -⟩ := exists_further noRoot mem
    rfl
  rw [branchAddresses, List.map_append, List.map_append, atFirst, atRoot, atLater]

end branchAddresses

theorem lists_nil : Lists [] fun _ => none := ⟨[], .nil, by simp, rfl⟩

section Lists

variable {ns ms : List Node} {first later : List Nat → Option Node}

/-- The first part comes before the root, and the root before what follows. -/
theorem Lists.branch (hf : Lists ns first) (hl : Lists ms later) (noRoot : later [] = none)
    (root : Option Node) : Lists (ns ++ root.toList ++ ms) (IdlFront.branch root first later) := by
  obtain ⟨ps, distinct, mem, nodes⟩ := hf
  obtain ⟨qs, distinct', mem', nodes'⟩ := hl
  have inside : [] ∉ qs := by simp [mem', noRoot]
  refine ⟨branchAddresses root ps qs, nodup_branchAddresses inside distinct distinct', fun p => ?_, ?_⟩
  · rw [mem_branchAddresses inside]
    obtain - | ⟨i | i, p⟩ := p <;> simp [IdlFront.branch, mem, mem']
  · rw [map_branchAddresses inside, nodes, nodes', List.map_append, List.map_append]

theorem among_root {α : Type} (sub : α → List Nat → Option Node) (xs : List α) :
    among sub xs [] = none := by
  cases xs <;> rfl

theorem lists_among {α : Type} {sub : α → List Nat → Option Node} {nodes : α → List Node}
    (h : ∀ x, Lists (nodes x) (sub x)) (xs : List α) : Lists (xs.flatMap nodes) (among sub xs) := by
  induction xs with
  | nil => exact lists_nil
  | cons x xs ih =>
    have both := (h x).branch ih (among_root sub xs) none
    rwa [Option.toList_none, List.append_nil, ← List.flatMap_cons] at both

theorem lists_attributes (attributes : List Attribute) :
    Lists (attributes.map Node.attribute) (among Attribute.node? attributes) := by
  rw [← List.flatMap_pure_eq_map]
  exact lists_among (fun a => lists_nil.branch lists_nil rfl (some (.attribute a))) attributes

/-- Attributes, then what they are attached to, then what is in it. -/
theorem lists_attributed (h : Lists ms later) (noRoot : later [] = none) (attributes : List Attribute)
    (root : Option Node) : Lists (attributes.map Node.attribute ++ root.toList ++ ms)
      (attributed attributes root later) :=
  (lists_attributes attributes).branch h noRoot root

theorem EnumMember.lists (m : EnumMember) : Lists m.nodes m.node? := by
  simpa [nodes, node?] using lists_attributed lists_nil rfl m.attributes (some (.enumMember m))

theorem InterfaceMember.lists (m : InterfaceMember) : Lists m.nodes m.node? := by
  simpa [nodes, node?] using lists_attributed lists_nil rfl m.attributes none

mutual

theorem Namespace.lists (ns : Namespace) : Lists ns.nodes ns.node? := by
  obtain ⟨name, ds, attributes, span⟩ := ns
  have noRoot : Declaration.nodeOf? ds [] = none := by cases ds <;> rfl
  have all := lists_attributed (Declaration.lists_nodesOf ds) noRoot attributes
    (some (.namespace_ ⟨name, ds, attributes, span⟩))
  simpa [Namespace.nodes, Namespace.node?] using all

theorem Declaration.lists (d : Declaration) : Lists d.nodes d.node? := by
  cases d with
  | namespace_ ns => exact Namespace.lists ns
  | enum d =>
    have all := lists_attributed (lists_among EnumMember.lists d.members) (among_root _ _)
      d.attributes (some (.enum d))
    simpa [Declaration.nodes, Declaration.node?] using all
  | struct d =>
    have all := lists_attributed lists_nil rfl d.attributes (some (.struct d))
    simpa [Declaration.nodes, Declaration.node?] using all
  | delegate d =>
    have all := lists_attributed lists_nil rfl d.attributes (some (.delegate d))
    simpa [Declaration.nodes, Declaration.node?] using all
  | interface d =>
    have all := lists_attributed (lists_among InterfaceMember.lists d.members) (among_root _ _)
      d.attributes (some (.interface d))
    simpa [Declaration.nodes, Declaration.node?] using all

theorem Declaration.lists_nodesOf (ds : List Declaration) :
    Lists (Declaration.nodesOf ds) (Declaration.nodeOf? ds) := by
  cases ds with
  | nil => exact lists_nil
  | cons d ds =>
    have noRoot : Declaration.nodeOf? ds [] = none := by cases ds <;> rfl
    have both := (Declaration.lists d).branch (Declaration.lists_nodesOf ds) noRoot none
    simpa [Declaration.nodesOf, Declaration.nodeOf?] using both

end

/-- Every node of a tree is in its preorder, once. -/
theorem IdlFile.lists_nodes (tree : IdlFile) : Lists tree.nodes tree.node? :=
  lists_among Namespace.lists tree.namespaces

/-- The nodes of some classes. -/
theorem Lists.filter {node? : List Nat → Option Node} (h : Lists ns node?) (classes : Node → Bool) :
    Lists (ns.filter classes) fun p => (node? p).filter classes := by
  obtain ⟨ps, distinct, mem, nodes⟩ := h
  refine ⟨ps.filter fun p => ((node? p).filter classes).isSome, distinct.filter _, fun p => ?_, ?_⟩
  · rw [List.mem_filter, mem]
    cases found : node? p <;> simp [found]
  · clear distinct mem
    induction ps generalizing ns with
    | nil =>
      obtain rfl : ns = [] := by simpa using nodes.symm
      rfl
    | cons p ps ih =>
      cases ns with
      | nil => cases nodes
      | cons n ns =>
        obtain ⟨isNode, nodes⟩ := List.cons.inj nodes
        have rest := ih nodes
        by_cases ofClass : classes n = true <;> simpa [isNode, ofClass] using rest

end Lists

end IdlFront
