import Mathlib.Data.List.Perm.Basic
import Stampline.Syntax.Rewrite
import Stampline.Proofs.Syntax.Nodes

/-!
# The order in which a rewriter visits nodes

A rewriter visits every statement, expression and keyword argument of a program once, after all that is
below it. Parameters are not visited. Where a node stands in the one above it settles whether it may be
deleted: it may in a sequence, and nowhere else.
-/

namespace Stampline

/-! ## Children -/

/-- A node that stands directly below another. -/
structure Child where
  /-- The place that it fills. In a sequence there are none. -/
  place? : Option Place
  /-- The node. -/
  node : Node

/-- A node that stands in a sequence. -/
def Child.inSequence (n : Node) : Child := ⟨none, n⟩

/-- An expression that fills a place. -/
def Child.filling (place : Place) (e : Expr) : Child := ⟨some place, .expr e⟩

namespace Node

open Child (inSequence filling)

/-- The nodes directly below a node that a rewriter visits, in the order in which it does. -/
def visitedChildren : Node → List Child
  | stmt (.define _ _ _ body) => body.map (inSequence ∘ stmt)
  | stmt (.give _ none) | stmt (.pass _) => []
  | stmt (.give _ (some value)) => [filling .returnValue value]
  | stmt (.assign _ _ value) => [filling .assignedValue value]
  | stmt (.eval _ value) => [filling .statement value]
  | stmt (.branch _ test body orelse) =>
    filling .branchTest test :: (body.map (inSequence ∘ stmt) ++ orelse.map (inSequence ∘ stmt))
  | stmt (.loop _ test body) => filling .loopTest test :: body.map (inSequence ∘ stmt)
  | param _ => []
  | expr (.number ..) | expr (.text ..) | expr (.name ..) => []
  | expr (.member _ receiver _) => [filling .receiver receiver]
  | expr (.call _ callee args keywords) =>
    filling .callee callee :: (args.map (inSequence ∘ expr) ++ keywords.map (inSequence ∘ keyword))
  | expr (.binary _ _ left right) | expr (.compare _ _ left right) =>
    [filling .leftOperand left, filling .rightOperand right]
  | expr (.negate _ operand) => [filling .operand operand]
  | keyword (.mk _ _ value) => [filling .keywordValue value]

/-- Whether a rewriter visits a node. -/
def isVisited : Node → Bool
  | param _ => false
  | stmt _ | expr _ | keyword _ => true

theorem filter_isVisited_params (params : List Param) :
    (params.map param).filter isVisited = [] := List.filter_eq_nil_iff.2 (by simp [isVisited])

/-- A node below another is one of its parameters, or visited. -/
theorem children_eq (n : Node) : ∃ params : List Param,
    n.children = params.map param ++ n.visitedChildren.map Child.node := by
  have hsequence {α : Type} (make : α → Node) (as : List α) :
      (as.map (inSequence ∘ make)).map Child.node = as.map make := List.map_map
  cases n with
  | stmt s =>
    cases s with
    | define _ _ params body => exact ⟨params, by rw [visitedChildren, hsequence]; rfl⟩
    | give _ value => cases value <;> exact ⟨[], rfl⟩
    | assign | eval | pass => exact ⟨[], rfl⟩
    | branch | loop =>
      refine ⟨[], ?_⟩
      simp only [visitedChildren, List.map_cons, List.map_append, hsequence]
      rfl
  | param => exact ⟨[], rfl⟩
  | expr e =>
    cases e with
    | call =>
      refine ⟨[], ?_⟩
      simp only [visitedChildren, List.map_cons, List.map_append, hsequence]
      rfl
    | _ => exact ⟨[], rfl⟩
  | keyword k =>
    cases k
    exact ⟨[], rfl⟩

theorem mem_children_of_mem_visitedChildren {n : Node} {c : Child} (h : c ∈ n.visitedChildren) :
    c.node ∈ n.children := by
  obtain ⟨params, heq⟩ := n.children_eq
  rw [heq]
  exact List.mem_append_right _ (List.mem_map_of_mem h)

/-! ## The order of visits -/

/-- A node and the nodes below it that a rewriter visits, in the order in which it does: a node comes
after all that is below it. -/
def visited (n : Node) : List Node :=
  n.visitedChildren.attach.flatMap (fun c => c.1.node.visited) ++ [n]
termination_by n.nodes.length
decreasing_by exact length_nodes_lt (mem_children_of_mem_visitedChildren c.2)

theorem visited_eq (n : Node) : n.visited = n.visitedChildren.flatMap (·.node.visited) ++ [n] := by
  rw [visited]
  simp

theorem isVisited_of_mem_visitedChildren {n : Node} {c : Child} (h : c ∈ n.visitedChildren) :
    c.node.isVisited = true := by
  have hall : n.visitedChildren.all (·.node.isVisited) = true := by
    unfold visitedChildren
    split <;> simp [filling, inSequence, isVisited]
  exact List.all_eq_true.1 hall c h

/-- What fills a place is an expression. -/
theorem exists_filling_of_mem_visitedChildren {n m : Node} {place : Place}
    (h : ⟨some place, m⟩ ∈ n.visitedChildren) :
    ∃ e, m = expr e ∧ filling place e ∈ n.visitedChildren := by
  have hall : ∀ c ∈ n.visitedChildren, c.place? = none ∨ ∃ e, c.node = expr e := by
    unfold visitedChildren
    split <;> simp [filling, inSequence, or_imp, forall_and]
  obtain ⟨e, rfl⟩ := (hall _ h).resolve_left (Option.some_ne_none place)
  exact ⟨e, rfl, h⟩

/-- Every node is visited once, parameters aside. -/
theorem visited_perm {n : Node} (h : n.isVisited = true) :
    n.visited.Perm (n.nodes.filter isVisited) := by
  obtain ⟨params, hchildren⟩ := n.children_eq
  have hbelow : (n.children.flatMap nodes).filter isVisited =
      n.visitedChildren.flatMap fun c => c.node.nodes.filter isVisited := by
    rw [hchildren, List.flatMap_append, ← params_eq_flatMap, List.filter_append,
      filter_isVisited_params, List.nil_append, List.flatMap_map, List.filter_flatMap]
  rw [n.visited_eq, n.nodes_eq, List.filter_cons_of_pos h, hbelow]
  -- a node is the last that is visited and the first that is listed
  refine List.perm_append_comm.trans (.cons n (.flatMap_left _ fun c hc => ?_))
  exact visited_perm (isVisited_of_mem_visitedChildren hc)
termination_by n.nodes.length
decreasing_by exact length_nodes_lt (mem_children_of_mem_visitedChildren hc)

end Node

/-- The nodes of a program that a rewriter visits, in the order in which it does. -/
def Program.visited (p : Program) : List Node := (p.map Node.stmt).flatMap Node.visited

/-- Every node of a program is visited once, parameters aside. -/
theorem Program.visited_perm (p : Program) : p.visited.Perm (p.nodes.filter Node.isVisited) := by
  rw [visited, nodes, nodesIn_eq_flatMap, List.filter_flatMap]
  refine .flatMap_left _ fun n hn => ?_
  obtain ⟨s, -, rfl⟩ := List.mem_map.1 hn
  exact Node.visited_perm rfl

end Stampline
