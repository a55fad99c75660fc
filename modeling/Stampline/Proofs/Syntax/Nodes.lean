import Stampline.Syntax.Locate

/-!
# The nodes of a program

A program is a tree of statements, parameters, expressions and keyword arguments. What holds of every
node, or how many nodes have a property, is said of the list `Program.nodes`, in which every node comes
before those below it and sequences come in the order of the source.
-/

namespace Stampline

/-- A node of a program. -/
inductive Node where
  | stmt (s : Stmt)
  | param (p : Param)
  | expr (e : Expr)
  | keyword (k : Keyword)

namespace Node

/-- Where a node stands. -/
def span : Node → Option Span
  | stmt s => s.span
  | param p => p.span
  | expr e => e.span
  | keyword k => k.span

/-- The kind of a node. -/
def kind : Node → NodeKind
  | stmt s => s.kind
  | param _ => .param
  | expr e => e.kind
  | keyword _ => .keyword

/-- The nodes directly below a node, in the order of the source. -/
def children : Node → List Node
  | stmt (.define _ _ params body) => params.map param ++ body.map stmt
  | stmt (.give _ none) | stmt (.pass _) => []
  | stmt (.give _ (some e)) | stmt (.assign _ _ e) | stmt (.eval _ e) => [expr e]
  | stmt (.branch _ test body orelse) => expr test :: (body.map stmt ++ orelse.map stmt)
  | stmt (.loop _ test body) => expr test :: body.map stmt
  | param _ => []
  | expr (.number ..) | expr (.text ..) | expr (.name ..) => []
  | expr (.member _ receiver _) => [expr receiver]
  | expr (.call _ callee args keywords) => expr callee :: (args.map expr ++ keywords.map keyword)
  | expr (.binary _ _ left right) | expr (.compare _ _ left right) => [expr left, expr right]
  | expr (.negate _ operand) => [expr operand]
  | keyword (.mk _ _ value) => [expr value]

end Node

mutual

/-- An expression and the nodes below it. -/
def Expr.nodes : Expr → List Node
  | .number span value => [.expr (.number span value)]
  | .text span value => [.expr (.text span value)]
  | .name span id => [.expr (.name span id)]
  | .member span receiver id => .expr (.member span receiver id) :: receiver.nodes
  | .call span callee args keywords =>
    .expr (.call span callee args keywords) ::
      (callee.nodes ++ (nodesOf args ++ nodesBy keywords))
  | .binary span op left right => .expr (.binary span op left right) :: (left.nodes ++ right.nodes)
  | .negate span operand => .expr (.negate span operand) :: operand.nodes
  | .compare span op left right =>
    .expr (.compare span op left right) :: (left.nodes ++ right.nodes)

/-- Expressions and the nodes below them. -/
def nodesOf : List Expr → List Node
  | [] => []
  | e :: es => e.nodes ++ nodesOf es

/-- Keyword arguments and the nodes below them. -/
def nodesBy : List Keyword → List Node
  | [] => []
  | .mk span name value :: ks => .keyword (.mk span name value) :: (value.nodes ++ nodesBy ks)

end

mutual

/-- A statement and the nodes below it. -/
def Stmt.nodes : Stmt → List Node
  | .define span name params body =>
    .stmt (.define span name params body) :: (params.map .param ++ nodesIn body)
  | .give span none => [.stmt (.give span none)]
  | .give span (some value) => .stmt (.give span (some value)) :: value.nodes
  | .assign span target value => .stmt (.assign span target value) :: value.nodes
  | .eval span value => .stmt (.eval span value) :: value.nodes
  | .branch span test body orelse =>
    .stmt (.branch span test body orelse) :: (test.nodes ++ (nodesIn body ++ nodesIn orelse))
  | .loop span test body => .stmt (.loop span test body) :: (test.nodes ++ nodesIn body)
  | .pass span => [.stmt (.pass span)]

/-- The nodes of a block. -/
def nodesIn : List Stmt → List Node
  | [] => []
  | s :: ss => s.nodes ++ nodesIn ss

end

/-- The nodes of a program. -/
def Program.nodes (p : Program) : List Node := nodesIn p

/-- A node and the nodes below it. -/
def Node.nodes : Node → List Node
  | stmt s => s.nodes
  | param p => [param p]
  | expr e => e.nodes
  | keyword k => nodesBy [k]

theorem nodesOf_eq_flatMap (es : List Expr) : nodesOf es = (es.map Node.expr).flatMap Node.nodes := by
  induction es with
  | nil => rfl
  | cons e es ih => rw [nodesOf, ih, List.map_cons, List.flatMap_cons, Node.nodes]

theorem nodesBy_eq_flatMap (ks : List Keyword) :
    nodesBy ks = (ks.map Node.keyword).flatMap Node.nodes := by
  induction ks with
  | nil => rfl
  | cons k ks ih =>
    cases k
    simp only [nodesBy, ih, List.map_cons, List.flatMap_cons, Node.nodes, List.append_nil,
      List.cons_append]

theorem nodesIn_eq_flatMap (block : List Stmt) :
    nodesIn block = (block.map Node.stmt).flatMap Node.nodes := by
  induction block with
  | nil => rfl
  | cons s ss ih => rw [nodesIn, ih, List.map_cons, List.flatMap_cons, Node.nodes]

theorem params_eq_flatMap (params : List Param) :
    params.map Node.param = (params.map Node.param).flatMap Node.nodes := by
  induction params with
  | nil => rfl
  | cons p ps ih =>
    rw [List.map_cons, List.flatMap_cons, ← ih]
    rfl

/-- A node comes before the nodes below its children. -/
theorem Node.nodes_eq (n : Node) : n.nodes = n :: n.children.flatMap Node.nodes := by
  cases n with
  | stmt s =>
    cases s with
    | define _ _ params body =>
      simp only [nodes, Stmt.nodes, children, List.flatMap_append, ← params_eq_flatMap,
        ← nodesIn_eq_flatMap]
    | give _ value =>
      cases value <;> simp [nodes, Stmt.nodes, children]
    | assign | eval => simp [nodes, Stmt.nodes, children]
    | branch | loop =>
      simp only [nodes, Stmt.nodes, children, List.flatMap_cons, List.flatMap_append,
        ← nodesIn_eq_flatMap]
    | pass => rfl
  | param => rfl
  | expr e =>
    cases e with
    | number | text | name => rfl
    | member | negate => simp [nodes, Expr.nodes, children]
    | call =>
      simp only [nodes, Expr.nodes, children, List.flatMap_cons, List.flatMap_append,
        ← nodesOf_eq_flatMap, ← nodesBy_eq_flatMap]
    | binary | compare => simp [nodes, Expr.nodes, children]
  | keyword k =>
    cases k
    simp [nodes, nodesBy, children]

/-- There are fewer nodes below a child than below its parent. -/
theorem Node.length_nodes_lt {m n : Node} (h : m ∈ n.children) : m.nodes.length < n.nodes.length := by
  rw [n.nodes_eq, List.length_cons]
  exact Nat.lt_succ_of_le (List.sublist_flatten_of_mem (List.mem_map_of_mem h)).length_le

/-! ## Nodes without a place -/

/-- The kind of the first of some nodes that stands nowhere. -/
def firstUnlocatedKind? (nodes : List Node) : Option NodeKind :=
  (nodes.find? (·.span.isNone)).map Node.kind

@[simp] theorem firstUnlocatedKind?_nil : firstUnlocatedKind? [] = none := rfl

@[simp] theorem firstUnlocatedKind?_cons (n : Node) (nodes : List Node) :
    firstUnlocatedKind? (n :: nodes) =
      if n.span.isNone then some n.kind else firstUnlocatedKind? nodes := by
  unfold firstUnlocatedKind?
  rw [List.find?_cons]
  cases n.span.isNone <;> rfl

@[simp] theorem firstUnlocatedKind?_append (nodes more : List Node) :
    firstUnlocatedKind? (nodes ++ more) =
      (firstUnlocatedKind? nodes).or (firstUnlocatedKind? more) := by
  unfold firstUnlocatedKind?
  rw [List.find?_append]
  cases nodes.find? (·.span.isNone) <;> rfl

theorem firstUnlocatedKind?_eq_none {nodes : List Node} :
    firstUnlocatedKind? nodes = none ↔ ∀ n ∈ nodes, n.span.isSome := by
  simp [firstUnlocatedKind?, Option.isSome_iff_ne_none]

theorem firstUnlocatedKind?_params : ∀ params : List Param,
    firstUnlocatedKind? (params.map .param) =
      if params.any (·.span.isNone) then some .param else none
  | [] => rfl
  | p :: ps => by
    rw [List.map_cons, firstUnlocatedKind?_cons, firstUnlocatedKind?_params ps, List.any_cons]
    cases h : p.span.isNone <;> simp [Node.span, Node.kind, h]

mutual

theorem Expr.firstUnlocated?_eq : ∀ e : Expr, e.firstUnlocated? = firstUnlocatedKind? e.nodes
  | .number span _ | .text span _ | .name span _ => by
    simp [Expr.firstUnlocated?, Expr.nodes, Node.span, Node.kind, Expr.span, Expr.kind]
  | .member span receiver _ | .negate span receiver => by
    simp [Expr.firstUnlocated?, Expr.nodes, Node.span, Node.kind, Expr.span, Expr.kind,
      receiver.firstUnlocated?_eq]
  | .call span callee args keywords => by
    simp [Expr.firstUnlocated?, Expr.nodes, Node.span, Node.kind, Expr.span, Expr.kind,
      callee.firstUnlocated?_eq, firstUnlocatedExpr?_eq args, firstUnlocatedKeyword?_eq keywords]
  | .binary span _ left right | .compare span _ left right => by
    simp [Expr.firstUnlocated?, Expr.nodes, Node.span, Node.kind, Expr.span, Expr.kind,
      left.firstUnlocated?_eq, right.firstUnlocated?_eq]

theorem firstUnlocatedExpr?_eq : ∀ es : List Expr,
    firstUnlocatedExpr? es = firstUnlocatedKind? (nodesOf es)
  | [] => rfl
  | e :: es => by
    simp [firstUnlocatedExpr?, nodesOf, e.firstUnlocated?_eq, firstUnlocatedExpr?_eq es]

theorem firstUnlocatedKeyword?_eq : ∀ ks : List Keyword,
    firstUnlocatedKeyword? ks = firstUnlocatedKind? (nodesBy ks)
  | [] => rfl
  | .mk span _ value :: ks => by
    simp only [firstUnlocatedKeyword?, Keyword.firstUnlocated?, nodesBy, firstUnlocatedKind?_cons,
      firstUnlocatedKind?_append, Node.span, Node.kind, Keyword.span, value.firstUnlocated?_eq,
      firstUnlocatedKeyword?_eq ks]
    split <;> rfl

end

mutual

theorem Stmt.firstUnlocated?_eq : ∀ s : Stmt, s.firstUnlocated? = firstUnlocatedKind? s.nodes
  | .define span _ params body => by
    simp only [Stmt.firstUnlocated?, Stmt.nodes, firstUnlocatedKind?_cons,
      firstUnlocatedKind?_append, firstUnlocatedKind?_params, firstUnlocatedStmt?_eq body,
      Node.span, Node.kind, Stmt.span, Stmt.kind]
    split
    · rfl
    · split <;> rfl
  | .give span none | .pass span => by
    simp [Stmt.firstUnlocated?, Stmt.nodes, Node.span, Node.kind, Stmt.span, Stmt.kind]
  | .give span (some value) | .assign span _ value | .eval span value => by
    simp [Stmt.firstUnlocated?, Stmt.nodes, Node.span, Node.kind, Stmt.span, Stmt.kind,
      value.firstUnlocated?_eq]
  | .branch span test body orelse => by
    simp [Stmt.firstUnlocated?, Stmt.nodes, Node.span, Node.kind, Stmt.span, Stmt.kind,
      test.firstUnlocated?_eq, firstUnlocatedStmt?_eq body, firstUnlocatedStmt?_eq orelse]
  | .loop span test body => by
    simp [Stmt.firstUnlocated?, Stmt.nodes, Node.span, Node.kind, Stmt.span, Stmt.kind,
      test.firstUnlocated?_eq, firstUnlocatedStmt?_eq body]

theorem firstUnlocatedStmt?_eq : ∀ block : List Stmt,
    firstUnlocatedStmt? block = firstUnlocatedKind? (nodesIn block)
  | [] => rfl
  | s :: ss => by
    simp [firstUnlocatedStmt?, nodesIn, s.firstUnlocated?_eq, firstUnlocatedStmt?_eq ss]

end

/-- The search for a node that stands nowhere finds the first in the list of nodes. -/
theorem Program.firstUnlocated?_eq (p : Program) :
    p.firstUnlocated? = firstUnlocatedKind? p.nodes := firstUnlocatedStmt?_eq p

/-- No node is found that stands nowhere exactly if every node stands somewhere. -/
theorem Program.firstUnlocated?_eq_none {p : Program} :
    p.firstUnlocated? = none ↔ ∀ n ∈ p.nodes, n.span.isSome := by
  rw [p.firstUnlocated?_eq, firstUnlocatedKind?_eq_none]

end Stampline
