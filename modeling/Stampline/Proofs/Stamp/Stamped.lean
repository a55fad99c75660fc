import Stampline.Proofs.Stamp.Kept
import Stampline.Proofs.Syntax.Nodes

/-!
# Stamped programs

What comes of a program by the rules of stamping, said without a rewriter. `Stamps target place
texts e e'` holds if `e'` is `e` with a stamp in front of the arguments of every call of the target.
The stamps are `texts`, those of the calls inside a call before its own. The calls that have a stamp,
and the stamps themselves, stand where `place` says; all other nodes stand where they stood.

Rewriting gives nodes that stand nowhere, and locating them gives nodes that stand anywhere.
-/

namespace Stampline

section Relations

variable (target : String) (place : Option Span → Prop)

mutual

/-- `e'` is the expression `e` with every call of the target stamped. -/
inductive Stamps : List String → Expr → Expr → Prop where
  | number {span value} : Stamps [] (.number span value) (.number span value)
  | text {span value} : Stamps [] (.text span value) (.text span value)
  | name {span id} : Stamps [] (.name span id) (.name span id)
  | member {span e e' id texts} (h : Stamps texts e e') :
      Stamps texts (.member span e id) (.member span e' id)
  | call {span e e' es es' ks ks' texts texts' texts''} (hcallee : Stamps texts e e')
      (hargs : StampsArgs texts' es es') (hkeywords : StampsKeywords texts'' ks ks')
      (hother : (Expr.call span e es ks).isCallOf target = false) :
      Stamps (texts ++ (texts' ++ texts'')) (.call span e es ks) (.call span e' es' ks')
  | stamped {span span' here here' stamp es es' ks ks' texts texts'}
      (hargs : StampsArgs texts es es') (hkeywords : StampsKeywords texts' ks ks')
      (hspan : place span') (hhere : place here') :
      Stamps (texts ++ texts' ++ [stamp]) (.call span (.name here target) es ks)
        (.call span' (.name here target) (.text here' stamp :: es') ks')
  | binary {span op l l' r r' texts texts'} (hleft : Stamps texts l l')
      (hright : Stamps texts' r r') :
      Stamps (texts ++ texts') (.binary span op l r) (.binary span op l' r')
  | negate {span e e' texts} (h : Stamps texts e e') :
      Stamps texts (.negate span e) (.negate span e')
  | compare {span op l l' r r' texts texts'} (hleft : Stamps texts l l')
      (hright : Stamps texts' r r') :
      Stamps (texts ++ texts') (.compare span op l r) (.compare span op l' r')

/-- Expressions are stamped in turn. -/
inductive StampsArgs : List String → List Expr → List Expr → Prop where
  | nil : StampsArgs [] [] []
  | cons {e e' es es' texts texts'} (h : Stamps texts e e') (hrest : StampsArgs texts' es es') :
      StampsArgs (texts ++ texts') (e :: es) (e' :: es')

/-- The values of keyword arguments are stamped in turn. -/
inductive StampsKeywords : List String → List Keyword → List Keyword → Prop where
  | nil : StampsKeywords [] [] []
  | cons {span name e e' ks ks' texts texts'} (h : Stamps texts e e')
      (hrest : StampsKeywords texts' ks ks') :
      StampsKeywords (texts ++ texts') (.mk span name e :: ks) (.mk span name e' :: ks')

end

mutual

/-- `s'` is the statement `s` with every call of the target stamped, and with every function whose
body ends in an expression giving the value of that expression. -/
inductive StampsStmt : List String → Stmt → Stmt → Prop where
  | define {span name params block block' texts} (h : StampsBlock true texts block block') :
      StampsStmt texts (.define span name params block) (.define span name params block')
  | giveZero {span} : StampsStmt [] (.give span none) (.give span none)
  | give {span e e' texts} (h : Stamps target place texts e e') :
      StampsStmt texts (.give span (some e)) (.give span (some e'))
  | assign {span id e e' texts} (h : Stamps target place texts e e') :
      StampsStmt texts (.assign span id e) (.assign span id e')
  | eval {span e e' texts} (h : Stamps target place texts e e') :
      StampsStmt texts (.eval span e) (.eval span e')
  | branch {span e e' block block' orelse orelse' texts texts' texts''}
      (h : Stamps target place texts e e') (hbody : StampsBlock false texts' block block')
      (horelse : StampsBlock false texts'' orelse orelse') :
      StampsStmt (texts ++ (texts' ++ texts'')) (.branch span e block orelse)
        (.branch span e' block' orelse')
  | loop {span e e' block block' texts texts'} (h : Stamps target place texts e e')
      (hbody : StampsBlock false texts' block block') :
      StampsStmt (texts ++ texts') (.loop span e block) (.loop span e' block')
  | pass {span} : StampsStmt [] (.pass span) (.pass span)

/-- The statements of a block are stamped in turn. If `giving` says that it is the body of a function,
an expression at its end is given, by a statement that stands where `place` says. -/
inductive StampsBlock : Bool → List String → List Stmt → List Stmt → Prop where
  | nil {giving} : StampsBlock giving [] [] []
  | last {span here e e' texts} (h : Stamps target place texts e e') (hhere : place here) :
      StampsBlock true texts [.eval span e] [.give here (some e')]
  | cons {giving s s' ss ss' texts texts'} (h : StampsStmt texts s s')
      (hrest : StampsBlock giving texts' ss ss')
      (hlast : giving = true → ss = [] → ∀ span e, s ≠ .eval span e) :
      StampsBlock giving (texts ++ texts') (s :: ss) (s' :: ss')

end

end Relations

/-! ## What is stamped -/

/-- A block ends in an expression. -/
def endsInExpr (block : List Stmt) : Bool :=
  match block.getLast? with
  | some (.eval ..) => true
  | _ => false

namespace Node

/-- Whether a node is a call of the plain name `id`. -/
def isCallOf (id : String) : Node → Bool
  | expr e => e.isCallOf id
  | _ => false

/-- Whether a node is a definition whose body ends in an expression. -/
def endsInExpr : Node → Bool
  | stmt (.define _ _ _ body) => Stampline.endsInExpr body
  | _ => false

end Node

/-- The number of calls of the plain name `id` among nodes. -/
def callsTo (id : String) (nodes : List Node) : Nat := nodes.countP (Node.isCallOf id)

@[simp] theorem callsTo_nil (id : String) : callsTo id [] = 0 := rfl

@[simp] theorem callsTo_cons (id : String) (n : Node) (nodes : List Node) :
    callsTo id (n :: nodes) = callsTo id nodes + if n.isCallOf id then 1 else 0 := List.countP_cons

@[simp] theorem callsTo_append (id : String) (nodes more : List Node) :
    callsTo id (nodes ++ more) = callsTo id nodes + callsTo id more := List.countP_append

@[simp] theorem callsTo_params (id : String) (params : List Param) :
    callsTo id (params.map .param) = 0 := by
  rw [callsTo, List.countP_map, List.countP_eq_zero]
  simp [Node.isCallOf]

/-- The number of nodes that are definitions whose body ends in an expression. -/
def endings (nodes : List Node) : Nat := nodes.countP Node.endsInExpr

@[simp] theorem endings_nil : endings [] = 0 := rfl

@[simp] theorem endings_cons (n : Node) (nodes : List Node) :
    endings (n :: nodes) = endings nodes + if n.endsInExpr then 1 else 0 := List.countP_cons

@[simp] theorem endings_append (nodes more : List Node) :
    endings (nodes ++ more) = endings nodes + endings more := List.countP_append

mutual

/-- There are no definitions in an expression. -/
theorem Expr.endings_nodes : ∀ e : Expr, endings e.nodes = 0
  | .number .. | .text .. | .name .. => rfl
  | .member _ e _ | .negate _ e => by simp [Expr.nodes, Node.endsInExpr, e.endings_nodes]
  | .call _ callee args keywords => by
    simp [Expr.nodes, Node.endsInExpr, callee.endings_nodes,
      endings_nodesOf args, endings_nodesBy keywords]
  | .binary _ _ left right | .compare _ _ left right => by
    simp [Expr.nodes, Node.endsInExpr, left.endings_nodes,
      right.endings_nodes]

theorem endings_nodesOf : ∀ es : List Expr, endings (nodesOf es) = 0
  | [] => rfl
  | e :: es => by simp [nodesOf, e.endings_nodes, endings_nodesOf es]

theorem endings_nodesBy : ∀ ks : List Keyword, endings (nodesBy ks) = 0
  | [] => rfl
  | .mk _ _ value :: ks => by
    simp [nodesBy, Node.endsInExpr, value.endings_nodes,
      endings_nodesBy ks]

end

@[simp] theorem endings_params (params : List Param) : endings (params.map .param) = 0 := by
  rw [endings, List.countP_map, List.countP_eq_zero]
  simp [Node.endsInExpr]

/-- Whether a block ends in an expression is settled by its last statement. -/
theorem endsInExpr_cons {s : Stmt} {ss : List Stmt} (h : ss = [] → ∀ span e, s ≠ .eval span e) :
    endsInExpr (s :: ss) = endsInExpr ss := by
  unfold endsInExpr
  cases ss with
  | cons => rw [List.getLast?_cons_cons]
  | nil =>
    cases s with
    | eval => exact absurd rfl (h rfl _ _)
    | _ => rfl

/-- A call of the target is a call of a name. -/
theorem Expr.exists_of_isCallOf {target : String} {e : Expr} (h : e.isCallOf target = true) :
    ∃ span here es ks, e = .call span (.name here target) es ks := by
  match e, h with
  | .call span (.name here id) es ks, h =>
    obtain rfl : id = target := by simpa [Expr.isCallOf] using h
    exact ⟨span, here, es, ks, rfl⟩

section Counts

variable {target : String} {place : Option Span → Prop}

mutual

/-- There is a stamp for every call of the target. -/
theorem Stamps.length_eq {texts : List String} {e e' : Expr} :
    Stamps target place texts e e' → texts.length = callsTo target e.nodes
  | .number | .text | .name => rfl
  | .member h | .negate h => by
    simp [Expr.nodes, Node.isCallOf, Expr.isCallOf, h.length_eq]
  | .call hcallee hargs hkeywords hother => by
    simp [Expr.nodes, Node.isCallOf, hother, hcallee.length_eq, hargs.length_eq,
      hkeywords.length_eq]
  | .stamped hargs hkeywords _ _ => by
    simp [Expr.nodes, Node.isCallOf, Expr.isCallOf, hargs.length_eq, hkeywords.length_eq,
      Nat.add_assoc]
  | .binary hleft hright | .compare hleft hright => by
    simp [Expr.nodes, Node.isCallOf, Expr.isCallOf, hleft.length_eq, hright.length_eq]

theorem StampsArgs.length_eq {texts : List String} {es es' : List Expr} :
    StampsArgs target place texts es es' →
      texts.length = callsTo target (nodesOf es)
  | .nil => rfl
  | .cons h hrest => by simp [nodesOf, h.length_eq, hrest.length_eq]

theorem StampsKeywords.length_eq {texts : List String} {ks ks' : List Keyword} :
    StampsKeywords target place texts ks ks' →
      texts.length = callsTo target (nodesBy ks)
  | .nil => rfl
  | .cons h hrest => by simp [nodesBy, Node.isCallOf, h.length_eq, hrest.length_eq]

end

mutual

theorem StampsStmt.length_eq {texts : List String} {s s' : Stmt} :
    StampsStmt target place texts s s' → texts.length = callsTo target s.nodes
  | .define h => by simp [Stmt.nodes, Node.isCallOf, h.length_eq]
  | .giveZero | .pass => rfl
  | .give h | .assign h | .eval h => by simp [Stmt.nodes, Node.isCallOf, h.length_eq]
  | .branch h hbody horelse => by
    simp [Stmt.nodes, Node.isCallOf, h.length_eq, hbody.length_eq, horelse.length_eq]
  | .loop h hbody => by simp [Stmt.nodes, Node.isCallOf, h.length_eq, hbody.length_eq]

theorem StampsBlock.length_eq {giving : Bool} {texts : List String} {ss ss' : List Stmt} :
    StampsBlock target place giving texts ss ss' → texts.length = callsTo target (nodesIn ss)
  | .nil => rfl
  | .last h _ => by simp [nodesIn, Stmt.nodes, Node.isCallOf, h.length_eq]
  | .cons h hrest _ => by simp [nodesIn, h.length_eq, hrest.length_eq]

end

/-- A body that is stamped as any block is becomes that of a function once it gives its last
expression. -/
theorem StampsBlock.givingLast? {texts : List String} {block block' : List Stmt}
    (h : StampsBlock target (· = none) false texts block block') :
    match Stampline.givingLast? block' with
    | some new => StampsBlock target (· = none) true texts block new ∧ endsInExpr block = true
    | none => StampsBlock target (· = none) true texts block block' ∧ endsInExpr block = false := by
  fun_induction Stampline.givingLast? block' generalizing block texts with
  | case1 =>
    cases h
    exact ⟨.nil, rfl⟩
  | case2 span value =>
    obtain _ | _ | ⟨hs, hnil, -⟩ := h
    cases hnil
    cases hs
    rename_i he
    exact ⟨List.append_nil _ ▸ .last he rfl, rfl⟩
  | case3 s ss hss ih =>
    obtain _ | _ | ⟨hs, hrest, -⟩ := h
    rename_i t ts texts texts'
    have ih := ih hrest
    have hlast : ts = [] → ∀ span e, t ≠ .eval span e := by
      rintro rfl span e rfl
      cases hrest
      cases hs
      exact hss _ _ rfl rfl
    have hends := endsInExpr_cons hlast
    cases hnew : Stampline.givingLast? ss with
    | none =>
      rw [hnew] at ih
      exact ⟨.cons hs ih.1 fun _ => hlast, hends.trans ih.2⟩
    | some new =>
      rw [hnew] at ih
      exact ⟨.cons hs ih.1 fun _ => hlast, hends.trans ih.2⟩

end Counts

end Stampline
