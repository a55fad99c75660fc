import Stampline.Syntax.Basic

/-!
# Giving every node a place

Nodes that a rewrite makes up stand nowhere. `Program.locate` gives each of them the span of its
nearest ancestor that has one, and `Span.root` where there is no such ancestor. Nodes that stand
somewhere keep their span.
-/

namespace Stampline

/-- The span of a node below `outer`; a node without one takes `outer`, which is counted. -/
def settle (outer : Span) : Option Span → StateM Nat Span
  | some here => pure here
  | none => do
    modify (· + 1)
    return outer

mutual

/-- Locates an expression below `outer`. -/
def Expr.locate (outer : Span) : Expr → StateM Nat Expr
  | .number span value => do
    let here ← settle outer span
    return .number here value
  | .text span value => do
    let here ← settle outer span
    return .text here value
  | .name span id => do
    let here ← settle outer span
    return .name here id
  | .member span receiver id => do
    let here ← settle outer span
    return .member here (← receiver.locate here) id
  | .call span callee args keywords => do
    let here ← settle outer span
    let callee ← callee.locate here
    let args ← locateExprs here args
    let keywords ← locateKeywords here keywords
    return .call here callee args keywords
  | .binary span op left right => do
    let here ← settle outer span
    let left ← left.locate here
    let right ← right.locate here
    return .binary here op left right
  | .negate span operand => do
    let here ← settle outer span
    return .negate here (← operand.locate here)
  | .compare span op left right => do
    let here ← settle outer span
    let left ← left.locate here
    let right ← right.locate here
    return .compare here op left right

/-- Locates expressions below `outer`. -/
def locateExprs (outer : Span) : List Expr → StateM Nat (List Expr)
  | [] => return []
  | e :: es => do
    let e ← e.locate outer
    let es ← locateExprs outer es
    return e :: es

/-- Locates a keyword argument below `outer`. -/
def Keyword.locate (outer : Span) : Keyword → StateM Nat Keyword
  | .mk span name value => do
    let here ← settle outer span
    return .mk here name (← value.locate here)

/-- Locates keyword arguments below `outer`. -/
def locateKeywords (outer : Span) : List Keyword → StateM Nat (List Keyword)
  | [] => return []
  | k :: ks => do
    let k ← k.locate outer
    let ks ← locateKeywords outer ks
    return k :: ks

end

/-- Locates parameters below `outer`. -/
def locateParams (outer : Span) : List Param → StateM Nat (List Param)
  | [] => return []
  | p :: ps => do
    let here ← settle outer p.span
    let ps ← locateParams outer ps
    return { p with span := here } :: ps

mutual

/-- Locates a statement below `outer`. -/
def Stmt.locate (outer : Span) : Stmt → StateM Nat Stmt
  | .define span name params body => do
    let here ← settle outer span
    let params ← locateParams here params
    let body ← locateBlock here body
    return .define here name params body
  | .give span none => do
    let here ← settle outer span
    return .give here none
  | .give span (some value) => do
    let here ← settle outer span
    return .give here (some (← value.locate here))
  | .assign span target value => do
    let here ← settle outer span
    return .assign here target (← value.locate here)
  | .eval span value => do
    let here ← settle outer span
    return .eval here (← value.locate here)
  | .branch span test body orelse => do
    let here ← settle outer span
    let test ← test.locate here
    let body ← locateBlock here body
    let orelse ← locateBlock here orelse
    return .branch here test body orelse
  | .loop span test body => do
    let here ← settle outer span
    let test ← test.locate here
    let body ← locateBlock here body
    return .loop here test body
  | .pass span => do
    let here ← settle outer span
    return .pass here

/-- Locates the statements of a block below `outer`. -/
def locateBlock (outer : Span) : List Stmt → StateM Nat (List Stmt)
  | [] => return []
  | s :: ss => do
    let s ← s.locate outer
    let ss ← locateBlock outer ss
    return s :: ss

end

/-- A program with every node located, and the number of nodes that were not. -/
def Program.locate (p : Program) : Program × Nat := (locateBlock .root p).run 0

/-! ## Finding a node without a place -/

mutual

/-- The kind of the first node of an expression that has no span. -/
def Expr.firstUnlocated? : Expr → Option NodeKind
  | .number span _ => if span.isNone then some .number else none
  | .text span _ => if span.isNone then some .text else none
  | .name span _ => if span.isNone then some .name else none
  | .member span receiver _ => if span.isNone then some .member else receiver.firstUnlocated?
  | .call span callee args keywords =>
    if span.isNone then some .call
    else callee.firstUnlocated?.or ((firstUnlocatedExpr? args).or (firstUnlocatedKeyword? keywords))
  | .binary span _ left right =>
    if span.isNone then some .binary else left.firstUnlocated?.or right.firstUnlocated?
  | .negate span operand => if span.isNone then some .negate else operand.firstUnlocated?
  | .compare span _ left right =>
    if span.isNone then some .compare else left.firstUnlocated?.or right.firstUnlocated?

/-- The kind of the first node among expressions that has no span. -/
def firstUnlocatedExpr? : List Expr → Option NodeKind
  | [] => none
  | e :: es => e.firstUnlocated?.or (firstUnlocatedExpr? es)

/-- The kind of the first node of a keyword argument that has no span. -/
def Keyword.firstUnlocated? : Keyword → Option NodeKind
  | .mk span _ value => if span.isNone then some .keyword else value.firstUnlocated?

/-- The kind of the first node among keyword arguments that has no span. -/
def firstUnlocatedKeyword? : List Keyword → Option NodeKind
  | [] => none
  | k :: ks => k.firstUnlocated?.or (firstUnlocatedKeyword? ks)

end

mutual

/-- The kind of the first node of a statement that has no span. -/
def Stmt.firstUnlocated? : Stmt → Option NodeKind
  | .define span _ params body =>
    if span.isNone then some .define
    else if params.any (·.span.isNone) then some .param
    else firstUnlocatedStmt? body
  | .give span none => if span.isNone then some .give else none
  | .give span (some value) => if span.isNone then some .give else value.firstUnlocated?
  | .assign span _ value => if span.isNone then some .assign else value.firstUnlocated?
  | .eval span value => if span.isNone then some .eval else value.firstUnlocated?
  | .branch span test body orelse =>
    if span.isNone then some .branch
    else test.firstUnlocated?.or ((firstUnlocatedStmt? body).or (firstUnlocatedStmt? orelse))
  | .loop span test body =>
    if span.isNone then some .loop else test.firstUnlocated?.or (firstUnlocatedStmt? body)
  | .pass span => if span.isNone then some .pass else none

/-- The kind of the first node among statements that has no span. -/
def firstUnlocatedStmt? : List Stmt → Option NodeKind
  | [] => none
  | s :: ss => s.firstUnlocated?.or (firstUnlocatedStmt? ss)

end

/-- The kind of the first node of a program that has no span, in the order of a walk. -/
def Program.firstUnlocated? (p : Program) : Option NodeKind := firstUnlocatedStmt? p

/-- Whether every node of a program has a span. -/
def Program.isLocated (p : Program) : Bool := p.firstUnlocated?.isNone

end Stampline
