import Stampline.Syntax.Basic
import Stampline.LogEvent

/-!
# Rewriting programs

A rewriter looks at every node of a program once, after everything below it. It is handed the node
with its children already rewritten and decides whether the node stays, is replaced, or is deleted.
A node that takes the place of another is not looked at again.

Statements of a block, positional arguments and keyword arguments can be deleted. Every other
expression fills a place that cannot be empty, and to delete it is an error.
-/

namespace Stampline

/-- What a rewriter decides about a node. -/
inductive Verdict (α : Type) where
  /-- The node is kept as the hook hands it back. -/
  | keep (node : α)
  /-- Another node takes its place. -/
  | replace (node : α)
  /-- The node is removed from the sequence it stands in. -/
  | delete
deriving DecidableEq, Repr

/-- The places that cannot be empty. -/
inductive Place where
  | returnValue | assignedValue | statement | branchTest | loopTest | receiver | callee
  | leftOperand | rightOperand | operand | keywordValue
deriving DecidableEq, Repr

/-- What a place is called in a message. -/
def Place.label : Place → String
  | returnValue => "return value"
  | assignedValue => "assigned value"
  | statement => "expression statement"
  | branchTest => "if test"
  | loopTest => "while test"
  | receiver => "attribute receiver"
  | callee => "callee"
  | leftOperand => "left operand"
  | rightOperand => "right operand"
  | operand => "operand"
  | keywordValue => "keyword value"

/-- How a rewriter answers when it is handed a node: what it decides or why it gives up, the state
it is in afterwards, and what it reports. -/
structure Answer (σ ε α : Type) where
  /-- The decision, or the reason to give up. -/
  result : Except ε (Verdict α)
  /-- The state afterwards. -/
  state : σ
  /-- What is reported. -/
  log : Log := []

/-- How a rewriter with states in `σ` deals with nodes of one sort. -/
abbrev Hook (σ ε α : Type) := α → σ → Answer σ ε α

/-- The hook that keeps every node. -/
def Hook.keep {σ ε α : Type} : Hook σ ε α := fun a s => { result := .ok (.keep a), state := s }

/-- A rewriter. Definitions go to the hook `define` and calls to `call`; all other statements and
expressions go to `stmt` and `expr`. -/
structure Rewriter (σ ε : Type) where
  /-- The name by which it is reported. -/
  name : String := "transform"
  /-- Deals with definitions. -/
  define : Hook σ ε Stmt := Hook.keep
  /-- Deals with all other statements. -/
  stmt : Hook σ ε Stmt := Hook.keep
  /-- Deals with calls. -/
  call : Hook σ ε Expr := Hook.keep
  /-- Deals with all other expressions. -/
  expr : Hook σ ε Expr := Hook.keep
  /-- Deals with keyword arguments. -/
  keyword : Hook σ ε Keyword := Hook.keep

/-- How many nodes a rewriter changed. -/
structure RewriteCount where
  /-- The nodes it replaced. -/
  replaced : Nat := 0
  /-- The nodes it deleted. -/
  deleted : Nat := 0
deriving DecidableEq, Repr, Inhabited

/-- Whether a rewriter changed anything. -/
def RewriteCount.changed (c : RewriteCount) : Bool := decide (0 < c.replaced + c.deleted)

/-- Why rewriting fails. -/
inductive RewriteFailure (ε : Type) where
  /-- A hook gave up. -/
  | gaveUp (reason : ε)
  /-- A place was left empty. -/
  | emptied (place : Place)
deriving DecidableEq, Repr

/-- What is carried along from node to node. -/
structure Progress (σ : Type) where
  /-- The state of the rewriter. -/
  state : σ
  /-- What it has changed. -/
  count : RewriteCount := {}
  /-- What was reported. -/
  log : Log := []

/-- Rewriting goes from node to node until it is done or fails. -/
abbrev Rewriting (σ ε α : Type) := ExceptT (RewriteFailure ε) (StateM (Progress σ)) α

variable {σ ε : Type}

namespace Rewriting

variable {α β : Type} {x : Rewriting σ ε α} {f : α → Rewriting σ ε β} {before after : Progress σ}

/-- Rewriting goes on from where it has come to. -/
theorem bind_of_ok {a : α} (h : x before = (.ok a, after)) : (x >>= f) before = f a after := by
  show (ExceptT.bindCont f (x before).1 : StateM (Progress σ) _) (x before).2 = _
  rw [h]
  rfl

/-- Rewriting that has failed goes no further. -/
theorem bind_of_error {e : RewriteFailure ε} (h : x before = (.error e, after)) :
    (x >>= f) before = (.error e, after) := by
  show (ExceptT.bindCont f (x before).1 : StateM (Progress σ) _) (x before).2 = _
  rw [h]
  rfl

end Rewriting

namespace Rewriter

/-- Carries out a verdict on a node and keeps account of it. What is kept is what the verdict holds,
and is not counted. -/
def carryOut {α : Type} (rw : Rewriter σ ε) (label : String) :
    Verdict α → Progress σ → Option α × Progress σ
  | .keep node, p => (some node, p)
  | .replace new, p =>
    (some new,
      { p with
        count := { p.count with replaced := p.count.replaced + 1 }
        log := p.log ++ [.replaced rw.name label] })
  | .delete, p =>
    (none,
      { p with
        count := { p.count with deleted := p.count.deleted + 1 }
        log := p.log ++ [.deleted rw.name label] })

/-- Hands a node to a hook and carries out its verdict. The result is what takes the place of the
node, if anything does. -/
def apply {α : Type} (rw : Rewriter σ ε) (hook : Hook σ ε α) (label : String) (node : α) :
    Rewriting σ ε (Option α) := fun p =>
  let answer := hook node p.state
  let p := { p with state := answer.state, log := p.log ++ answer.log }
  match answer.result with
  | .error reason => (.error (.gaveUp reason), p)
  | .ok verdict =>
    let (out, p) := rw.carryOut label verdict p
    (.ok out, p)

/-- What has to fill a place. -/
def fill {α : Type} (place : Place) : Option α → Rewriting σ ε α
  | some node => pure node
  | none => throw (.emptied place)

/-- Hands an expression to the hook that deals with it. -/
def applyExpr (rw : Rewriter σ ε) (e : Expr) : Rewriting σ ε (Option Expr) :=
  match e with
  | .call .. => rw.apply rw.call e.kind.label e
  | _ => rw.apply rw.expr e.kind.label e

/-- Hands a statement to the hook that deals with it. -/
def applyStmt (rw : Rewriter σ ε) (s : Stmt) : Rewriting σ ε (Option Stmt) :=
  match s with
  | .define .. => rw.apply rw.define s.kind.label s
  | _ => rw.apply rw.stmt s.kind.label s

/-- Hands a keyword argument to its hook. -/
def applyKeyword (rw : Rewriter σ ε) (k : Keyword) : Rewriting σ ε (Option Keyword) :=
  rw.apply rw.keyword "keyword" k

end Rewriter

mutual

/-- Rewrites an expression. -/
def Expr.rewrite (rw : Rewriter σ ε) : Expr → Rewriting σ ε (Option Expr)
  | .number span value => rw.applyExpr (.number span value)
  | .text span value => rw.applyExpr (.text span value)
  | .name span id => rw.applyExpr (.name span id)
  | .member span receiver id => do
    let receiver ← Rewriter.fill .receiver (← receiver.rewrite rw)
    rw.applyExpr (.member span receiver id)
  | .call span callee args keywords => do
    let callee ← Rewriter.fill .callee (← callee.rewrite rw)
    let args ← rewriteExprs rw args
    let keywords ← rewriteKeywords rw keywords
    rw.applyExpr (.call span callee args keywords)
  | .binary span op left right => do
    let left ← Rewriter.fill .leftOperand (← left.rewrite rw)
    let right ← Rewriter.fill .rightOperand (← right.rewrite rw)
    rw.applyExpr (.binary span op left right)
  | .negate span operand => do
    let operand ← Rewriter.fill .operand (← operand.rewrite rw)
    rw.applyExpr (.negate span operand)
  | .compare span op left right => do
    let left ← Rewriter.fill .leftOperand (← left.rewrite rw)
    let right ← Rewriter.fill .rightOperand (← right.rewrite rw)
    rw.applyExpr (.compare span op left right)

/-- Rewrites positional arguments in turn. -/
def rewriteExprs (rw : Rewriter σ ε) : List Expr → Rewriting σ ε (List Expr)
  | [] => return []
  | e :: es => do
    let e ← e.rewrite rw
    let es ← rewriteExprs rw es
    return e.toList ++ es

/-- Rewrites a keyword argument. -/
def Keyword.rewrite (rw : Rewriter σ ε) : Keyword → Rewriting σ ε (Option Keyword)
  | .mk span name value => do
    let value ← Rewriter.fill .keywordValue (← value.rewrite rw)
    rw.applyKeyword (.mk span name value)

/-- Rewrites keyword arguments in turn. -/
def rewriteKeywords (rw : Rewriter σ ε) : List Keyword → Rewriting σ ε (List Keyword)
  | [] => return []
  | k :: ks => do
    let k ← k.rewrite rw
    let ks ← rewriteKeywords rw ks
    return k.toList ++ ks

end

mutual

/-- Rewrites a statement. -/
def Stmt.rewrite (rw : Rewriter σ ε) : Stmt → Rewriting σ ε (Option Stmt)
  | .define span name params body => do
    let body ← rewriteBlock rw body
    rw.applyStmt (.define span name params body)
  | .give span none => rw.applyStmt (.give span none)
  | .give span (some value) => do
    let value ← Rewriter.fill .returnValue (← value.rewrite rw)
    rw.applyStmt (.give span (some value))
  | .assign span target value => do
    let value ← Rewriter.fill .assignedValue (← value.rewrite rw)
    rw.applyStmt (.assign span target value)
  | .eval span value => do
    let value ← Rewriter.fill .statement (← value.rewrite rw)
    rw.applyStmt (.eval span value)
  | .branch span test body orelse => do
    let test ← Rewriter.fill .branchTest (← test.rewrite rw)
    let body ← rewriteBlock rw body
    let orelse ← rewriteBlock rw orelse
    rw.applyStmt (.branch span test body orelse)
  | .loop span test body => do
    let test ← Rewriter.fill .loopTest (← test.rewrite rw)
    let body ← rewriteBlock rw body
    rw.applyStmt (.loop span test body)
  | .pass span => rw.applyStmt (.pass span)

/-- Rewrites the statements of a block in turn. -/
def rewriteBlock (rw : Rewriter σ ε) : List Stmt → Rewriting σ ε (List Stmt)
  | [] => return []
  | s :: ss => do
    let s ← s.rewrite rw
    let ss ← rewriteBlock rw ss
    return s.toList ++ ss

end

/-- Rewrites a program, starting in the given state. The progress is what it came to, whether or not
it succeeded. -/
def Program.rewrite (rw : Rewriter σ ε) (state : σ) (p : Program) :
    Except (RewriteFailure ε) Program × Progress σ :=
  match (rewriteBlock rw p).run.run { state } with
  | (.error e, progress) => (.error e, progress)
  | (.ok p, progress) =>
    let event := .rewritten rw.name progress.count.replaced progress.count.deleted
    (.ok p, { progress with log := progress.log ++ [event] })

end Stampline
