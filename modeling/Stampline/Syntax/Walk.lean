import Stampline.Syntax.Basic

/-!
# Walking over a program

A walk shows a program to an observer, node by node. A node comes before everything below it, and
sequences come in the order of the source: callee, positional arguments, keyword arguments; left,
right; test, body, second block. The observer decides at each sight whether the walk goes on below
it.

Some nodes are shown twice, first as a statement or an expression and then as what they are in
particular, so that an observer can look for one kind of node only.
-/

namespace Stampline

/-- What an observer is shown. -/
inductive Sight where
  | program (p : Program)
  | stmt (s : Stmt)
  | define (span : Option Span) (name : String) (params : List Param) (body : List Stmt)
  | expr (e : Expr)
  | number (span : Option Span) (value : Int64)
  | text (span : Option Span) (value : String)
  | name (span : Option Span) (id : String)
  | call (span : Option Span) (callee : Expr) (args : List Expr) (keywords : List Keyword)
  | keyword (k : Keyword)

/-- An observer keeps a state of type `σ`. At each sight it gives its new state and says whether
the walk goes on below. -/
abbrev Observer (σ : Type) := Sight → σ → σ × Bool

variable {σ : Type}

/-- Shows `sight`, and goes on with `below` if the observer wants to. -/
def Observer.meet (see : Observer σ) (sight : Sight) (below : σ → σ) (s : σ) : σ :=
  let (s, goOn) := see sight s
  if goOn then below s else s

mutual

/-- Walks over an expression. -/
def Expr.walk (see : Observer σ) : Expr → σ → σ
  | .number span value => see.meet (.expr (.number span value)) (see.meet (.number span value) id)
  | .text span value => see.meet (.expr (.text span value)) (see.meet (.text span value) id)
  | .name span n => see.meet (.expr (.name span n)) (see.meet (.name span n) id)
  | .member span receiver n => see.meet (.expr (.member span receiver n)) (receiver.walk see)
  | .call span callee args keywords =>
    see.meet (.expr (.call span callee args keywords))
      (see.meet (.call span callee args keywords)
        (fun s => walkKeywords see keywords (walkExprs see args (callee.walk see s))))
  | .binary span op left right =>
    see.meet (.expr (.binary span op left right)) (fun s => right.walk see (left.walk see s))
  | .negate span operand => see.meet (.expr (.negate span operand)) (operand.walk see)
  | .compare span op left right =>
    see.meet (.expr (.compare span op left right)) (fun s => right.walk see (left.walk see s))

/-- Walks over expressions in turn. -/
def walkExprs (see : Observer σ) : List Expr → σ → σ
  | [], s => s
  | e :: es, s => walkExprs see es (e.walk see s)

/-- Walks over a keyword argument. -/
def Keyword.walk (see : Observer σ) : Keyword → σ → σ
  | .mk span name value => see.meet (.keyword (.mk span name value)) (value.walk see)

/-- Walks over keyword arguments in turn. -/
def walkKeywords (see : Observer σ) : List Keyword → σ → σ
  | [], s => s
  | k :: ks, s => walkKeywords see ks (k.walk see s)

end

mutual

/-- Walks over a statement. -/
def Stmt.walk (see : Observer σ) : Stmt → σ → σ
  | .define span name params body =>
    see.meet (.stmt (.define span name params body))
      (see.meet (.define span name params body) (walkBlock see body))
  | .give span none => see.meet (.stmt (.give span none)) id
  | .give span (some value) => see.meet (.stmt (.give span (some value))) (value.walk see)
  | .assign span target value => see.meet (.stmt (.assign span target value)) (value.walk see)
  | .eval span value => see.meet (.stmt (.eval span value)) (value.walk see)
  | .branch span test body orelse =>
    see.meet (.stmt (.branch span test body orelse))
      (fun s => walkBlock see orelse (walkBlock see body (test.walk see s)))
  | .loop span test body =>
    see.meet (.stmt (.loop span test body)) (fun s => walkBlock see body (test.walk see s))
  | .pass span => see.meet (.stmt (.pass span)) id

/-- Walks over the statements of a block in turn. -/
def walkBlock (see : Observer σ) : List Stmt → σ → σ
  | [], s => s
  | stmt :: rest, s => walkBlock see rest (stmt.walk see s)

end

/-- Walks over a program. -/
def Program.walk (see : Observer σ) (p : Program) : σ → σ :=
  see.meet (.program p) (walkBlock see p)

/-- The sights of a walk that does not go on below those that `stop` holds of. -/
def Program.sights (stop : Sight → Bool) (p : Program) : List Sight :=
  (p.walk (fun sight seen => (sight :: seen, !stop sight)) []).reverse

/-! ## Integer literals -/

/-- An integer literal of a program. -/
structure Literal where
  /-- Its value. -/
  value : Int64
  /-- Where it stands. -/
  span : Option Span
deriving DecidableEq, Repr

/-- The observer that notes integer literals, the latest first. -/
def noteLiterals : Observer (List Literal)
  | .number span value, seen => (⟨value, span⟩ :: seen, true)
  | _, seen => (seen, true)

/-- The integer literals of a program in the order of its source. -/
def Program.literals (p : Program) : List Literal := (p.walk noteLiterals []).reverse

end Stampline
