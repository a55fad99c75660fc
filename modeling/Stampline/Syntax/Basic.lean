import Stampline.Span

/-!
# Programs

The syntax tree of the language. A program is a list of statements. Every statement, parameter,
expression and keyword argument may carry the span it was read from; nodes that a rewrite makes up
start without one.

All values are integers of 64 bits. Texts occur in programs but are not values.
-/

namespace Stampline

/-- The arithmetic operators. -/
inductive BinaryOp where
  | add | sub | mul | div | rem
deriving DecidableEq, Repr

/-- How an arithmetic operator is written. -/
def BinaryOp.spelling : BinaryOp → String
  | add => "+"
  | sub => "-"
  | mul => "*"
  | div => "/"
  | rem => "%"

/-- The comparisons. -/
inductive Comparison where
  | equal | notEqual | less | lessEqual | greater | greaterEqual
deriving DecidableEq, Repr

/-- How a comparison is written. -/
def Comparison.spelling : Comparison → String
  | equal => "=="
  | notEqual => "!="
  | less => "<"
  | lessEqual => "<="
  | greater => ">"
  | greaterEqual => ">="

mutual

/-- An expression. -/
inductive Expr where
  /-- An integer. -/
  | number (span : Option Span) (value : Int64)
  /-- A text. -/
  | text (span : Option Span) (value : String)
  /-- A variable, or the name of a function. -/
  | name (span : Option Span) (id : String)
  /-- A member of what an expression denotes. -/
  | member (span : Option Span) (receiver : Expr) (id : String)
  /-- A call with positional and keyword arguments. -/
  | call (span : Option Span) (callee : Expr) (args : List Expr) (keywords : List Keyword)
  /-- An arithmetic operation. -/
  | binary (span : Option Span) (op : BinaryOp) (left right : Expr)
  /-- A negation. -/
  | negate (span : Option Span) (operand : Expr)
  /-- A comparison. -/
  | compare (span : Option Span) (op : Comparison) (left right : Expr)

/-- An argument that is passed by the name of a parameter. -/
inductive Keyword where
  | mk (span : Option Span) (name : String) (value : Expr)

end

instance : Inhabited Expr := ⟨.number none 0⟩

instance : Inhabited Keyword := ⟨.mk none "" default⟩

/-- A parameter of a function. -/
structure Param where
  /-- Its name. -/
  name : String
  /-- Where it stands. -/
  span : Option Span
deriving DecidableEq, Repr, Inhabited

/-- A statement. -/
inductive Stmt where
  /-- Defines a function. -/
  | define (span : Option Span) (name : String) (params : List Param) (body : List Stmt)
  /-- Leaves a function, with a value or without. -/
  | give (span : Option Span) (value : Option Expr)
  /-- Binds a name to a value. -/
  | assign (span : Option Span) (target : String) (value : Expr)
  /-- Evaluates an expression for its effect. -/
  | eval (span : Option Span) (value : Expr)
  /-- Runs one of two blocks; an absent second block is empty. -/
  | branch (span : Option Span) (test : Expr) (body orelse : List Stmt)
  /-- Runs a block as long as a test holds. -/
  | loop (span : Option Span) (test : Expr) (body : List Stmt)
  /-- Does nothing. -/
  | pass (span : Option Span)
deriving Inhabited

/-- A program: the statements of a source text. -/
abbrev Program := List Stmt

/-- The kinds of nodes, as messages name them. -/
inductive NodeKind where
  | number | text | name | member | call | binary | negate | compare
  | define | give | assign | eval | branch | loop | pass
  | param | keyword
deriving DecidableEq, Repr

/-- What a kind of node is called in a message. -/
def NodeKind.label : NodeKind → String
  | number => "Num"
  | text => "Str"
  | name => "Name"
  | member => "Attribute"
  | call => "Call"
  | binary => "BinOp"
  | negate => "UnaryOp"
  | compare => "Compare"
  | define => "FunctionDef"
  | give => "Return"
  | assign => "Assign"
  | eval => "Expr"
  | branch => "If"
  | loop => "While"
  | pass => "Pass"
  | param => "Param"
  | keyword => "Keyword"

namespace Expr

/-- Where an expression stands. -/
def span : Expr → Option Span
  | number s _ | text s _ | name s _ | member s _ _ | call s _ _ _ | binary s _ _ _
  | negate s _ | compare s _ _ _ => s

/-- Whether an expression is a literal text. -/
def isText : Expr → Bool
  | text .. => true
  | _ => false

theorem isText_eq_false {e : Expr} (h : ∀ span value, e ≠ .text span value) : e.isText = false := by
  cases e with
  | text span value => exact absurd rfl (h span value)
  | _ => rfl

/-- The kind of an expression. -/
def kind : Expr → NodeKind
  | number .. => .number
  | text .. => .text
  | name .. => .name
  | member .. => .member
  | call .. => .call
  | binary .. => .binary
  | negate .. => .negate
  | compare .. => .compare

/-- Whether an expression is a call of the plain name `id`. -/
def isCallOf (id : String) : Expr → Bool
  | call _ (name _ callee) _ _ => callee == id
  | _ => false

end Expr

namespace Keyword

/-- Where a keyword argument stands. -/
def span : Keyword → Option Span
  | mk s _ _ => s

/-- The parameter that a keyword argument names. -/
def name : Keyword → String
  | mk _ n _ => n

/-- The value that a keyword argument passes. -/
def value : Keyword → Expr
  | mk _ _ v => v

end Keyword

namespace Stmt

/-- Where a statement stands. -/
def span : Stmt → Option Span
  | define s _ _ _ | give s _ | assign s _ _ | eval s _ | branch s _ _ _ | loop s _ _ | pass s => s

/-- The kind of a statement. -/
def kind : Stmt → NodeKind
  | define .. => .define
  | give .. => .give
  | assign .. => .assign
  | eval .. => .eval
  | branch .. => .branch
  | loop .. => .loop
  | pass .. => .pass

end Stmt

end Stampline
