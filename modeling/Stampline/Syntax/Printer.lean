import Stampline.Syntax.Basic

/-!
# From programs to text

The written form of a program. Compound statements are always written in block form, indented by
four blanks a level, and an expression is put in parentheses only where it binds less tightly than
its place asks for.
-/

namespace Stampline

/-- How tightly a form of expression binds. -/
inductive Strength where
  | loosest | comparison | sum | product | sign | postfixed | atom
deriving DecidableEq, Repr

namespace Strength

/-- The rank of a strength; a higher rank binds more tightly. -/
def rank : Strength → Nat
  | loosest => 0
  | comparison => 1
  | sum => 2
  | product => 3
  | sign => 4
  | postfixed => 5
  | atom => 6

/-- The next tighter strength. -/
def tighter : Strength → Strength
  | loosest => comparison
  | comparison => sum
  | sum => product
  | product => sign
  | sign => postfixed
  | postfixed => atom
  | atom => atom

end Strength

/-- The strength of an arithmetic operator. -/
def BinaryOp.strength : BinaryOp → Strength
  | add | sub => .sum
  | mul | div | rem => .product

/-- The strength of an expression. A negative number is written with a sign and binds like one. -/
def Expr.strength : Expr → Strength
  | number _ value => if value.toInt < 0 then .sign else .atom
  | text .. | name .. => .atom
  | member .. | call .. => .postfixed
  | negate .. => .sign
  | binary _ op _ _ => op.strength
  | compare .. => .comparison

/-- How a character is written between single quotes. -/
def escaped (c : Char) : String :=
  if c = '\\' then "\\\\"
  else if c = '\x27' then "\\'"
  else if c = '\n' then "\\n"
  else if c = '\t' then "\\t"
  else if c = '\r' then "\\r"
  else if c = '\x00' then "\\0"
  else c.toString

/-- A text as a literal, in single quotes. -/
def quoted (value : String) : String :=
  "'" ++ String.join (value.toList.map escaped) ++ "'"

/-- `body`, put in parentheses if it binds less tightly than its place asks for. -/
def parenthesized (least strength : Strength) (body : String) : String :=
  if strength.rank < least.rank then "(" ++ body ++ ")" else body

mutual

/-- The written form of an expression, without parentheses around it. -/
def Expr.bare : Expr → String
  | .number _ value => toString value.toInt
  | .text _ value => quoted value
  | .name _ id => id
  | .member _ receiver id => parenthesized .postfixed receiver.strength receiver.bare ++ "." ++ id
  | .call _ callee args keywords =>
    parenthesized .postfixed callee.strength callee.bare ++ "(" ++
      ", ".intercalate (argTexts args ++ keywordTexts keywords) ++ ")"
  | .binary _ op left right =>
    parenthesized op.strength left.strength left.bare ++ " " ++ op.spelling ++ " " ++
      parenthesized op.strength.tighter right.strength right.bare
  | .negate _ operand => "-" ++ parenthesized .sign operand.strength operand.bare
  | .compare _ op left right =>
    parenthesized .sum left.strength left.bare ++ " " ++ op.spelling ++ " " ++
      parenthesized .sum right.strength right.bare

/-- The written forms of positional arguments. -/
def argTexts : List Expr → List String
  | [] => []
  | e :: es => e.bare :: argTexts es

/-- The written form of a keyword argument. -/
def Keyword.written : Keyword → String
  | .mk _ name value => name ++ "=" ++ value.bare

/-- The written forms of keyword arguments. -/
def keywordTexts : List Keyword → List String
  | [] => []
  | k :: ks => k.written :: keywordTexts ks

end

/-- The written form of an expression in a place that asks for a strength of at least `least`. -/
def Expr.written (least : Strength) (e : Expr) : String := parenthesized least e.strength e.bare

/-- The blanks at the start of a line that stands `depth` blocks deep. -/
def margin : Nat → String
  | 0 => ""
  | depth + 1 => "    " ++ margin depth

mutual

/-- The lines of a statement that stands `depth` blocks deep. -/
def Stmt.written (depth : Nat) : Stmt → String
  | .define _ name params body =>
    margin depth ++ "def " ++ name ++ "(" ++ ", ".intercalate (params.map Param.name) ++ "):\n" ++
      blockText (depth + 1) body
  | .give _ none => margin depth ++ "return\n"
  | .give _ (some value) => margin depth ++ "return " ++ value.bare ++ "\n"
  | .assign _ target value => margin depth ++ target ++ " = " ++ value.bare ++ "\n"
  | .eval _ value => margin depth ++ value.bare ++ "\n"
  | .branch _ test body orelse =>
    margin depth ++ "if " ++ test.bare ++ ":\n" ++ blockText (depth + 1) body ++
      orelseText depth orelse
  | .loop _ test body =>
    margin depth ++ "while " ++ test.bare ++ ":\n" ++ blockText (depth + 1) body
  | .pass _ => margin depth ++ "pass\n"

/-- The lines of a block that stands `depth` blocks deep. -/
def blockText (depth : Nat) : List Stmt → String
  | [] => ""
  | s :: ss => s.written depth ++ blockText depth ss

/-- The lines of the second block of a conditional. A block that is one conditional is written as
an `elif` link. -/
def orelseText (depth : Nat) : List Stmt → String
  | [] => ""
  | [.branch _ test body orelse] =>
    margin depth ++ "elif " ++ test.bare ++ ":\n" ++ blockText (depth + 1) body ++
      orelseText depth orelse
  | s :: ss => margin depth ++ "else:\n" ++ s.written (depth + 1) ++ blockText (depth + 1) ss

end

/-- The written form of an expression by itself. -/
def Expr.print (e : Expr) : String := e.bare

/-- The written form of a statement by itself. -/
def Stmt.print (s : Stmt) : String := s.written 0

/-- The written form of a program. -/
def Program.print (p : Program) : String := blockText 0 p

end Stampline
