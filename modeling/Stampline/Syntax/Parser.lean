import Stampline.Syntax.Basic
import Stampline.Token.Scan

/-!
# From tokens to programs

A recursive descent over lexemes. Operators of one strength group to the left, a comparison has at
most one operator, and a unary minus binds less tightly than calls and attributes.

Blocks, `elif` links, operands of a minus, argument lists and parentheses nest; each of them takes
one level from a budget that starts at `maxNesting`. Every recursion of the descent passes through
one of these, so the descent is structural in what is left of the budget. Chains of operators and
of calls do not nest but still make deep trees, hence the height of every expression is bounded as
well.

What it is to read one level deeper, and what becomes of an operand that is made, is up to the way of
reading: the readers of what nests are there for every `Nesting`.

A repetition reads at least one lexeme in each round, so the lexemes at its start bound its rounds:
the argument `bound` of each repetition is that list, and it shrinks from round to round.
-/

namespace Stampline

/-- The deepest nesting, and the greatest height of an expression, that is accepted. -/
def maxNesting : Nat := 200

/-- Why lexemes do not make a program. -/
inductive ParseFault where
  | expected (wanted found : Token)
  | expectedName (found : Token)
  | expectedExpression (found : Token)
  | duplicateParameter (name : String)
  | assignedExpression
  | chainedComparison
  | repeatedKeyword (name : String)
  | positionalAfterKeyword
  | tooHigh
  | tooNested
deriving DecidableEq, Repr

/-- The wording of a fault. -/
def ParseFault.message : ParseFault → String
  | expected wanted found => s!"expected {wanted.describe}, found {found.describe}"
  | expectedName found => s!"expected name, found {found.describe}"
  | expectedExpression found => s!"expected expression, found {found.describe}"
  | duplicateParameter name => s!"duplicate parameter '{name}'"
  | assignedExpression => "cannot assign to expression"
  | chainedComparison => "chained comparisons are not supported"
  | repeatedKeyword name => s!"keyword argument repeated: {name}"
  | positionalAfterKeyword => "positional argument follows keyword argument"
  | tooHigh => s!"expression is nested too deeply (limit {maxNesting})"
  | tooNested => s!"too many nested levels (limit {maxNesting})"

/-- A fault and the position it is found at. -/
structure ParseError where
  /-- The line of the fault. -/
  line : Nat
  /-- Its byte offset in that line. -/
  col : Nat
  /-- What is wrong. -/
  fault : ParseFault
deriving DecidableEq, Repr

/-- What is left to read. -/
structure Input where
  /-- The lexemes not read yet. The end of input is never read past. -/
  rest : List Lexeme
  /-- The span of the last lexeme read, layout aside. -/
  last : Span := .root

/-- The input after its next lexeme. -/
def Input.advance (s : Input) : Input :=
  match s.rest with
  | [] => s
  | l :: rest =>
    if l.token = .endOfInput then s
    else ⟨rest, if l.token.isLayout then s.last else l.span⟩

/-- A reader of syntax: it takes lexemes off the input, or fails. -/
abbrev Parser (α : Type) := StateT Input (Except ParseError) α

namespace Parser

/-! ## Single lexemes -/

/-- The next lexeme. -/
def peek : Parser Lexeme := fun s => .ok (s.rest.headD ⟨.endOfInput, .root⟩, s)

/-- The token after the next one. -/
def peekSecond : Parser Token := fun s => .ok ((s.rest.tail.headD ⟨.endOfInput, .root⟩).token, s)

/-- The lexemes not read yet, as a bound on the rounds of a repetition. -/
def remaining : Parser (List Lexeme) := fun s => .ok (s.rest, s)

/-- The span of the last lexeme read, layout aside. -/
def lastSpan : Parser Span := fun s => .ok (s.last, s)

/-- Fails with a fault at the start of `span`. -/
def failAt {α : Type} (span : Span) (fault : ParseFault) : Parser α :=
  fun _ => .error ⟨span.line, span.col, fault⟩

/-- Fails with a fault at the next lexeme. -/
def fail {α : Type} (fault : ParseFault) : Parser α := do
  failAt (← peek).span fault

/-- Reads the next lexeme. -/
def take : Parser Lexeme := fun s =>
  .ok (s.rest.headD ⟨.endOfInput, .root⟩, s.advance)

/-- Reads the next lexeme if it is `token`. -/
def eat (token : Token) : Parser Bool := do
  if (← peek).token = token then
    let _ ← take
    return true
  return false

/-- Reads the next lexeme, which has to be `token`. -/
def expect (token : Token) : Parser Unit := do
  let next ← peek
  if next.token = token then
    let _ ← take
  else
    failAt next.span (.expected token next.token)

/-- Reads the next lexeme, which has to be a name. -/
def expectName : Parser String := do
  let next ← peek
  match next.token with
  | .name id =>
    let _ ← take
    return id
  | found => failAt next.span (.expectedName found)

/-- Reads parameters up to the closing parenthesis, which is left for the caller. -/
def paramsFrom : List Lexeme → List Param → Parser (List Param)
  | [], before => pure before
  | _ :: bound, before => do
    let start ← peek
    if start.token = .symbol .rightParen then
      return before
    let id ← expectName
    if before.any (·.name == id) then
      failAt start.span (.duplicateParameter id)
    let now := before ++ [⟨id, start.span⟩]
    if ← eat (.symbol .comma) then
      paramsFrom bound now
    else
      return now

/-! ## Nesting -/

/-- An expression and the height of its tree. -/
structure Operand where
  /-- The expression. -/
  expr : Expr
  /-- The height of its tree; a leaf has height one. -/
  height : Nat

/-- A way of reading in which syntax nests. -/
class Nesting (m : Type → Type) where
  /-- Reads one level deeper with a reader, if there is one. -/
  nested {α : Type} : Option (m α) → m α
  /-- Has made an operand. -/
  make : Operand → m Operand

export Nesting (nested make)

/-- There is nothing to read with once the budget of levels is spent. -/
instance : Nesting Parser where
  nested
    | some p => p
    | none => fail .tooNested
  make o := return o

/-! ## Expressions -/

section Readers

variable {m : Type → Type} [Monad m] [MonadLiftT Parser m] [Nesting m]

/-- The new node `expr`, unless it is too high. -/
def node (expr : Expr) (height : Nat) : m Operand := do
  if maxNesting < height then
    failAt (expr.span.getD (← peek).span) .tooHigh
  make ⟨expr, height⟩

/-- The node that `build` makes of two operands. -/
def join (build : Option Span → Expr → Expr → Expr) (left right : Operand) : m Operand :=
  node (build (Span.join left.expr.span right.expr.span) left.expr right.expr)
    (max left.height right.height + 1)

/-- The arguments of a call. -/
structure Arguments where
  /-- The positional arguments. -/
  args : List Expr := []
  /-- The keyword arguments. -/
  keywords : List Keyword := []
  /-- The greatest height among the values. -/
  height : Nat := 0

/-- Reads a positional argument and adds it to those before it. -/
def positional (value : m Operand) (before : Arguments) (start : Span) : m Arguments := do
  if !before.keywords.isEmpty then
    failAt start .positionalAfterKeyword
  let v ← value
  return { before with
    args := before.args ++ [v.expr]
    height := max before.height v.height }

/-- Reads one argument and adds it to those before it. -/
def argument (value : m Operand) (before : Arguments) : m Arguments := do
  let start ← peek
  match start.token, ← peekSecond with
  | .name id, .symbol .assign =>
    let _ ← take
    let _ ← take
    if before.keywords.any (·.name == id) then
      failAt start.span (.repeatedKeyword id)
    let v ← value
    let span := start.span.through (← lastSpan)
    return { before with
      keywords := before.keywords ++ [.mk span id v.expr]
      height := max before.height v.height }
  | _, _ => positional value before start.span

/-- Reads arguments up to the closing parenthesis, which is left for the caller. -/
def argumentsFrom (value : m Operand) : List Lexeme → Arguments → m Arguments
  | [], before => pure before
  | _ :: bound, before => do
    if (← peek).token = .symbol .rightParen then
      return before
    let now ← argument value before
    if ← eat (.symbol .comma) then
      argumentsFrom value bound now
    else
      return now

/-- Reads the arguments of a call and the parenthesis that closes them. -/
def arguments (value : m Operand) : m Arguments := do
  let all ← argumentsFrom value (← remaining) {}
  expect (.symbol .rightParen)
  return all

/-- Reads a literal, a name, or an expression in parentheses. -/
def atom (inner : Option (m Operand)) : m Operand := do
  let start ← take
  match start.token with
  | .integer value => make ⟨.number start.span value, 1⟩
  | .text value => make ⟨.text start.span value, 1⟩
  | .name id => make ⟨.name start.span id, 1⟩
  | .symbol .leftParen =>
    let e ← nested inner
    expect (.symbol .rightParen)
    return e
  | found => failAt start.span (.expectedExpression found)

/-- Reads the calls and attributes that follow an operand. -/
def postfixFrom (inner : Option (m Operand)) (start : Span) :
    List Lexeme → Operand → m Operand
  | [], operand => pure operand
  | _ :: bound, operand => do
    match (← peek).token with
    | .symbol .leftParen =>
      let _ ← take
      let a ← nested (inner.map arguments)
      let call ← node (.call (start.through (← lastSpan)) operand.expr a.args a.keywords)
        (max operand.height a.height + 1)
      postfixFrom inner start bound call
    | .symbol .dot =>
      let _ ← take
      let id ← expectName
      let member ← node (.member (start.through (← lastSpan)) operand.expr id) (operand.height + 1)
      postfixFrom inner start bound member
    | _ => return operand

/-- Reads an atom and the calls and attributes that follow it. -/
def postfixed (inner : Option (m Operand)) : m Operand := do
  let start ← peek
  let operand ← atom inner
  postfixFrom inner start.span (← remaining) operand

/-- Reads a negation or what stands below it. -/
def signed (deeper inner : Option (m Operand)) : m Operand := do
  let start ← peek
  if start.token = .symbol .minus then
    let _ ← take
    let operand ← nested deeper
    node (.negate (start.span.through (← lastSpan)) operand.expr) (operand.height + 1)
  else
    postfixed inner

/-- Reads further operands as long as an operator of `op?` stands before them. -/
def chainFrom (op? : Token → Option BinaryOp) (operand : m Operand) :
    List Lexeme → Operand → m Operand
  | [], left => pure left
  | _ :: bound, left => do
    match op? (← peek).token with
    | none => return left
    | some op =>
      let _ ← take
      let right ← operand
      chainFrom op? operand bound (← join (fun s => .binary s op) left right)

/-- Reads operands joined by the operators of `op?`, grouping to the left. -/
def chain (op? : Token → Option BinaryOp) (operand : m Operand) : m Operand := do
  let left ← operand
  chainFrom op? operand (← remaining) left

/-- The operators of products. -/
def productOp? : Token → Option BinaryOp
  | .symbol .star => some .mul
  | .symbol .slash => some .div
  | .symbol .percent => some .rem
  | _ => none

/-- The operators of sums. -/
def sumOp? : Token → Option BinaryOp
  | .symbol .plus => some .add
  | .symbol .minus => some .sub
  | _ => none

/-- The comparisons. -/
def comparison? : Token → Option Comparison
  | .symbol .equal => some .equal
  | .symbol .notEqual => some .notEqual
  | .symbol .less => some .less
  | .symbol .lessEqual => some .lessEqual
  | .symbol .greater => some .greater
  | .symbol .greaterEqual => some .greaterEqual
  | _ => none

/-- Reads a sum of products of what `operand` reads. -/
def sum (operand : m Operand) : m Operand := chain sumOp? (chain productOp? operand)

/-- Reads a sum, or a comparison of two. -/
def compared (operand : m Operand) : m Operand := do
  let left ← sum operand
  match comparison? (← peek).token with
  | none => return left
  | some op =>
    let _ ← take
    let right ← sum operand
    if (comparison? (← peek).token).isSome then
      fail .chainedComparison
    join (fun s => .compare s op) left right

mutual

/-- Reads an expression with `budget` levels of nesting left. -/
def expression (budget : Nat) : m Operand :=
  match budget with
  | 0 => compared (signed none none)
  | budget + 1 => compared (signed (some (negation budget)) (some (expression budget)))

/-- Reads a negation or what stands below it, with `budget` levels of nesting left. -/
def negation (budget : Nat) : m Operand :=
  match budget with
  | 0 => signed none none
  | budget + 1 => signed (some (negation budget)) (some (expression budget))

end

/-! ## Statements -/

/-- Reads an assignment, or an expression that stands for itself. -/
def assigned (expr : m Operand) (start : Span) : m Stmt := do
  let left ← expr
  if ← eat (.symbol .assign) then
    match left.expr with
    | .name _ target =>
      let value ← expr
      return .assign (start.through (← lastSpan)) target value.expr
    | _ => failAt start .assignedExpression
  else
    return .eval left.expr.span left.expr

/-- Reads a statement of a single line, without the end of that line. -/
def simple (expr : m Operand) : m Stmt := do
  let start ← peek
  match start.token with
  | .reserved .pass =>
    let _ ← take
    return .pass start.span
  | .reserved .give =>
    let _ ← take
    if (← peek).token = .newline then
      return .give (start.span.through (← lastSpan)) none
    let value ← expr
    return .give (start.span.through (← lastSpan)) (some value.expr)
  | _ => assigned expr start.span

/-- Reads a definition. -/
def definition (block : Option (m (List Stmt))) : m Stmt := do
  let start ← take
  let name ← expectName
  expect (.symbol .leftParen)
  let params ← paramsFrom (← remaining) []
  expect (.symbol .rightParen)
  expect (.symbol .colon)
  let body ← nested block
  return .define (start.span.through (← lastSpan)) name params body

/-- Reads the second block of a conditional, if there is one. -/
def alternative (block : Option (m (List Stmt))) (link : Option (m Stmt)) : m (List Stmt) := do
  match (← peek).token with
  | .reserved .elseWhether => (fun s => [s]) <$> nested link
  | .reserved .otherwise =>
    let _ ← take
    expect (.symbol .colon)
    nested block
  | _ => pure []

/-- Reads a conditional that begins with the next lexeme, be it `if` or `elif`. -/
def conditionalOf (expr : m Operand) (block : Option (m (List Stmt)))
    (link : Option (m Stmt)) : m Stmt := do
  let start ← take
  let test ← expr
  expect (.symbol .colon)
  let body ← nested block
  let orelse ← alternative block link
  return .branch (start.span.through (← lastSpan)) test.expr body orelse

/-- Reads a loop. -/
def repetition (expr : m Operand) (block : Option (m (List Stmt))) : m Stmt := do
  let start ← take
  let test ← expr
  expect (.symbol .colon)
  let body ← nested block
  return .loop (start.span.through (← lastSpan)) test.expr body

/-- Reads a statement of a single line and the end of that line. -/
def line (expr : m Operand) : m Stmt := do
  let s ← simple expr
  expect .newline
  return s

/-- Reads a statement. -/
def statementOf (expr : m Operand) (block : Option (m (List Stmt)))
    (link : Option (m Stmt)) : m Stmt := do
  match (← peek).token with
  | .reserved .define => definition block
  | .reserved .whether => conditionalOf expr block link
  | .reserved .repeating => repetition expr block
  | _ => line expr

/-- Reads statements up to the end of their block. -/
def statementsFrom (statement : m Stmt) :
    List Lexeme → List Stmt → m (List Stmt)
  | [], before => pure before.reverse
  | _ :: bound, before => do
    if ← eat .dedent then
      return before.reverse
    let s ← statement
    statementsFrom statement bound (s :: before)

/-- Reads a block: a statement on the same line, or an indented run of statements. -/
def blockOf (expr : m Operand) (statement : m Stmt) : m (List Stmt) := do
  if ← eat .newline then
    expect .indent
    statementsFrom statement (← remaining) []
  else
    return [← line expr]

mutual

/-- Reads a block with `budget` levels of nesting left. -/
def block (budget : Nat) : m (List Stmt) :=
  match budget with
  | 0 => blockOf (expression 0) (statementOf (expression 0) none none)
  | budget + 1 =>
    blockOf (expression (budget + 1))
      (statementOf (expression (budget + 1)) (some (block budget)) (some (conditional budget)))

/-- Reads a conditional with `budget` levels of nesting left. -/
def conditional (budget : Nat) : m Stmt :=
  match budget with
  | 0 => conditionalOf (expression 0) none none
  | budget + 1 =>
    conditionalOf (expression (budget + 1)) (some (block budget)) (some (conditional budget))

end

/-- Reads a statement with `budget` levels of nesting left. -/
def statement (budget : Nat) : m Stmt :=
  match budget with
  | 0 => statementOf (expression 0) none none
  | budget + 1 =>
    statementOf (expression (budget + 1)) (some (block budget)) (some (conditional budget))

/-- Reads the statements of a whole text. -/
def programFrom (statement : m Stmt) : List Lexeme → List Stmt → m Program
  | [], before => pure before.reverse
  | _ :: bound, before => do
    if (← peek).token = .endOfInput then
      return before.reverse
    if ← eat .newline then
      programFrom statement bound before
    else
      let s ← statement
      programFrom statement bound (s :: before)

end Readers

/-- Reads a program in as many rounds as there are lexemes at most. -/
def program (lexemes : List Lexeme) : Parser Program :=
  programFrom (statement maxNesting) lexemes []

end Parser

/-- The program that lexemes make. -/
def parseLexemes (lexemes : List Lexeme) : Except ParseError Program :=
  ((Parser.program lexemes).run ⟨lexemes, .root⟩).map (·.1)

end Stampline
