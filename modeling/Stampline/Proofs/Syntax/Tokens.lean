import Stampline.Proofs.Syntax.Induction
import Stampline.Token.Basic

/-!
# The tokens of written programs

What the written form of a program is to the reader of syntax: its tokens, with the layout that its
lines and blocks make.
-/

namespace Stampline

/-- The symbol of an arithmetic operator. -/
def BinaryOp.symbol : BinaryOp → Symbol
  | add => .plus
  | sub => .minus
  | mul => .star
  | div => .slash
  | rem => .percent

/-- The symbol of a comparison. -/
def Comparison.symbol : Comparison → Symbol
  | equal => .equal
  | notEqual => .notEqual
  | less => .less
  | lessEqual => .lessEqual
  | greater => .greater
  | greaterEqual => .greaterEqual

/-- Tokens in parentheses, if what they stand for binds less tightly than its place asks for. -/
def enclosed (least strength : Strength) (ts : List Token) : List Token :=
  if strength.rank < least.rank then .symbol .leftParen :: ts ++ [.symbol .rightParen] else ts

/-- Tokens with commas between them. -/
def separated (parts : List (List Token)) : List Token := [.symbol .comma].intercalate parts

mutual

/-- The tokens of an expression that has no negative numbers. -/
def Expr.tokens : Expr → List Token
  | .number _ value => [.integer value]
  | .text _ value => [.text value]
  | .name _ id => [.name id]
  | .member _ receiver id =>
    enclosed .postfixed receiver.strength receiver.tokens ++ [.symbol .dot, .name id]
  | .call _ callee args keywords =>
    enclosed .postfixed callee.strength callee.tokens ++ .symbol .leftParen ::
      separated (argTokens args ++ keywordTokens keywords) ++ [.symbol .rightParen]
  | .binary _ op left right =>
    enclosed op.strength left.strength left.tokens ++ .symbol op.symbol ::
      enclosed op.strength.tighter right.strength right.tokens
  | .negate _ operand => .symbol .minus :: enclosed .sign operand.strength operand.tokens
  | .compare _ op left right =>
    enclosed .sum left.strength left.tokens ++ .symbol op.symbol ::
      enclosed .sum right.strength right.tokens

/-- The tokens of each of several positional arguments. -/
def argTokens : List Expr → List (List Token)
  | [] => []
  | e :: es => e.tokens :: argTokens es

/-- The tokens of each of several keyword arguments. -/
def keywordTokens : List Keyword → List (List Token)
  | [] => []
  | .mk _ name value :: ks =>
    (.name name :: .symbol .assign :: value.tokens) :: keywordTokens ks

end

/-- The tokens of parameters. -/
def paramTokens (params : List Param) : List Token :=
  separated (params.map fun p => [.name p.name])

/-- The tokens that open an indented block and those that close it, around those of the block. -/
def indented (ts : List Token) : List Token :=
  .symbol .colon :: .newline :: .indent :: ts ++ [.dedent]

mutual

/-- The tokens of a statement. -/
def Stmt.tokens : Stmt → List Token
  | .define _ name params body =>
    .reserved .define :: .name name :: .symbol .leftParen :: paramTokens params ++
      .symbol .rightParen :: indented (blockTokens body)
  | .give _ none => [.reserved .give, .newline]
  | .give _ (some value) => .reserved .give :: value.tokens ++ [.newline]
  | .assign _ target value => .name target :: .symbol .assign :: value.tokens ++ [.newline]
  | .eval _ value => value.tokens ++ [.newline]
  | .branch _ test body orelse =>
    .reserved .whether :: test.tokens ++ indented (blockTokens body) ++ orelseTokens orelse
  | .loop _ test body => .reserved .repeating :: test.tokens ++ indented (blockTokens body)
  | .pass _ => [.reserved .pass, .newline]

/-- The tokens of a block. -/
def blockTokens : List Stmt → List Token
  | [] => []
  | s :: ss => s.tokens ++ blockTokens ss

/-- The tokens of the second block of a conditional. -/
def orelseTokens : List Stmt → List Token
  | [] => []
  | [.branch _ test body orelse] =>
    .reserved .elseWhether :: test.tokens ++ indented (blockTokens body) ++ orelseTokens orelse
  | s :: ss => .reserved .otherwise :: indented (s.tokens ++ blockTokens ss)

end

theorem orelseTokens_of_not_isLink : ∀ {block : List Stmt}, block ≠ [] → ¬IsLink block →
    orelseTokens block = .reserved .otherwise :: indented (blockTokens block)
  | s :: ss, _, hlink => by
    rw [orelseTokens, blockTokens]
    rintro span test body orelse rfl rfl
    exact hlink ⟨span, test, body, orelse, rfl⟩

/-! ## How expressions begin -/

/-- Whether an expression may begin with a token. -/
def Token.beginsExpr : Token → Bool
  | .integer _ | .text _ | .name _ | .symbol .leftParen | .symbol .minus => true
  | _ => false

/-- Tokens begin as those of an expression do: the second is not that of an assignment. -/
def Begin (ts : List Token) : Prop :=
  ∃ t rest, ts = t :: rest ∧ t.beginsExpr = true ∧ rest.head? ≠ some (.symbol .assign)

theorem Begin.append {ts us : List Token} (h : Begin ts)
    (hus : us.head? ≠ some (.symbol .assign)) : Begin (ts ++ us) := by
  obtain ⟨t, rest, rfl, ht, hrest⟩ := h
  refine ⟨t, rest ++ us, rfl, ht, ?_⟩
  cases rest with
  | nil => exact hus
  | cons => exact hrest

/-- A token that expressions may begin with, before what begins as they do. -/
theorem Begin.cons {t : Token} {ts : List Token} (ht : t.beginsExpr = true) (h : Begin ts) :
    Begin (t :: ts) := by
  obtain ⟨u, rest, rfl, hu, -⟩ := h
  refine ⟨t, u :: rest, rfl, ht, fun h => ?_⟩
  rw [Option.some.inj h] at hu
  cases hu

theorem Begin.enclosed {least strength : Strength} {ts : List Token} (h : Begin ts) :
    Begin (enclosed least strength ts) := by
  unfold Stampline.enclosed
  split
  · exact .cons rfl (h.append (by simp))
  · exact h

/-- The tokens of an expression begin as they should. -/
theorem Expr.begin_tokens : ∀ e : Expr, Begin e.tokens
  | .number .. | .text .. | .name .. => ⟨_, _, rfl, rfl, by simp⟩
  | .member _ receiver _ => receiver.begin_tokens.enclosed.append (by simp)
  | .call _ callee _ _ => by
    rw [Expr.tokens, List.append_assoc]
    exact callee.begin_tokens.enclosed.append (by simp)
  | .binary _ op left _ => left.begin_tokens.enclosed.append (by cases op <;> simp [BinaryOp.symbol])
  | .negate _ operand => .cons rfl operand.begin_tokens.enclosed
  | .compare _ op left _ =>
    left.begin_tokens.enclosed.append (by cases op <;> simp [Comparison.symbol])

/-- The tokens of a program. -/
def Program.tokens (p : Program) : List Token := blockTokens p ++ [.endOfInput]

end Stampline
