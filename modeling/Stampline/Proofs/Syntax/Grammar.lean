import Stampline.Proofs.Syntax.Levels

/-!
# The grammar

Which lexemes make up which programs, said without a reader. Each form of the syntax is a relation
between the lexemes of a place and the tree that they make. The relations for expressions have the
strength that the place asks for as an index: a place that asks for some strength takes what a place
that asks for the next tighter one takes.

The index `b` counts the levels of nesting that are left. Blocks, `elif` links, operands of a minus,
argument lists and parentheses each take one. How high expressions may be is no matter of the
grammar.

A node stands where its lexemes stand, except that operators and expression statements do not count
parentheses around their operands.
-/

namespace Stampline

open Stampline.Parser

/-! ## Where lexemes stand -/

/-- Where the last of the lexemes stands that is not layout; `last` if there is none. -/
def lastOf (last : Span) : List Lexeme → Span
  | [] => last
  | l :: ls => lastOf (if l.token.isLayout then last else l.span) ls

/-- The stretch of text from the first lexeme to the last one that is not layout. -/
def stretch : List Lexeme → Span
  | [] => .root
  | l :: ls => l.span.through (lastOf l.span ls)

theorem lastOf_append (last : Span) (ls ls' : List Lexeme) :
    lastOf last (ls ++ ls') = lastOf (lastOf last ls) ls' := by
  induction ls generalizing last with
  | nil => rfl
  | cons l ls ih => exact ih _

/-! ## Expressions -/

mutual

/-- `DerivesExpr b k used e`: the lexemes `used` are the expression `e` in a place that asks for the
strength `k`, with `b` levels of nesting left. -/
inductive DerivesExpr : Nat → Strength → List Lexeme → Expr → Prop where
  | number {b span value} : DerivesExpr b .atom [⟨.integer value, span⟩] (.number span value)
  | text {b span value} : DerivesExpr b .atom [⟨.text value, span⟩] (.text span value)
  | name {b span id} : DerivesExpr b .atom [⟨.name id, span⟩] (.name span id)
  | parens {b used e opening closing} (h : DerivesExpr b .loosest used e) :
      DerivesExpr (b + 1) .atom
        (⟨.symbol .leftParen, opening⟩ :: (used ++ [⟨.symbol .rightParen, closing⟩])) e
  | member {b used ls e dot id span} (h : DerivesExpr b .postfixed ls e)
      (hused : used = ls ++ [⟨.symbol .dot, dot⟩, ⟨.name id, span⟩]) :
      DerivesExpr b .postfixed used (.member (stretch used) e id)
  | call {b used ls e inside args keywords opening closing}
      (hcallee : DerivesExpr (b + 1) .postfixed ls e) (hargs : DerivesArgs b inside args keywords)
      (hused : used =
        ls ++ ⟨.symbol .leftParen, opening⟩ :: (inside ++ [⟨.symbol .rightParen, closing⟩])) :
      DerivesExpr (b + 1) .postfixed used (.call (stretch used) e args keywords)
  | negate {b used ls e span} (h : DerivesExpr b .sign ls e)
      (hused : used = ⟨.symbol .minus, span⟩ :: ls) :
      DerivesExpr (b + 1) .sign used (.negate (stretch used) e)
  | binary {b op ls left rs right span} (hleft : DerivesExpr b op.strength ls left)
      (hright : DerivesExpr b op.strength.tighter rs right) :
      DerivesExpr b op.strength (ls ++ ⟨.symbol op.symbol, span⟩ :: rs)
        (.binary (Span.join left.span right.span) op left right)
  | compare {b op ls left rs right span} (hleft : DerivesExpr b .sum ls left)
      (hright : DerivesExpr b .sum rs right) :
      DerivesExpr b .comparison (ls ++ ⟨.symbol op.symbol, span⟩ :: rs)
        (.compare (Span.join left.span right.span) op left right)
  | loosen {b k used e} (h : DerivesExpr b k.tighter used e) : DerivesExpr b k used e

/-- `DerivesArgs b used args keywords`: the lexemes `used` are arguments with commas between them,
and maybe one behind them. No two have the same name, and those without a name come first. -/
inductive DerivesArgs : Nat → List Lexeme → List Expr → List Keyword → Prop where
  | nil {b} : DerivesArgs b [] [] []
  | positional {b ls e rest args keywords} (h : DerivesExpr b .loosest ls e)
      (hrest : DerivesMoreArgs b rest args keywords) :
      DerivesArgs b (ls ++ rest) (e :: args) keywords
  | keyword {b used ls e rest keywords id span assign} (h : DerivesExpr b .loosest ls e)
      (hused : used = ⟨.name id, span⟩ :: ⟨.symbol .assign, assign⟩ :: ls)
      (hrest : DerivesMoreArgs b rest [] keywords) (hnew : id ∉ keywords.map Keyword.name) :
      DerivesArgs b (used ++ rest) [] (.mk (stretch used) id e :: keywords)

/-- What comes behind an argument: nothing, or a comma and the arguments behind it. -/
inductive DerivesMoreArgs : Nat → List Lexeme → List Expr → List Keyword → Prop where
  | nil {b} : DerivesMoreArgs b [] [] []
  | cons {b rest args keywords span} (h : DerivesArgs b rest args keywords) :
      DerivesMoreArgs b (⟨.symbol .comma, span⟩ :: rest) args keywords

end

/-! ## Statements -/

mutual

/-- The lexemes are parameters with commas between them, and maybe one behind them. No two have the
same name. -/
inductive DerivesParams : List Lexeme → List Param → Prop where
  | nil : DerivesParams [] []
  | cons {rest params id span} (hrest : DerivesMoreParams rest params)
      (hnew : id ∉ params.map Param.name) :
      DerivesParams (⟨.name id, span⟩ :: rest) (⟨id, span⟩ :: params)

/-- What comes behind a parameter: nothing, or a comma and the parameters behind it. -/
inductive DerivesMoreParams : List Lexeme → List Param → Prop where
  | nil : DerivesMoreParams [] []
  | cons {rest params span} (h : DerivesParams rest params) :
      DerivesMoreParams (⟨.symbol .comma, span⟩ :: rest) params

end

/-- The lexemes are a statement of a single line, without the end of that line. What is assigned to
is a name, which may stand in parentheses. -/
inductive DerivesSimple (b : Nat) : List Lexeme → Stmt → Prop where
  | pass {span} : DerivesSimple b [⟨.reserved .pass, span⟩] (.pass span)
  | giveZero {span} : DerivesSimple b [⟨.reserved .give, span⟩] (.give span none)
  | give {used ls e span} (h : DerivesExpr b .loosest ls e)
      (hused : used = ⟨.reserved .give, span⟩ :: ls) :
      DerivesSimple b used (.give (stretch used) (some e))
  | assign {used ls place id rs e span} (htarget : DerivesExpr b .loosest ls (.name place id))
      (h : DerivesExpr b .loosest rs e) (hused : used = ls ++ ⟨.symbol .assign, span⟩ :: rs) :
      DerivesSimple b used (.assign (stretch used) id e)
  | eval {used e} (h : DerivesExpr b .loosest used e) : DerivesSimple b used (.eval e.span e)

mutual

/-- The lexemes are a statement. -/
inductive DerivesStmt : Nat → List Lexeme → Stmt → Prop where
  | line {b ls s span} (h : DerivesSimple b ls s) : DerivesStmt b (ls ++ [⟨.newline, span⟩]) s
  | define {b used inside params ls body define id name opening closing colon}
      (hparams : DerivesParams inside params) (hbody : DerivesSuite b ls body)
      (hused : used = ⟨.reserved .define, define⟩ :: ⟨.name id, name⟩ ::
        ⟨.symbol .leftParen, opening⟩ ::
          (inside ++ ⟨.symbol .rightParen, closing⟩ :: ⟨.symbol .colon, colon⟩ :: ls)) :
      DerivesStmt (b + 1) used (.define (stretch used) id params body)
  | branch {b used s} (h : DerivesBranch b .whether used s) : DerivesStmt b used s
  | loop {b used ts test ls body word colon} (htest : DerivesExpr (b + 1) .loosest ts test)
      (hbody : DerivesSuite b ls body)
      (hused : used = ⟨.reserved .repeating, word⟩ :: (ts ++ ⟨.symbol .colon, colon⟩ :: ls)) :
      DerivesStmt (b + 1) used (.loop (stretch used) test body)

/-- The lexemes are a conditional that begins with `word`, be it `if` or `elif`. -/
inductive DerivesBranch : Nat → Reserved → List Lexeme → Stmt → Prop where
  | mk {b word used ts test ls body rs orelse span colon}
      (htest : DerivesExpr (b + 1) .loosest ts test) (hbody : DerivesSuite b ls body)
      (horelse : DerivesElse (b + 1) rs orelse)
      (hused : used = ⟨.reserved word, span⟩ :: (ts ++ ⟨.symbol .colon, colon⟩ :: (ls ++ rs))) :
      DerivesBranch (b + 1) word used (.branch (stretch used) test body orelse)

/-- The lexemes are the second block of a conditional. A link is a block that consists of another
conditional. -/
inductive DerivesElse : Nat → List Lexeme → List Stmt → Prop where
  | absent {b} : DerivesElse b [] []
  | link {b used s} (h : DerivesBranch b .elseWhether used s) : DerivesElse (b + 1) used [s]
  | otherwise {b ls block word colon} (h : DerivesSuite b ls block) :
      DerivesElse (b + 1) (⟨.reserved .otherwise, word⟩ :: ⟨.symbol .colon, colon⟩ :: ls) block

/-- The lexemes are a block behind its colon. -/
inductive DerivesSuite : Nat → List Lexeme → List Stmt → Prop where
  | line {b ls s span} (h : DerivesSimple b ls s) : DerivesSuite b (ls ++ [⟨.newline, span⟩]) [s]
  | block {b ls block newline indent dedent} (h : DerivesBlock b ls block) (hne : block ≠ []) :
      DerivesSuite b
        (⟨.newline, newline⟩ :: ⟨.indent, indent⟩ :: (ls ++ [⟨.dedent, dedent⟩])) block

/-- The lexemes are the statements of an indented block. -/
inductive DerivesBlock : Nat → List Lexeme → List Stmt → Prop where
  | nil {b} : DerivesBlock b [] []
  | cons {b ls s rest ss} (h : DerivesStmt b ls s) (hrest : DerivesBlock b rest ss) :
      DerivesBlock b (ls ++ rest) (s :: ss)

end

/-- The lexemes are a whole program: statements and empty lines, and the end of the input. -/
inductive DerivesProgram : List Lexeme → Program → Prop where
  | done {span} : DerivesProgram [⟨.endOfInput, span⟩] []
  | newline {span rest p} (h : DerivesProgram rest p) :
      DerivesProgram (⟨.newline, span⟩ :: rest) p
  | stmt {ls s rest p} (h : DerivesStmt maxNesting ls s) (hrest : DerivesProgram rest p) :
      DerivesProgram (ls ++ rest) (s :: p)

/-! ## How lexemes begin -/

/-- The tokens of lexemes. -/
abbrev tokensOf (ls : List Lexeme) : List Token := ls.map (·.token)

theorem tokensOf_append (ls ls' : List Lexeme) :
    tokensOf (ls ++ ls') = tokensOf ls ++ tokensOf ls' := List.map_append

theorem BinaryOp.symbol_ne_assign (op : BinaryOp) : op.symbol ≠ .assign := by
  cases op <;> simp [BinaryOp.symbol]

theorem Comparison.symbol_ne_assign (op : Comparison) : op.symbol ≠ .assign := by
  cases op <;> simp [Comparison.symbol]

theorem head_ne_assign {symbol : Symbol} {ts : List Token} (h : symbol ≠ .assign) :
    (Token.symbol symbol :: ts).head? ≠ some (.symbol .assign) := by
  simpa using h

/-- A token that expressions may begin with begins one by itself. -/
theorem Begin.singleton {t : Token} (ht : t.beginsExpr = true) : Begin [t] :=
  ⟨t, [], rfl, ht, by simp⟩

/-- The lexemes of an expression begin as those of expressions do. -/
theorem DerivesExpr.begin {b : Nat} {k : Strength} {used : List Lexeme} {e : Expr} :
    DerivesExpr b k used e → Begin (tokensOf used)
  | .number | .text | .name => .singleton rfl
  | .parens h => by
    rw [tokensOf, List.map_cons, List.map_append]
    exact (h.begin.append (head_ne_assign (by decide))).cons rfl
  | .member h hused => by
    rw [hused, tokensOf_append]
    exact h.begin.append (head_ne_assign (by decide))
  | .call h _ hused => by
    rw [hused, tokensOf_append]
    exact h.begin.append (head_ne_assign (by decide))
  | .negate h hused => by
    rw [hused]
    exact h.begin.cons rfl
  | @DerivesExpr.binary _ op _ _ _ _ _ h _ => by
    rw [tokensOf_append]
    exact h.begin.append (head_ne_assign op.symbol_ne_assign)
  | @DerivesExpr.compare _ op _ _ _ _ _ h _ => by
    rw [tokensOf_append]
    exact h.begin.append (head_ne_assign op.symbol_ne_assign)
  | .loosen h => h.begin

/-- A conditional begins with its word. -/
theorem DerivesBranch.head {b : Nat} {word : Reserved} {used : List Lexeme} {s : Stmt}
    (ts : List Token) (h : DerivesBranch b word used s) :
    ∃ us, tokensOf used ++ ts = .reserved word :: us := by
  cases h with
  | mk _ _ _ hused => exact ⟨_, congrArg (fun ls => tokensOf ls ++ ts) hused⟩

theorem DerivesStmt.ne_nil {b : Nat} {used : List Lexeme} {s : Stmt} (h : DerivesStmt b used s) :
    used ≠ [] := by
  cases h with
  | line => simp
  | define _ _ hused => simp [hused]
  | branch h =>
    cases h with
    | mk _ _ _ hused => simp [hused]
  | loop _ _ hused => simp [hused]

end Stampline
