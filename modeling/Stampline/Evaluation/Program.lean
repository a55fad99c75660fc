import Stampline.Evaluation.Arithmetic
import Stampline.Evaluation.Definition
import Stampline.Evaluation.Limits
import Stampline.Host.Interface

/-!
# The meaning of programs

What a program does, said of its tree. Statements are executed in turn, and operands and arguments
are evaluated from left to right, each of them once.

`fuel` bounds the depth of the recursion and the number of rounds of every loop. `live` are the
functions that are live, that of the program itself among them, and `waiting` is the number of operands
that wait where an expression stands. Both are there for the limits alone.
-/

namespace Stampline

/-! ## Printing -/

/-- The printout of items under the options that keyword arguments give. A later option overrides an
earlier one, and there are no options other than the separator and the terminator. -/
def Printout.withOptions? (p : Printout) : List Keyword → Option Printout
  | [] => some p
  | .mk _ name (.text _ value) :: ks =>
    if name = "sep" then { p with separator := value }.withOptions? ks
    else if name = "end" then { p with terminator := value }.withOptions? ks
    else none
  | _ :: _ => none

/-! ## Evaluation -/

/-- How a statement inside a function goes on. -/
inductive Flow where
  /-- With the next statement. -/
  | next (locals : Bindings)
  /-- It leaves the function with a value. -/
  | leave (value : Int64)
deriving DecidableEq, Repr

/-- Executes statements in turn until one leaves the function. -/
def executeAll (execute : Bindings → Stmt → Eval Flow) (locals : Bindings) :
    List Stmt → Eval Flow
  | [] => pure (.next locals)
  | s :: ss => do
    match ← execute locals s with
    | .next locals => executeAll execute locals ss
    | .leave value => return .leave value

/-- The item that an argument of the printing function comes to. A literal text is not evaluated. -/
def Item.ofArgument (evaluate : Expr → Eval Int64) : Expr → Eval Item
  | .text _ value => return .text value
  | e => return .number (← evaluate e)

/-- Evaluates expressions in turn. Behind each of them `kept` operands more wait. -/
def evaluateAll (evaluate : Nat → Expr → Eval Int64) (kept waiting : Nat) :
    List Expr → Eval (List Int64)
  | [] => pure []
  | e :: es => do
    let value ← evaluate waiting e
    return value :: (← evaluateAll evaluate kept (waiting + kept) es)

mutual

/-- Evaluates an expression that stands in the blocks `around`. An operand waits for those behind it.
So do the arguments of a call, unless they are put aside. -/
def Expr.evaluate (limits : Limits) (fuel : Nat) (live : List Activation) (waiting : Nat)
    (around : List (List Stmt)) (locals : Bindings) (e : Expr) : Eval Int64 :=
  match fuel with
  | 0 => .unfinished
  | fuel + 1 =>
    match e with
    | .number _ value => pure value
    | .name _ id =>
      match locals.get? id with
      | some value => pure value
      | none => if (definition? id around).isSome then .stuck else .readGlobal id
    | .call _ (.name _ id) args keywords =>
      match definition? id around with
      | some d => do
        let evaluate := fun waiting e => Expr.evaluate limits fuel live waiting around locals e
        let values ← evaluateAll evaluate (if keywords.isEmpty then 1 else 0) waiting args
        let bound ← evaluateAll evaluate 0 waiting (keywords.map (·.value))
        match d.locals? values ((keywords.map (·.name)).zip bound) with
        | some locals => d.call limits fuel live waiting locals
        | none => .stuck
      | none =>
        if id = printName then do
          let items ← args.mapM (Item.ofArgument fun e =>
            e.evaluate limits fuel live waiting around locals)
          match Printout.withOptions? { items } keywords with
          | some p => do
            Eval.print p
            return 0
          | none => .stuck
        else .stuck
    | .binary _ op left right => do
      let a ← left.evaluate limits fuel live waiting around locals
      let b ← right.evaluate limits fuel live (waiting + 1) around locals
      .ofExcept (op.apply a b)
    -- It is taken off zero, which waits.
    | .negate _ operand => do
      let a ← operand.evaluate limits fuel live (waiting + 1) around locals
      return wrap (-a.toInt)
    | .compare _ op left right => do
      let a ← left.evaluate limits fuel live waiting around locals
      let b ← right.evaluate limits fuel live (waiting + 1) around locals
      return if op.holds a b then 1 else 0
    | _ => .stuck

/-- Enters a function for which `waiting` operands wait, and runs its body. A function that runs off
its end yields zero. -/
def Definition.call (limits : Limits) (fuel : Nat) (live : List Activation) (waiting : Nat)
    (d : Definition) (locals : Bindings) : Eval Int64 :=
  match fuel with
  | 0 => .unfinished
  | fuel + 1 =>
    let live := ⟨waiting, d.slots⟩ :: live
    limits.enter live do
      match ← executeAll (fun locals s => s.execute limits fuel live d.around locals) locals
        d.body with
      | .next _ => return 0
      | .leave value => return value

/-- Executes a statement that stands in the blocks `around`. No operand waits between statements. The
name of a global that is assigned waits for the value: where it begins, and how long it is. -/
def Stmt.execute (limits : Limits) (fuel : Nat) (live : List Activation)
    (around : List (List Stmt)) (locals : Bindings) (s : Stmt) : Eval Flow :=
  match fuel with
  | 0 => .unfinished
  | fuel + 1 =>
    match s with
    | .define .. | .pass _ => pure (.next locals)
    | .give _ none => pure (.leave 0)
    | .give _ (some e) => do
      let value ← e.evaluate limits fuel live 0 around locals
      return .leave value
    | .assign _ target e =>
      if (locals.get? target).isSome then do
        let value ← e.evaluate limits fuel live 0 around locals
        return .next (locals.set target value)
      else do
        let value ← e.evaluate limits fuel live 2 around locals
        Eval.writeGlobal target value
        return .next locals
    | .eval _ e => do
      let _ ← e.evaluate limits fuel live 0 around locals
      return .next locals
    | .branch _ test body orelse => do
      let value ← test.evaluate limits fuel live 0 around locals
      executeAll (fun locals s => s.execute limits fuel live around locals) locals
        (if value = 0 then orelse else body)
    | .loop span test body => do
      let value ← test.evaluate limits fuel live 0 around locals
      if value = 0 then
        return .next locals
      else
        match ← executeAll (fun locals s => s.execute limits fuel live around locals) locals body with
        | .next locals => Stmt.execute limits fuel live around locals (.loop span test body)
        | .leave value => return .leave value

end

/-- What a program does within limits. All names at its level are global, and there is no function to
leave. -/
def Program.meaning (p : Program) (limits : Limits) (fuel : Nat) : Eval Unit :=
  let live := [⟨0, p.slots⟩]
  limits.enter live do
    match ← executeAll (fun locals s => s.execute limits fuel live [p] locals) ∅ p with
    | .next _ => return
    | .leave _ => .stuck

end Stampline
