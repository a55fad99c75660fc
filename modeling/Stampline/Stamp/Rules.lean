import Stampline.Error

/-!
# The rules of stamping

Two rules change a program before it is lowered. A call of the target, which is a plain name, gets a
stamp as an additional first argument. A definition whose body ends in an expression gives the value
of that expression.

Both rules are applied in one pass from the leaves up, so that the expression at the end of a body
may be a call that has its stamp already. The nodes that the rules make stand nowhere.
-/

namespace Stampline

/-- A call with a stamp in front of its arguments, for a call of the target. -/
def withStamp (stamp : String) : Expr → Expr
  | .call _ callee args keywords => .call none callee (.text none stamp :: args) keywords
  | e => e

/-- A body that ends in an expression, made to give the value of that expression. -/
def givingLast? : List Stmt → Option (List Stmt)
  | [] => none
  | [.eval _ value] => some [.give none (some value)]
  | s :: ss => (givingLast? ss).map (s :: ·)

/-- Puts a stamp in front of the arguments of every call of the target. -/
def stampCalls (target : String) : Hook Stamper Error Expr := fun e stamper =>
  if e.isCallOf target then
    match stamper.stamp with
    | (.ok stamp, stamper) =>
      { result := .ok (.replace (withStamp stamp e)), state := stamper, log := [.stamped target] }
    | (.error e, stamper) => { result := .error (.pattern e), state := stamper }
  else { result := .ok (.keep e), state := stamper }

/-- Makes a definition give the value of its last expression. -/
def giveLast : Hook Stamper Error Stmt := fun s stamper =>
  match s with
  | .define span name params body =>
    match givingLast? body with
    | some body =>
      { result := .ok (.replace (.define span name params body))
        state := stamper
        log := [.returning name] }
    | none => { result := .ok (.keep s), state := stamper }
  | _ => { result := .ok (.keep s), state := stamper }

/-- The rules of stamping for the given target. -/
def stampRules (target : String) : Rewriter Stamper Error where
  name := "stamp-rewriter"
  define := giveLast
  call := stampCalls target

end Stampline
