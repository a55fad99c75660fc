import Stampline.Evaluation.Result

/-!
# Limits

What a program means has no limits, but what runs it has. Limits are known by the functions that they
do not let in: when a function is to be entered, they are asked with all functions that would be live
then, and tell the fault with which it is refused. What waits in a function for a call to come back
takes room as well as its slots do.
-/

namespace Stampline

/-- What a function takes that is live. -/
structure Activation where
  /-- The number of operands that wait for it in the function that called it. -/
  waiting : Nat
  /-- The number of its slots. -/
  slots : Nat
deriving DecidableEq, Repr

/-- What limits say of a function that is to be entered, given the functions that would be live then,
this one first: the fault if it is refused. -/
abbrev Limits := List Activation → Option Fault

namespace Limits

/-- There are no limits. -/
def unlimited : Limits := fun _ => none

/-- The limits let in all that `limits` let in. -/
def Within (limits limits' : Limits) : Prop := ∀ live, limits live = none → limits' live = none

theorem within_unlimited (limits : Limits) : limits.Within unlimited := fun _ _ => rfl

/-- Goes on in a function if it is let in. -/
def enter {α : Type} (limits : Limits) (live : List Activation) (body : Eval α) : Eval α :=
  match limits live with
  | some f => .fault f
  | none => body

section Enter

variable {α : Type} {limits : Limits} {live : List Activation} {body : Eval α}

theorem enter_of_refused {f : Fault} (h : limits live = some f) : limits.enter live body = .fault f := by
  rw [enter, h]

theorem enter_of_free (h : limits live = none) : limits.enter live body = body := by
  rw [enter, h]

end Enter

end Limits

end Stampline
