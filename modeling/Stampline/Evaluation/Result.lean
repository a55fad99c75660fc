import Stampline.Host.Environment

/-!
# Evaluations and their results

An evaluation acts on a store: the globals, and what was printed. It yields a value, or it faults
and keeps what happened before the fault. An evaluation that has no meaning gets stuck, and one that
was not given enough fuel is unfinished; neither is ever mistaken for another result.
-/

namespace Stampline

/-- What one argument of a call of the printing function comes to. -/
inductive Item where
  /-- A literal text. -/
  | text (value : String)
  /-- An integer. -/
  | number (value : Int64)
deriving DecidableEq, Repr

/-- How an item is printed. -/
def Item.print : Item → String
  | text value => value
  | number value => toString value.toInt

/-- One call of the printing function. -/
structure Printout where
  /-- What is printed. -/
  items : List Item
  /-- What stands between two items. -/
  separator : String := " "
  /-- What stands at the end. -/
  terminator : String := "\n"
deriving DecidableEq, Repr

/-- All that a call of the printing function prints. -/
def Printout.print (p : Printout) : String :=
  p.separator.intercalate (p.items.map Item.print) ++ p.terminator

/-- What an evaluation acts on. -/
structure Store where
  /-- The globals. -/
  globals : Bindings := ∅
  /-- The calls of the printing function, the first one first. -/
  printed : List Printout := []
deriving DecidableEq, Repr, Inhabited

/-- All that was printed. -/
def Store.print (s : Store) : String := String.join (s.printed.map Printout.print)

/-- How an evaluation ends. -/
inductive Result (α : Type) where
  /-- It yields a value. -/
  | done (value : α) (store : Store)
  /-- It faults; what happened before stays. -/
  | fault (f : Fault) (store : Store)
  /-- It has no meaning. -/
  | stuck
  /-- There was not enough fuel to tell. -/
  | unfinished
deriving DecidableEq, Repr

/-- An evaluation. -/
def Eval (α : Type) := Store → Result α

namespace Eval

variable {α β : Type}

/-- Yields a value and does nothing else. -/
protected def pure (value : α) : Eval α := fun s => .done value s

/-- Evaluates in turn. Whatever ends the first evaluation early ends both. -/
protected def bind (first : Eval α) (second : α → Eval β) : Eval β := fun s =>
  match first s with
  | .done value s => second value s
  | .fault f s => .fault f s
  | .stuck => .stuck
  | .unfinished => .unfinished

instance : Monad Eval where
  pure := Eval.pure
  bind := Eval.bind

/-- Faults. -/
def fault (f : Fault) : Eval α := fun s => .fault f s

/-- Has no meaning. -/
def stuck : Eval α := fun _ => .stuck

/-- Has run out of fuel. -/
def unfinished : Eval α := fun _ => .unfinished

/-- Yields the result of an operation that may fault. -/
def ofExcept : Except Fault α → Eval α
  | .ok value => Eval.pure value
  | .error f => fault f

/-- Reads a global. -/
def readGlobal (name : String) : Eval Int64 := fun s =>
  match s.globals.get? name with
  | some value => .done value s
  | none => .fault (.undefinedName name) s

/-- Binds a global. -/
def writeGlobal (name : String) (value : Int64) : Eval Unit := fun s =>
  .done () { s with globals := s.globals.set name value }

/-- Prints. -/
def print (p : Printout) : Eval Unit := fun s => .done () { s with printed := s.printed ++ [p] }

@[simp] theorem pure_apply (value : α) (s : Store) : (pure value : Eval α) s = .done value s := rfl

theorem bind_apply (first : Eval α) (second : α → Eval β) (s : Store) :
    (first >>= second) s =
      match first s with
      | .done value s => second value s
      | .fault f s => .fault f s
      | .stuck => .stuck
      | .unfinished => .unfinished := rfl

instance : LawfulMonad Eval :=
  LawfulMonad.mk' Eval
    (fun first => by
      funext s
      show Eval.bind first Eval.pure s = first s
      unfold Eval.bind
      cases first s <;> rfl)
    (fun _ _ => rfl)
    (fun first second third => by
      funext s
      show Eval.bind (Eval.bind first second) third s =
        Eval.bind first (fun v => Eval.bind (second v) third) s
      unfold Eval.bind
      cases first s <;> rfl)

end Eval

end Stampline
