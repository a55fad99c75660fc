import Stampline.Bindings
import Stampline.Syntax.Targets

/-!
# Definitions

What a call of a function finds. A name in a function is local if it is a parameter or is assigned in
the body, and every local other than a parameter is zero at first. All other names are global. A
function is found in the innermost block around a call that defines it, and it runs in the blocks
around its definition; as locals are not shared between functions, no more than these blocks need be
known of where a definition stands.

A function takes a slot for every local, and one for every value that has to be kept aside: the
arguments of a call are if some of them are passed by name, since these may come in another order than
the parameters, and so is what is printed, since nothing is printed before all of it is known. No two
values share a slot, so that the number of slots can be read off the body.
-/

namespace Stampline

/-- A definition as a call finds it. -/
structure Definition where
  /-- Its parameters. -/
  params : List String
  /-- Its body. -/
  body : List Stmt
  /-- The blocks that its body stands in, the innermost first; the body is the first of them. -/
  around : List (List Stmt)

/-- The parameters and the body of the first definition of a name in a block. -/
def definedIn (name : String) : List Stmt → Option (List String × List Stmt)
  | [] => none
  | .define _ n params body :: ss =>
    if n = name then some (params.map (·.name), body) else definedIn name ss
  | _ :: ss => definedIn name ss

/-- The definition that a name refers to, given the blocks around the place where it is used. -/
def definition? (name : String) : List (List Stmt) → Option Definition
  | [] => none
  | block :: around =>
    match definedIn name block with
    | some (params, body) => some ⟨params, body, body :: block :: around⟩
    | none => definition? name around

/-! ## Locals -/

/-- Binds names to values, one after the other. -/
def Bindings.setAll (b : Bindings) (values : List (String × Int64)) : Bindings :=
  values.foldl (fun b p => b.set p.1 p.2) b

/-- The locals that a call begins with, given its positional and its keyword arguments. There are
none unless every parameter is bound exactly once and nothing else is. -/
def Definition.locals? (d : Definition) (args : List Int64) (keywords : List (String × Int64)) :
    Option Bindings :=
  let bound := d.params.zip args ++ keywords
  if args.length ≤ d.params.length ∧ (bound.map (·.1)).isPerm d.params then
    let zeros := Bindings.setAll ∅ ((targetsIn d.body).map fun name => (name, 0))
    some (zeros.setAll bound)
  else none

/-! ## Slots -/

mutual

/-- The number of values that are kept aside while an expression is evaluated that stands in the blocks
`around`. -/
def Expr.temporaries (around : List (List Stmt)) : Expr → Nat
  | .call _ (.name _ id) args keywords =>
    let kept :=
      if (definition? id around).isNone then args.countP fun e => !e.isText
      else if keywords.isEmpty then 0
      else args.length + keywords.length
    temporariesOf around args + temporariesBy around keywords + kept
  | .binary _ _ left right | .compare _ _ left right =>
    left.temporaries around + right.temporaries around
  | .negate _ operand => operand.temporaries around
  | _ => 0

/-- The number of values that are kept aside for expressions. -/
def temporariesOf (around : List (List Stmt)) : List Expr → Nat
  | [] => 0
  | e :: es => e.temporaries around + temporariesOf around es

/-- The number of values that are kept aside for what keyword arguments pass. -/
def temporariesBy (around : List (List Stmt)) : List Keyword → Nat
  | [] => 0
  | .mk _ _ value :: ks => value.temporaries around + temporariesBy around ks

end

mutual

/-- The number of values that are kept aside in a statement, definitions inside it aside. -/
def Stmt.temporaries (around : List (List Stmt)) : Stmt → Nat
  | .give _ (some e) | .assign _ _ e | .eval _ e => e.temporaries around
  | .branch _ test body orelse =>
    test.temporaries around + (temporariesIn around body + temporariesIn around orelse)
  | .loop _ test body => test.temporaries around + temporariesIn around body
  | _ => 0

/-- The number of values that are kept aside in a block, definitions inside it aside. -/
def temporariesIn (around : List (List Stmt)) : List Stmt → Nat
  | [] => 0
  | s :: ss => s.temporaries around + temporariesIn around ss

end

/-- The slots that a function takes. -/
def Definition.slots (d : Definition) : Nat :=
  (distinctAfter d.params (targetsIn d.body)).length + temporariesIn d.around d.body

/-- The slots that the statements at the level of a program take, where no name is local. -/
def Program.slots (p : Program) : Nat := temporariesIn [p] p

end Stampline
