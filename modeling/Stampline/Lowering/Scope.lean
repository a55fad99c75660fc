import Stampline.Lowering.Fault
import Stampline.Syntax.Targets

/-!
# Scopes and functions

A definition stands at the level of the program or directly in the body of another definition, and
its name is known in the whole of the block that holds it. Functions are numbered in the order in
which their definitions begin, those inside a definition right behind it.

A scope tells which functions a name may refer to, from the innermost block outwards.
-/

namespace Stampline

/-- The numbers of the functions of the enclosing blocks by name, the innermost block first. -/
abbrev Scope := List (List (String × Nat))

/-- The number of the function that a name refers to. -/
def Scope.resolve? (scope : Scope) (name : String) : Option Nat :=
  scope.findSome? (·.lookup name)

/-- A function of a program. -/
structure Function where
  /-- Its name. -/
  name : String
  /-- Its parameters. -/
  params : List Param
  /-- Its body. -/
  body : List Stmt
  /-- What names of functions mean in its body. -/
  scope : Scope

mutual

/-- The number of definitions in a statement, itself included. -/
def Stmt.definitions : Stmt → Nat
  | .define _ _ _ body => definitionsIn body + 1
  | _ => 0

/-- The number of definitions in a block, at any depth of definitions. -/
def definitionsIn : List Stmt → Nat
  | [] => 0
  | s :: ss => s.definitions + definitionsIn ss

end

/-- The functions that a block defines, numbered from `next` on. -/
def bindingsFrom (next : Nat) : List Stmt → List (String × Nat)
  | [] => []
  | .define _ name _ body :: ss => (name, next) :: bindingsFrom (next + definitionsIn body + 1) ss
  | _ :: ss => bindingsFrom next ss

mutual

/-- The functions of a statement that stands in `scope`, numbered from `next` on. -/
def Stmt.functions (scope : Scope) (next : Nat) : Stmt → List Function
  | .define _ name params body =>
    let inner := bindingsFrom (next + 1) body :: scope
    ⟨name, params, body, inner⟩ :: functionsIn inner (next + 1) body
  | _ => []

/-- The functions of a block whose scope is `scope`, numbered from `next` on. -/
def functionsIn (scope : Scope) (next : Nat) : List Stmt → List Function
  | [] => []
  | s :: ss => s.functions scope next ++ functionsIn scope (next + s.definitions) ss

end

/-- What names of functions mean at the level of a program. -/
def Program.scope (p : Program) : Scope := [bindingsFrom 0 p]

/-- The functions of a program in the order of their numbers. -/
def Program.functions (p : Program) : List Function := functionsIn p.scope 0 p

/-! ## Well-placed definitions -/

/-- Complains about the first parameter that has the name of one before it. -/
def checkParams (function : String) (before : List String) : List Param → Except Complaint Unit
  | [] => .ok ()
  | p :: ps =>
    if before.contains p.name then .error ⟨p.span, .repeatedParameter p.name function⟩
    else checkParams function (p.name :: before) ps

mutual

/-- Complains about the first definition in a statement that breaks a rule. `known` are the names
defined before it in the block, and `allowed` says whether a definition may stand there. -/
def Stmt.checkDefinitions (allowed : Bool) (known : List String) : Stmt → Except Complaint Unit
  | .define span name params body =>
    if !allowed then .error ⟨span, .misplacedDefinition name⟩
    else if known.contains name then .error ⟨span, .repeatedDefinition name⟩
    else if body.isEmpty then .error ⟨span, .emptyFunction name⟩
    else
      match checkParams name [] params with
      | .error c => .error c
      | .ok () => checkDefinitionsIn true [] body
  | .branch _ _ body orelse =>
    match checkDefinitionsIn false [] body with
    | .error c => .error c
    | .ok () => checkDefinitionsIn false [] orelse
  | .loop _ _ body => checkDefinitionsIn false [] body
  | _ => .ok ()

/-- Complains about the first definition in a block that breaks a rule. -/
def checkDefinitionsIn (allowed : Bool) (known : List String) : List Stmt → Except Complaint Unit
  | [] => .ok ()
  | s :: ss =>
    match s.checkDefinitions allowed known with
    | .error c => .error c
    | .ok () =>
      let known := match s with
        | .define _ name _ _ => name :: known
        | _ => known
      checkDefinitionsIn allowed known ss

end

/-! ## Locals -/

/-- The locals of a function in the order of their slots: its parameters, then the names that its
body assigns. -/
def Function.locals (f : Function) : List String :=
  distinctAfter (f.params.map (·.name)) (targetsIn f.body)

end Stampline
