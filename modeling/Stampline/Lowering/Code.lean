import Stampline.Lowering.Scope

/-!
# Code

Statements and expressions as instructions. Every value is a word of 64 bits. Inside a function,
parameters and assigned names are locals and all other names are globals; at the level of the
program every name is a global.

An expression leaves its value on the stack and a statement leaves nothing. Texts are referred to by
their contents; where they lie in memory is settled once all code is known.

Temporaries come behind the named locals. The state of `Emit` is the next free slot, so that no two
temporaries of a function share one.
-/

namespace Stampline

open Wasm (Instr)

/-- A word that depends on where texts lie in memory. -/
inductive TextPart where
  /-- Where a text begins. -/
  | offset (text : String)
  /-- The number of bytes of a text. -/
  | size (text : String)
deriving DecidableEq, Repr, Inhabited

/-- An instruction that refers to texts by their contents. -/
abbrev Code := Instr TextPart

/-- What code is emitted for. -/
structure Site where
  /-- The functions of the program. -/
  functions : List Function
  /-- What names of functions mean. -/
  scope : Scope
  /-- The named locals in the order of their slots. -/
  locals : List String
  /-- Whether the code is that of a function. -/
  inFunction : Bool

/-- Code generation: it uses up slots for temporaries, or complains. -/
abbrev Emit (α : Type) := StateT Nat (Except Complaint) α

namespace Emit

/-- Complains. -/
def complain {α : Type} (span : Option Span) (fault : LowerFault) : Emit α :=
  fun _ => .error ⟨span, fault⟩

/-- Takes a slot for a temporary. -/
def fresh : Emit Nat := fun next => .ok (next, next + 1)

end Emit

open Emit

/-- Pushes where a text lies and how long it is. -/
def pushText (text : String) : List Code := [.const32 (.offset text), .const32 (.size text)]

/-- Prints a text. An empty text is not printed at all. -/
def printText (text : String) : List Code :=
  if text.isEmpty then [] else pushText text ++ [.call HostFunction.printText.index]

/-- What a call of the printing function prints at one place. -/
inductive Printed where
  /-- A literal text. -/
  | text (value : String)
  /-- The integer in a local. -/
  | slot (index : Nat)
deriving DecidableEq, Repr

/-- Prints at one place. -/
def Printed.code : Printed → List Code
  | text value => printText value
  | slot index => [.localGet index, .call HostFunction.printInt.index]

/-- Prints places with a separator between them and a terminator at the end. -/
def printCode (separator terminator : String) (places : List Printed) : List Code :=
  ((places.map Printed.code).intersperse (printText separator)).flatten ++ printText terminator

/-- The separator and the terminator of a call of the printing function. -/
def printOptions : List Keyword → String → String → Except Complaint (String × String)
  | [], separator, terminator => .ok (separator, terminator)
  | .mk span name (.text _ value) :: ks, separator, terminator =>
    if name = "sep" then printOptions ks value terminator
    else if name = "end" then printOptions ks separator value
    else .error ⟨span, .unknownKeyword printName name⟩
  | .mk span name _ :: _, _, _ => .error ⟨span, .computedKeyword name⟩

/-- The parameters that keyword arguments are bound to, by position, given the positions that are
bound before. -/
def bindKeywords (f : Function) : List Keyword → List Nat → Except Complaint (List Nat)
  | [], _ => .ok []
  | .mk span name _ :: ks, bound =>
    match f.params.findIdx? (·.name == name) with
    | none => .error ⟨span, .unknownKeyword f.name name⟩
    | some position =>
      if bound.contains position then .error ⟨span, .repeatedArgument f.name name⟩
      else (bindKeywords f ks (position :: bound)).map (position :: ·)

/-- The parameters that the arguments of a call are bound to, by position, in the order of the
source. Every parameter has to be bound exactly once. -/
def bindArguments (span : Option Span) (f : Function) (given : Nat) (keywords : List Keyword) :
    Except Complaint (List Nat) := do
  if f.params.length < given then
    throw ⟨span, .surplusArguments f.name f.params.length given⟩
  let positional := List.range given
  let positions := positional ++ (← bindKeywords f keywords positional)
  match f.params.zipIdx.find? (fun p => !positions.contains p.2) with
  | some (missing, _) => throw ⟨span, .missingArgument f.name missing.name⟩
  | none => return positions

/-- Pushes the arguments of a call in the order of the parameters, given which parameter each of the
slots `temps` is bound to. -/
def pushBound (params : Nat) (positions temps : List Nat) : List Code :=
  (List.range params).map fun p => .localGet (((positions.zip temps).lookup p).getD 0)

/-- The instruction of an arithmetic operator. -/
def BinaryOp.code : BinaryOp → Code
  | add => .numeric (.arith .w64 .add)
  | sub => .numeric (.arith .w64 .sub)
  | mul => .numeric (.arith .w64 .mul)
  | div => .numeric (.arith .w64 .divS)
  | rem => .numeric (.arith .w64 .remS)

/-- The instruction of a comparison. -/
def Comparison.code : Comparison → Code
  | equal => .numeric (.compare .w64 .eq)
  | notEqual => .numeric (.compare .w64 .ne)
  | less => .numeric (.compare .w64 .ltS)
  | lessEqual => .numeric (.compare .w64 .leS)
  | greater => .numeric (.compare .w64 .gtS)
  | greaterEqual => .numeric (.compare .w64 .geS)

/-- Pushes the value of a name. -/
def nameCode (site : Site) (span : Option Span) (id : String) : Emit (List Code) :=
  match site.locals.idxOf? id with
  | some slot => return [.localGet slot]
  | none =>
    if (site.scope.resolve? id).isSome then complain span (.functionAsValue id)
    else return pushText id ++ [.call HostFunction.readGlobal.index]

/-- What a callee stands for. -/
inductive Target where
  /-- A function of the program, and its number. -/
  | function (index : Nat) (f : Function)
  /-- The printing function. -/
  | print

/-- What the callee of a call stands for. The program may define a function of the name by which
the printing function is called. -/
def target (site : Site) (span : Option Span) : Expr → Except Complaint Target
  | .name _ id =>
    match site.scope.resolve? id with
    | some index =>
      match site.functions[index]? with
      | some f => .ok (.function index f)
      | none => .error ⟨span, .unknownFunction id⟩
    | none => if id = printName then .ok .print else .error ⟨span, .unknownFunction id⟩
  | .member .. => .error ⟨span, .methodCall⟩
  | _ => .error ⟨span, .namelessCall⟩

mutual

/-- The code of an expression. -/
def Expr.emit (site : Site) : Expr → Emit (List Code)
  | .number _ value => return [.const64 value]
  | .text span _ => complain span .misplacedText
  | .name span id => nameCode site span id
  | .member span _ id => complain span (.memberAccess id)
  | .call span callee args keywords => do
    match (← target site span callee) with
    | .function index f =>
      let positions ← bindArguments span f args.length keywords
      let call := [.call (HostFunction.count + index)]
      if keywords.isEmpty then
        return (← emitArgs site args) ++ call
      else
        let (code, temps) ← storeArgs site args
        let (keywordCode, keywordTemps) ← storeKeywords site keywords
        return code ++ keywordCode ++ pushBound f.params.length positions (temps ++ keywordTemps) ++
          call
    | .print =>
      let (separator, terminator) ← printOptions keywords " " "\n"
      let (code, places) ← printedArgs site args
      return code ++ printCode separator terminator places ++ [.const64 0]
  | .binary _ op left right => do
    let left ← left.emit site
    let right ← right.emit site
    return left ++ right ++ [op.code]
  | .negate _ operand => do
    return .const64 0 :: (← operand.emit site) ++ [BinaryOp.code .sub]
  | .compare _ op left right => do
    let left ← left.emit site
    let right ← right.emit site
    return left ++ right ++ [op.code, .numeric (.extend false)]

/-- Pushes arguments in turn. -/
def emitArgs (site : Site) : List Expr → Emit (List Code)
  | [] => return []
  | e :: es => do
    let code ← e.emit site
    return code ++ (← emitArgs site es)

/-- Stores arguments in temporaries in turn, and says in which. -/
def storeArgs (site : Site) : List Expr → Emit (List Code × List Nat)
  | [] => return ([], [])
  | e :: es => do
    let code ← e.emit site
    let temp ← fresh
    let (rest, temps) ← storeArgs site es
    return (code ++ .localSet temp :: rest, temp :: temps)

/-- Stores keyword arguments in temporaries in turn, and says in which. -/
def storeKeywords (site : Site) : List Keyword → Emit (List Code × List Nat)
  | [] => return ([], [])
  | .mk _ _ value :: ks => do
    let code ← value.emit site
    let temp ← fresh
    let (rest, temps) ← storeKeywords site ks
    return (code ++ .localSet temp :: rest, temp :: temps)

/-- Stores the arguments of a call of the printing function in temporaries in turn, literal texts
aside, and says what is to be printed. -/
def printedArgs (site : Site) : List Expr → Emit (List Code × List Printed)
  | [] => return ([], [])
  | .text _ value :: es => do
    let (rest, places) ← printedArgs site es
    return (rest, .text value :: places)
  | e :: es => do
    let code ← e.emit site
    let temp ← fresh
    let (rest, places) ← printedArgs site es
    return (code ++ .localSet temp :: rest, .slot temp :: places)

end

mutual

/-- The code of a statement. Definitions have none; their bodies are functions of their own. -/
def Stmt.emit (site : Site) : Stmt → Emit (List Code)
  | .define .. => return []
  | .give span value => do
    if !site.inFunction then complain span .misplacedReturn
    match value with
    | none => return [.const64 0, .ret]
    | some value => return (← value.emit site) ++ [.ret]
  | .assign _ target value =>
    match site.locals.idxOf? target with
    | some slot => do
      return (← value.emit site) ++ [.localSet slot]
    | none => do
      return pushText target ++ (← value.emit site) ++ [.call HostFunction.writeGlobal.index]
  | .eval _ value => do
    return (← value.emit site) ++ [.drop]
  | .branch span test body orelse => do
    let test ← test.emit site
    if body.isEmpty then complain span .emptyBlock
    let hasOrelse := !orelse.isEmpty
    let body ← emitBlock site body
    let orelse ← emitBlock site orelse
    let fork : Code := if hasOrelse then .choose .none body orelse else .when .none body
    return test ++ [.const64 0, Comparison.code .notEqual, fork]
  | .loop span test body => do
    let test ← test.emit site
    if body.isEmpty then complain span .emptyBlock
    let body ← emitBlock site body
    let turn := test ++ [.numeric (.isZero .w64), .brIf 1] ++ body ++ [.br 0]
    return [.block .none [.loop .none turn]]
  | .pass _ => return []

/-- The code of a block. -/
def emitBlock (site : Site) : List Stmt → Emit (List Code)
  | [] => return []
  | s :: ss => do
    let code ← s.emit site
    return code ++ (← emitBlock site ss)

end

/-- The code of a body and the number of its locals, given those that have a name. -/
def Site.body (site : Site) (body : List Stmt) : Except Complaint (List Code × Nat) :=
  (emitBlock site body).run site.locals.length

/-- The code of a function of a program and the number of its locals, parameters among them. A
function that runs off its end leaves zero. -/
def Function.emit (functions : List Function) (f : Function) :
    Except Complaint (List Code × Nat) := do
  let (code, slots) ← Site.body ⟨functions, f.scope, f.locals, true⟩ f.body
  return (code ++ [.const64 0], slots)

/-- The code of the statements of a program and the number of its locals. -/
def Program.emit (p : Program) : Except Complaint (List Code × Nat) :=
  Site.body ⟨p.functions, p.scope, [], false⟩ p

end Stampline
