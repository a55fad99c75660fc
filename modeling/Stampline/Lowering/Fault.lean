import Stampline.Syntax.Basic
import Stampline.Host.Interface

/-!
# What cannot be lowered

The rules that a program has to keep before it can be lowered, as the ways of breaking them.
-/

namespace Stampline

/-- Why a program cannot be lowered. -/
inductive LowerFault where
  /-- A definition inside a conditional or a loop. -/
  | misplacedDefinition (function : String)
  /-- A second definition of a name in one scope. -/
  | repeatedDefinition (function : String)
  /-- A function without statements. -/
  | emptyFunction (function : String)
  /-- A second parameter of one name. -/
  | repeatedParameter (param function : String)
  /-- A block without statements. -/
  | emptyBlock
  /-- A return at the level of the program. -/
  | misplacedReturn
  /-- A text where a value is needed. -/
  | misplacedText
  /-- A member of something. -/
  | memberAccess (member : String)
  /-- The name of a function where a value is needed. -/
  | functionAsValue (function : String)
  /-- A call of a member of something. -/
  | methodCall
  /-- A call of what is not a name. -/
  | namelessCall
  /-- A call of a name that no function has. -/
  | unknownFunction (function : String)
  /-- More positional arguments than parameters. -/
  | surplusArguments (function : String) (params given : Nat)
  /-- A keyword argument for a parameter that is not there. -/
  | unknownKeyword (function keyword : String)
  /-- A second argument for one parameter. -/
  | repeatedArgument (function param : String)
  /-- A parameter without an argument. -/
  | missingArgument (function param : String)
  /-- A keyword argument of printing that is not a literal text. -/
  | computedKeyword (keyword : String)
deriving DecidableEq, Repr

/-- The wording of a fault. -/
def LowerFault.message : LowerFault → String
  | misplacedDefinition f =>
    s!"function '{f}' must be defined at module level or directly in a function body"
  | repeatedDefinition f => s!"function '{f}' is already defined in this scope"
  | emptyFunction f => s!"function '{f}' has an empty body"
  | repeatedParameter p f => s!"duplicate parameter '{p}' in function '{f}'"
  | emptyBlock => "block has an empty body"
  | misplacedReturn => "'return' outside function"
  | misplacedText => "string literals are only supported as print arguments"
  | memberAccess member => s!"attribute access '.{member}' is not supported"
  | functionAsValue f => s!"function '{f}' cannot be used as a value"
  | methodCall => "method calls are not supported"
  | namelessCall => "only calls to named functions are supported"
  | unknownFunction f => s!"unknown function '{f}'"
  | surplusArguments f params given =>
    s!"{f}() takes {params} positional argument(s) but {given} were given"
  | unknownKeyword f keyword => s!"{f}() got an unexpected keyword argument '{keyword}'"
  | repeatedArgument f param => s!"{f}() got multiple values for argument '{param}'"
  | missingArgument f param => s!"{f}() missing argument '{param}'"
  | computedKeyword keyword => s!"{printName}() argument '{keyword}' must be a string literal"

/-- A fault and the node it is found at. -/
structure Complaint where
  /-- Where the node stands. -/
  span : Option Span
  /-- What is wrong with it. -/
  fault : LowerFault
deriving DecidableEq, Repr

end Stampline
