import Stampline.Files.Fault
import Stampline.Token.Scan
import Stampline.Syntax.Parser
import Stampline.Syntax.Rewrite
import Stampline.Stamp.Stamper
import Stampline.Lowering.Lower
import Stampline.Host.Environment

/-!
# Errors

What can go wrong between a source and the end of its run. Each stage has its own kinds of failure;
an error is one of any stage, and `Error.message` is what the user reads.
-/

namespace Stampline

/-- Why a source does not make it to the end of its run. -/
inductive Error where
  /-- It cannot be read. -/
  | unreadable (fault : FileFault)
  /-- It does not consist of tokens. -/
  | scan (e : ScanError)
  /-- Its tokens are not those of a program. -/
  | parse (e : ParseError)
  /-- A rule broke the shape of the program. -/
  | invariant (rule reason : String)
  /-- A node was to be lowered that stands nowhere. -/
  | unlocated (kind : NodeKind)
  /-- Stamps cannot be written. -/
  | pattern (e : BadPattern)
  /-- The program breaks a rule of the language. -/
  | compilation (source : String) (c : Complaint)
  /-- The executable cannot be run. -/
  | instantiation
  /-- The run of the program stopped short. -/
  | execution (fault : Fault)
deriving DecidableEq, Repr

namespace Error

/-- The wording of an error. The reason why an executable cannot be run is not part of it. -/
def message : Error → String
  | unreadable fault => s!"failed to read source: {fault.message}"
  | scan e => s!"lex error at {e.line}:{e.col}: {e.fault.message}"
  | parse e => s!"parse error at {e.line}:{e.col}: {e.fault.message}"
  | invariant rule reason => s!"rewrite rule '{rule}' violated an invariant: {reason}"
  | unlocated kind => s!"node '{kind.label}' reached the backend without a location"
  | pattern e => s!"invalid timestamp format '{e.pattern}'"
  | compilation source c =>
    s!"{source}:{(c.span.getD Span.root).text}: compilation error: {c.fault.message}"
  | instantiation => "failed to instantiate compiled unit"
  | execution fault => fault.message

/-- Whether an error was raised by the program itself while it ran. -/
def isFault : Error → Bool
  | execution _ => true
  | _ => false

/-- The error of a rewrite by the rule of the given name, whose hooks give up with errors. -/
def ofRewrite (rule : String) : RewriteFailure Error → Error
  | .gaveUp e => e
  | .emptied place => .invariant rule s!"the {place.label} cannot be deleted"

/-- The error of a program from the given source that cannot be lowered. -/
def ofLower (source : String) : LowerError → Error
  | .unlocated kind => .unlocated kind
  | .complaint c => .compilation source c

end Error

end Stampline
