/-!
# Log events

What the stages report about their work, apart from their results.
-/

namespace Stampline

/-- How much detail an event is. -/
inductive LogLevel where
  | debug | trace
deriving DecidableEq, Repr

/-- Something that a stage reports. -/
inductive LogEvent where
  /-- A source was parsed. -/
  | parsed (statements : Nat)
  /-- The integer literals of a program were observed. -/
  | observed (literals : Nat)
  /-- A call was given a stamp. -/
  | stamped (target : String)
  /-- A function was made to return its last expression. -/
  | returning (function : String)
  /-- A rule replaced a node. -/
  | replaced (rule node : String)
  /-- A rule deleted a node. -/
  | deleted (rule node : String)
  /-- A rule was applied to a whole program. -/
  | rewritten (rule : String) (replaced deleted : Nat)
  /-- Nodes without a span were located. -/
  | located (nodes : Nat)
  /-- A program was lowered. -/
  | lowered (source : String) (functions textBytes bytes : Nat)
  /-- An executable is about to run. -/
  | executing (source : String)
deriving DecidableEq, Repr

namespace LogEvent

/-- How much detail an event is. Single rewrites are details, the rest are not. -/
def level : LogEvent → LogLevel
  | stamped .. | returning .. | replaced .. | deleted .. => .trace
  | _ => .debug

/-- The wording of an event. -/
def message : LogEvent → String
  | parsed n => s!"parsed {n} top-level statements"
  | observed n => s!"observed {n} numeric literals"
  | stamped target => s!"prefixed call to '{target}' with a timestamp"
  | returning f => s!"function '{f}' now returns its last expression"
  | replaced rule node => s!"{rule}: replaced {node}"
  | deleted rule node => s!"{rule}: deleted {node}"
  | rewritten rule new gone => s!"{rule}: {new} nodes replaced, {gone} deleted"
  | located n => s!"repaired {n} node locations"
  | lowered source functions textBytes bytes =>
    s!"lowered {source}: {functions} functions, {textBytes} bytes of string data, " ++
      s!"{bytes} bytes of wasm"
  | executing source => s!"executing {source}"

end LogEvent

/-- Events in the order in which they happened. -/
abbrev Log := List LogEvent

end Stampline
