/-!
# Text without control sequences

A terminal takes some characters as orders: a single control character, or a sequence that begins
with an escape. What is left of a text when these are taken out is what can be read.

The reader of a terminal is a finite machine. Here it goes over a text in one of two ways. While it
shows text it looks for the first character that is not to be shown; while it hides text it follows
the sequence that it is in, and goes back to showing text with the first character that belongs to
none. White space that a terminal obeys inside a sequence is text as well.
-/

namespace Stampline.Text

/-- Where a terminal is in a control sequence. -/
inductive TerminalState where
  /-- In no sequence. -/
  | ground
  /-- Behind an escape. -/
  | escape
  /-- In a short sequence. -/
  | escapeIntermediate
  /-- At the beginning of a sequence with parameters. -/
  | controlEntry
  /-- In its parameters. -/
  | controlParameters
  /-- Behind its parameters. -/
  | controlIntermediate
  /-- In such a sequence that is malformed. -/
  | controlIgnored
  /-- At the beginning of a device string. -/
  | deviceEntry
  /-- In its parameters. -/
  | deviceParameters
  /-- Behind its parameters. -/
  | deviceIntermediate
  /-- In a device string that is malformed. -/
  | deviceIgnored
  /-- In the data of a device string. -/
  | deviceData
  /-- In a string for the system. -/
  | system
  /-- In a string that means nothing. -/
  | meaningless
deriving DecidableEq, Repr

/-- White space that a terminal obeys. -/
def isObeyedBlank (c : Char) : Bool := c = '\t' || c = '\n' || c = '\x0c' || c = '\r'

namespace TerminalState

/-- The state behind an ASCII character, and whether it is to be shown. -/
def next (s : TerminalState) (c : Char) : TerminalState × Bool :=
  if c = '\x18' ∨ c = '\x1a' then (ground, false)
  else if c = '\x1b' then (escape, false)
  else
    match s with
    | ground => (ground, isObeyedBlank c || decide (' ' ≤ c ∧ c < '\x7f'))
    | escape =>
      if c < ' ' then (escape, isObeyedBlank c)
      else if c < '0' then (escapeIntermediate, false)
      else if c = '[' then (controlEntry, false)
      else if c = ']' then (system, false)
      else if c = 'P' then (deviceEntry, false)
      else if c = 'X' ∨ c = '^' ∨ c = '_' then (meaningless, false)
      else if c < '\x7f' then (ground, false)
      else (escape, false)
    | escapeIntermediate =>
      if c < ' ' then (escapeIntermediate, isObeyedBlank c)
      else if c < '0' ∨ c = '\x7f' then (escapeIntermediate, false)
      else (ground, false)
    | controlEntry =>
      if c < ' ' then (controlEntry, isObeyedBlank c)
      else if c < '0' then (controlIntermediate, false)
      else if c < '@' then (controlParameters, false)
      else if c < '\x7f' then (ground, false)
      else (controlEntry, false)
    | controlParameters =>
      if c < ' ' then (controlParameters, isObeyedBlank c)
      else if c < '0' then (controlIntermediate, false)
      else if c < '<' then (controlParameters, false)
      else if c < '@' then (controlIgnored, false)
      else if c < '\x7f' then (ground, false)
      else (controlParameters, false)
    | controlIntermediate =>
      if c < ' ' then (controlIntermediate, isObeyedBlank c)
      else if c < '0' then (controlIntermediate, false)
      else if c < '@' then (controlIgnored, false)
      else if c < '\x7f' then (ground, false)
      else (controlIntermediate, false)
    | controlIgnored =>
      if c < ' ' then (controlIgnored, isObeyedBlank c)
      else if c < '@' ∨ c = '\x7f' then (controlIgnored, false)
      else (ground, false)
    | deviceEntry =>
      if c < ' ' then (deviceEntry, false)
      else if c < '0' then (deviceIntermediate, false)
      else if c < '@' then (deviceParameters, false)
      else if c < '\x7f' then (deviceData, false)
      else (deviceEntry, false)
    | deviceParameters =>
      if c < ' ' then (deviceParameters, false)
      else if c < '0' then (deviceIntermediate, false)
      else if c < '<' then (deviceParameters, false)
      else if c < '@' then (deviceIgnored, false)
      else if c < '\x7f' then (deviceData, false)
      else (deviceParameters, false)
    | deviceIntermediate =>
      if c < '0' then (deviceIntermediate, false)
      else if c < '@' then (deviceIgnored, false)
      else if c < '\x7f' then (deviceData, false)
      else (deviceIntermediate, false)
    | deviceIgnored => (deviceIgnored, false)
    | deviceData => (deviceData, false)
    | system => (if c = '\x07' then ground else system, false)
    | meaningless => (meaningless, false)

/-- Whether the state ends with the byte that ends a string. -/
def endsWithString : TerminalState → Bool
  | deviceIgnored | deviceData | meaningless => true
  | _ => false

end TerminalState

/-- The byte that ends a string, where it is part of a character too. -/
def stringEnd : UInt8 := 0x9c

/-- Where the reader of a text is. -/
structure Reading where
  /-- The state. -/
  state : TerminalState := .ground
  /-- Whether text is being shown. -/
  showing : Bool := false

namespace Reading

/-- Reads a character while hiding text, and says whether it is shown after all. -/
def hide (state : TerminalState) (c : Char) : Reading × Bool :=
  if '\x7f' < c then
    if state = .ground then (⟨.ground, true⟩, true)
    else if state.endsWithString && (String.singleton c).toUTF8.toList.contains stringEnd then
      (⟨.ground, false⟩, false)
    else (⟨state, false⟩, false)
  else
    let (state, shown) := state.next c
    (⟨state, shown⟩, shown)

/-- Reads a character, and says whether it is shown. -/
def read (r : Reading) (c : Char) : Reading × Bool :=
  if r.showing then
    if '\x7f' < c then (⟨.ground, true⟩, true)
    else if (TerminalState.ground.next c).2 then (r, true)
    else hide r.state c
  else hide r.state c

end Reading

/-- The characters of a text that are shown, given what was read before. -/
def shownAfter (r : Reading) : List Char → List Char
  | [] => []
  | c :: cs =>
    let (r, shown) := r.read c
    if shown then c :: shownAfter r cs else shownAfter r cs

/-- A text without the control sequences in it. -/
def withoutControls (text : String) : String := String.ofList (shownAfter {} text.toList)

end Stampline.Text
