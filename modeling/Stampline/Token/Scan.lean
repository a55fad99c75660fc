import Stampline.Token.Basic

/-!
# From text to tokens

`scan` reads a text into lexemes. Only the first seven bits of a character ever decide what it is,
so the text is read character by character while columns advance by the bytes a character takes.

Layout follows indentation. A line that holds only blanks and a comment produces nothing, line
breaks between parentheses are skipped, and every other line ends in `newline`. A line that is
indented more deeply than the innermost open block opens a block; one that is indented less closes
blocks until its indentation is met exactly.
-/

namespace Stampline

/-- Why a text cannot be read into tokens. -/
inductive ScanFault where
  | strayBang | strayCharacter | invalidEscape | unterminatedText | oversizedInteger | uneven
deriving DecidableEq, Repr

/-- The wording of a fault. -/
def ScanFault.message : ScanFault → String
  | strayBang => "unexpected character '!'"
  | strayCharacter => "unexpected character"
  | invalidEscape => "invalid escape sequence"
  | unterminatedText => "unterminated string literal"
  | oversizedInteger => "integer literal is too large"
  | uneven => "unindent does not match any outer indentation level"

/-- A fault and the position it is found at. -/
structure ScanError where
  /-- The line of the fault. -/
  line : Nat
  /-- Its byte offset in that line. -/
  col : Nat
  /-- What is wrong. -/
  fault : ScanFault
deriving DecidableEq, Repr

/-! ## Reading one token -/

/-- The number of bytes a run of characters takes. -/
def byteWidth (cs : List Char) : Nat := cs.foldr (fun c n => c.utf8Size + n) 0

/-- The characters a name begins with. -/
def isNameStart (c : Char) : Bool := c.isAlpha || c == '_'

/-- The characters a name goes on with. -/
def isNameRest (c : Char) : Bool := isNameStart c || c.isDigit

/-- The characters of an integer literal after its first digit. -/
def isDigitOrGap (c : Char) : Bool := c.isDigit || c == '_'

/-- The number that a run of digits stands for; gaps between the digits count for nothing. -/
def decimalValue (cs : List Char) : Nat :=
  (cs.filter Char.isDigit).foldl (fun n c => 10 * n + (c.toNat - '0'.toNat)) 0

/-- The least number that no integer of the language reaches: two to the power of 63. -/
def integerBound : Nat := 9223372036854775808

/-- The character that a backslash and `c` stand for. -/
def unescape? : Char → Option Char
  | 'n' => some '\n'
  | 't' => some '\t'
  | 'r' => some '\r'
  | '0' => some '\x00'
  | '\\' => some '\\'
  | '\x27' => some '\x27'
  | '\x22' => some '\x22'
  | _ => none

/-- What reading one token yields: the token, the bytes it takes and the text after it. -/
structure Reading where
  /-- The token read. -/
  token : Token
  /-- The number of bytes it takes. -/
  width : Nat
  /-- The characters after it. -/
  rest : List Char
deriving DecidableEq, Repr

/-- A fault at a byte offset from the start of the token being read. -/
abbrev Misreading := Nat × ScanFault

/-- Reads a quoted text up to its closing `quote`. `seen` holds the decoded characters so far, the
latest first, and `width` the bytes read. -/
def readQuoted (quote : Char) (seen : List Char) (width : Nat) :
    List Char → Except Misreading Reading
  | [] => .error (0, .unterminatedText)
  | '\\' :: cs =>
    match cs with
    | [] => .error (width + 1, .invalidEscape)
    | e :: rest =>
      match unescape? e with
      | some c => readQuoted quote (c :: seen) (width + 2) rest
      | none => .error (width + 1, .invalidEscape)
  | c :: cs =>
    if c = '\n' then .error (0, .unterminatedText)
    else if c = quote then .ok ⟨.text (String.ofList seen.reverse), width + 1, cs⟩
    else readQuoted quote (c :: seen) (width + c.utf8Size) cs

/-- Reads an integer literal. -/
def readInteger (cs : List Char) : Except Misreading Reading :=
  let digits := cs.takeWhile isDigitOrGap
  let value := decimalValue digits
  if value < integerBound then
    .ok ⟨.integer (Int64.ofNat value), byteWidth digits, cs.dropWhile isDigitOrGap⟩
  else .error (0, .oversizedInteger)

/-- The token that a word is. -/
def Token.ofWord (word : String) : Token :=
  match Reserved.ofSpelling? word with
  | some r => .reserved r
  | none => .name word

/-- Reads a name or a reserved word. -/
def readWord (cs : List Char) : Reading :=
  let letters := cs.takeWhile isNameRest
  ⟨.ofWord (String.ofList letters), byteWidth letters, cs.dropWhile isNameRest⟩

/-- The symbols of one character that no longer symbol begins with. -/
def soleSymbol? : Char → Option Symbol
  | '(' => some .leftParen
  | ')' => some .rightParen
  | ',' => some .comma
  | ':' => some .colon
  | '.' => some .dot
  | '+' => some .plus
  | '-' => some .minus
  | '*' => some .star
  | '/' => some .slash
  | '%' => some .percent
  | _ => none

/-- The symbols that an equals sign may lengthen: the short one and the long one. -/
def growingSymbol? : Char → Option (Symbol × Symbol)
  | '=' => some (.assign, .equal)
  | '<' => some (.less, .lessEqual)
  | '>' => some (.greater, .greaterEqual)
  | _ => none

/-- Reads a symbol that begins with `c`, if there is one. -/
def readSymbol? (c : Char) (cs : List Char) : Option Reading :=
  match soleSymbol? c with
  | some s => some ⟨.symbol s, 1, cs⟩
  | none =>
    match growingSymbol? c with
    | none => none
    | some (short, long) =>
      match cs with
      | '=' :: rest => some ⟨.symbol long, 2, rest⟩
      | _ => some ⟨.symbol short, 1, cs⟩

/-- Reads the token that begins with the character `c`, which is followed by `cs`. -/
def readToken (c : Char) (cs : List Char) : Except Misreading Reading :=
  match readSymbol? c cs with
  | some r => .ok r
  | none =>
    if c = '!' then
      match cs with
      | '=' :: rest => .ok ⟨.symbol .notEqual, 2, rest⟩
      | _ => .error (0, .strayBang)
    else if c = '\x22' ∨ c = '\x27' then readQuoted c [] 1 cs
    else if c.isDigit then readInteger (c :: cs)
    else if isNameStart c then .ok (readWord (c :: cs))
    else .error (0, .strayCharacter)

theorem readQuoted_rest_le {quote : Char} {seen : List Char} {width : Nat} {cs : List Char}
    {r : Reading} (h : readQuoted quote seen width cs = .ok r) :
    r.rest.length ≤ cs.length := by
  fun_induction readQuoted quote seen width cs with
  | case1 => simp at h
  | case2 => simp at h
  | case3 seen width e rest c hc ih => have := ih h; simp only [List.length_cons]; omega
  | case4 => simp at h
  | case5 => simp at h
  | case6 => simp only [Except.ok.injEq] at h; subst h; simp
  | case7 seen width c cs _ _ _ ih => have := ih h; simp only [List.length_cons]; omega

theorem readSymbol?_rest_le {c : Char} {cs : List Char} {r : Reading}
    (h : readSymbol? c cs = some r) : r.rest.length ≤ cs.length := by
  unfold readSymbol? at h
  split at h
  · simp only [Option.some.injEq] at h; subst h; exact Nat.le_refl _
  · split at h
    · simp at h
    · split at h <;> (simp only [Option.some.injEq] at h; subst h; simp)

theorem length_dropWhile_le (p : Char → Bool) (cs : List Char) :
    (cs.dropWhile p).length ≤ cs.length := (List.dropWhile_suffix p).length_le

/-- A token takes at least its first character. -/
theorem readToken_rest_le {c : Char} {cs : List Char} {r : Reading}
    (h : readToken c cs = .ok r) : r.rest.length ≤ cs.length := by
  unfold readToken at h
  split at h
  · rename_i hs
    simp only [Except.ok.injEq] at h
    subst h
    exact readSymbol?_rest_le hs
  · split at h
    · split at h
      · simp only [Except.ok.injEq] at h; subst h; simp
      · simp at h
    · split at h
      · exact readQuoted_rest_le h
      · split at h
        · rename_i hd
          unfold readInteger at h
          simp only at h
          split at h
          · simp only [Except.ok.injEq] at h
            subst h
            have hp : isDigitOrGap c = true := by simp [isDigitOrGap, hd]
            simpa [List.dropWhile_cons, hp] using length_dropWhile_le isDigitOrGap cs
          · simp at h
        · split at h
          · rename_i hn
            simp only [Except.ok.injEq] at h
            subst h
            have hp : isNameRest c = true := by simp [isNameRest, hn]
            simpa [readWord, List.dropWhile_cons, hp] using length_dropWhile_le isNameRest cs
          · simp at h

/-! ## Reading a text -/

/-- What the scanner knows between two tokens. -/
structure Cursor where
  /-- The current line. -/
  line : Nat := 1
  /-- The bytes read of it. -/
  col : Nat := 0
  /-- The number of parentheses open. -/
  depth : Nat := 0
  /-- The indentation of the open blocks, the innermost first. -/
  indents : List Nat := []
  /-- The lexemes so far, the latest first. -/
  emitted : List Lexeme := []
deriving DecidableEq, Repr

namespace Cursor

/-- Moves on by `width` bytes in the line. -/
def skip (cur : Cursor) (width : Nat) : Cursor := { cur with col := cur.col + width }

/-- Moves to the start of the next line. -/
def nextLine (cur : Cursor) : Cursor := { cur with line := cur.line + 1, col := 0 }

/-- The span of the next `width` bytes. -/
def span (cur : Cursor) (width : Nat) : Span := ⟨cur.line, cur.col, cur.line, cur.col + width⟩

/-- The number of open parentheses after a token. A closing one too many counts for nothing. -/
def depthAfter (depth : Nat) : Token → Nat
  | .symbol .leftParen => depth + 1
  | .symbol .rightParen => depth - 1
  | _ => depth

/-- Emits a token that takes `width` bytes. -/
def emit (cur : Cursor) (token : Token) (width : Nat) : Cursor :=
  { cur with
    col := cur.col + width
    depth := depthAfter cur.depth token
    emitted := ⟨token, cur.span width⟩ :: cur.emitted }

/-- The error of finding `fault` at `offset` bytes from here. -/
def error (cur : Cursor) (offset : Nat) (fault : ScanFault) : ScanError :=
  ⟨cur.line, cur.col + offset, fault⟩

/-- Closes every open block that is indented more deeply than `width`. -/
def closeTo (cur : Cursor) (width : Nat) : Cursor :=
  let span := cur.span 0
  { cur with
    indents := cur.indents.dropWhile (width < ·)
    emitted := (cur.indents.takeWhile (width < ·)).foldl (fun ls _ => ⟨.dedent, span⟩ :: ls)
      cur.emitted }

/-- Adjusts the open blocks to a line that is indented by `width`. -/
def indentTo (cur : Cursor) (width : Nat) : Except ScanError Cursor :=
  if cur.indents.headD 0 < width then
    .ok { cur with
      indents := width :: cur.indents
      emitted := ⟨.indent, cur.span 0⟩ :: cur.emitted }
  else
    let cur := cur.closeTo width
    if cur.indents.headD 0 = width then .ok cur else .error (cur.error 0 .uneven)

/-- Ends the last logical line, unless it has ended or there is none. -/
def endLine (cur : Cursor) : Cursor :=
  match cur.emitted with
  | [] | ⟨.newline, _⟩ :: _ => cur
  | _ => cur.emit .newline 0

/-- The lexemes of the whole text, once all of it is read. -/
def close (cur : Cursor) : List Lexeme :=
  ((cur.endLine.closeTo 0).emit .endOfInput 0).emitted.reverse

end Cursor

/-- Where the scanner stands in a line: in the blanks at its start, of which it has counted some,
or behind them. -/
inductive Zone where
  | margin (width : Nat)
  | body
deriving DecidableEq, Repr

namespace Zone

/-- The zone after a blank. A carriage return makes the count of blanks start anew. -/
def afterBlank (c : Char) : Zone → Zone
  | margin width => if c = '\r' then margin 0 else margin (width + 1)
  | body => body

/-- The zone after a comment. -/
def afterComment : Zone → Zone
  | margin _ => margin 0
  | body => body

/-- Adjusts the open blocks before the first token of a line. -/
def enter (cur : Cursor) : Zone → Except ScanError Cursor
  | margin width => cur.indentTo width
  | body => .ok cur

/-- The zone and the cursor after a line break. Behind the margin it ends the logical line, unless
a parenthesis is open. -/
def breakLine (cur : Cursor) : Zone → Zone × Cursor
  | margin _ => (margin 0, cur.nextLine)
  | body =>
    if cur.depth = 0 then (margin 0, (cur.emit .newline 1).nextLine) else (body, cur.nextLine)

/-- A line is entered behind its margin, or opens a block, or closes blocks down to one that begins
at its margin. -/
theorem enter_eq_ok {zone : Zone} {cur entered : Cursor} (h : zone.enter cur = .ok entered) :
    zone = body ∧ entered = cur ∨
    ∃ width, zone = margin width ∧
      (cur.indents.headD 0 < width ∧
        entered = { cur with
          indents := width :: cur.indents
          emitted := ⟨.indent, cur.span 0⟩ :: cur.emitted } ∨
      ¬cur.indents.headD 0 < width ∧ (cur.closeTo width).indents.headD 0 = width ∧
        entered = cur.closeTo width) := by
  cases zone with
  | body => exact .inl ⟨rfl, (Except.ok.inj h).symm⟩
  | margin width =>
    refine .inr ⟨width, rfl, ?_⟩
    replace h : cur.indentTo width = .ok entered := h
    unfold Cursor.indentTo at h
    split at h
    · exact .inl ⟨by assumption, (Except.ok.inj h).symm⟩
    · dsimp only at h
      split at h
      · exact .inr ⟨by assumption, by assumption, (Except.ok.inj h).symm⟩
      · cases h

end Zone

/-- The characters that separate tokens within a line. -/
def isBlank (c : Char) : Bool := c == ' ' || c == '\t' || c == '\r'

/-- Reads the characters `cs` from the position that `cur` describes. -/
def scanFrom (zone : Zone) (cs : List Char) (cur : Cursor) : Except ScanError (List Lexeme) :=
  match cs with
  | [] => .ok cur.close
  | c :: rest =>
    if c = '\n' then
      let next := zone.breakLine cur
      scanFrom next.1 rest next.2
    else if c = '#' then
      let comment := rest.takeWhile (· ≠ '\n')
      scanFrom zone.afterComment (rest.dropWhile (· ≠ '\n')) (cur.skip (1 + byteWidth comment))
    else if isBlank c then
      scanFrom (zone.afterBlank c) rest (cur.skip 1)
    else
      match zone.enter cur with
      | .error e => .error e
      | .ok cur =>
        match _h : readToken c rest with
        | .error (offset, fault) => .error (cur.error offset fault)
        | .ok r => scanFrom .body r.rest (cur.emit r.token r.width)
termination_by cs.length
decreasing_by
  · simp
  · simpa [Nat.lt_succ_iff] using length_dropWhile_le (fun c => decide (c ≠ '\n')) rest
  · simp
  · have := readToken_rest_le _h; simp only [List.length_cons]; omega

/-- The lexemes of a text. The last one is always the end of input. -/
def scan (source : String) : Except ScanError (List Lexeme) :=
  scanFrom (.margin 0) source.toList {}

end Stampline
