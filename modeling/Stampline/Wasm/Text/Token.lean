/-!
# Tokens of the text format

Text consists of parentheses, atoms and quoted bytes. Blanks and comments stand between them;
comments in parentheses nest. An atom and a quoted text have to be set apart: what is written
without a gap between them is reserved, as are some characters.

A parenthesis with an at sign right behind it opens a remark, which means nothing. Only there may
stand what is reserved.
-/

namespace Stampline.Wasm.Text

/-- A token. -/
inductive Token where
  /-- Opens a list. -/
  | opening
  /-- Opens a remark. -/
  | remark
  /-- Closes either. -/
  | closing
  /-- A word or a number. -/
  | atom (name : String)
  /-- Bytes between quotes. -/
  | quoted (bytes : List UInt8)
  /-- What has no meaning. -/
  | reserved
deriving DecidableEq, Repr

/-- Whether a character can be part of an atom. -/
def isAtomChar (c : Char) : Bool :=
  decide (' ' < c ∧ c < '\x7f') && !"\x22(),;[]\x7b\x7d".toList.contains c

/-- Whether a character is reserved. -/
def isReserved (c : Char) : Bool := ",;[]\x7b\x7d".toList.contains c

/-- Whether a character turns the direction of the text around it, which is not allowed. -/
def isConfusing (c : Char) : Bool :=
  ['\u202a', '\u202b', '\u202d', '\u202e', '\u2066', '\u2067', '\u2068', '\u2069',
    '\u206c'].contains c

/-- The value of a hexadecimal digit. -/
def hexValue? (c : Char) : Option Nat :=
  if '0' ≤ c ∧ c ≤ '9' then some (c.toNat - '0'.toNat)
  else if 'a' ≤ c ∧ c ≤ 'f' then some (c.toNat - 'a'.toNat + 10)
  else if 'A' ≤ c ∧ c ≤ 'F' then some (c.toNat - 'A'.toNat + 10)
  else none

/-- The value of digits in a base, with underscores between them, behind digits of value `n`. -/
def digitsAfter (base n : Nat) : List Char → Option Nat
  | [] => some n
  | '_' :: c :: cs =>
    match hexValue? c with
    | some d => if d < base then digitsAfter base (n * base + d) cs else none
    | none => none
  | c :: cs =>
    match hexValue? c with
    | some d => if d < base then digitsAfter base (n * base + d) cs else none
    | none => none

/-- The value of digits in a base, with underscores between them. -/
def digits? (base : Nat) : List Char → Option Nat
  | [] | '_' :: _ => none
  | cs => digitsAfter base 0 cs

/-- The bytes of a character. -/
def charBytes (c : Char) : List UInt8 := (String.singleton c).toUTF8.toList

/-- The text behind a line comment that has begun. -/
def afterLine : List Char → Option (List Char)
  | [] => some []
  | c :: cs =>
    if c = '\n' ∨ c = '\r' then some (c :: cs)
    else if isConfusing c then none
    else afterLine cs

/-- The text behind as many comments in parentheses as have begun. -/
def afterComment : Nat → List Char → Option (List Char)
  | 0, cs => some cs
  | _, [] => none
  | depth + 1, '(' :: ';' :: cs => afterComment (depth + 2) cs
  | depth + 1, ';' :: ')' :: cs => afterComment depth cs
  | depth + 1, c :: cs => if isConfusing c then none else afterComment (depth + 1) cs
termination_by _ cs => cs.length

/-- The bytes up to the closing quote, behind those in `before`, which are reversed, and the text
behind the quote. -/
def quotedAfter (bound : Nat) (before : List UInt8) (cs : List Char) :
    Option (List UInt8 × List Char) :=
  match bound with
  | 0 => none
  | bound + 1 =>
    match cs with
    | [] => none
    | '\x22' :: cs => some (before.reverse, cs)
    | '\\' :: 'u' :: '\x7b' :: cs => do
      let number := cs.takeWhile (· ≠ '\x7d')
      let n ← digits? 16 number
      let rest ← (cs.drop number.length).tail?
      if n.isValidChar then
        quotedAfter bound ((charBytes (Char.ofNat n)).reverse ++ before) rest
      else none
    | '\\' :: c :: cs =>
      match ([('t', 9), ('n', 10), ('r', 13), ('\x22', 34), ('\x27', 39), ('\\', 92)] :
          List (Char × UInt8)).lookup c with
      | some b => quotedAfter bound (b :: before) cs
      | none =>
        match cs with
        | [] => none
        | d :: cs => do
          let high ← hexValue? c
          let low ← hexValue? d
          quotedAfter bound (UInt8.ofNat (high * 16 + low) :: before) cs
    | c :: cs =>
      if c < ' ' ∨ c = '\x7f' ∨ isConfusing c then none
      else quotedAfter bound ((charBytes c).reverse ++ before) cs

/-- The bytes of a quoted text behind its first quote, and the text behind its last one. -/
def readQuoted (cs : List Char) : Option (List UInt8 × List Char) :=
  quotedAfter (cs.length + 1) [] cs

/-- Whether an atom or a quoted text goes on. -/
def goesOn : List Char → Bool
  | [] => false
  | c :: _ => isAtomChar c || c = '\x22'

/-- The text behind atoms and quoted texts without a gap. Each step takes a character, so the length
of the text bounds their number. -/
def afterReserved (bound : Nat) (cs : List Char) : Option (List Char) :=
  match bound, cs with
  | 0, _ => none
  | _, [] => some []
  | bound + 1, c :: cs =>
    if c = '\x22' then (readQuoted cs).bind fun (_, rest) => afterReserved bound rest
    else if isAtomChar c then afterReserved bound cs
    else some (c :: cs)

/-- The atom or the quoted text that text begins with, and the text behind it. A name may be quoted
behind its dollar sign. -/
def readWord (cs : List Char) : Option (Token × List Char) := do
  let word := cs.takeWhile isAtomChar
  let rest := cs.drop word.length
  let (token, rest) ← match word, rest with
    | [], '\x22' :: rest => (readQuoted rest).map fun (bytes, rest) => (Token.quoted bytes, rest)
    | ['$'], '\x22' :: rest => do
      let (bytes, rest) ← readQuoted rest
      let name ← String.fromUTF8? ⟨bytes.toArray⟩
      pure (Token.atom ("$" ++ name), rest)
    | word, rest => pure (Token.atom (String.ofList word), rest)
  if goesOn rest then
    return (.reserved, ← afterReserved (rest.length + 1) rest)
  else return (token, rest)

/-- The tokens of a text, behind those in `before`, which are reversed. Every step takes a
character, so the length of the text bounds their number. -/
def tokensAfter (bound : Nat) (before : List Token) (cs : List Char) : Option (List Token) :=
  match bound with
  | 0 => none
  | bound + 1 =>
    match cs with
    | [] => some before.reverse
    | ';' :: ';' :: cs => (afterLine cs).bind (tokensAfter bound before)
    | '(' :: ';' :: cs => (afterComment 1 cs).bind (tokensAfter bound before)
    | '(' :: '@' :: cs => tokensAfter bound (.remark :: before) cs
    | '(' :: cs => tokensAfter bound (.opening :: before) cs
    | ')' :: cs => tokensAfter bound (.closing :: before) cs
    | c :: cs =>
      if c = ' ' ∨ c = '\t' ∨ c = '\n' ∨ c = '\r' then tokensAfter bound before cs
      else if isReserved c then tokensAfter bound (.reserved :: before) cs
      else if goesOn (c :: cs) then
        (readWord (c :: cs)).bind fun (token, rest) => tokensAfter bound (token :: before) rest
      else none

/-- The tokens of a text. -/
def tokens? (text : String) : Option (List Token) :=
  tokensAfter (text.length + 1) [] text.toList

end Stampline.Wasm.Text
