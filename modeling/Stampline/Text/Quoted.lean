import Stampline.Text.Invisible
import Stampline.Text.Extending

/-!
# Quoted text

Text between quotes, written so that all of it can be seen. Quotes and backslashes are written
behind a backslash, and so are the characters that leave no mark of their own or that would join the
character before them; those without a letter of their own are written as their number in base 16.
-/

namespace Stampline.Text

/-- Whether a number lies in one of several ranges, the ends of which belong to them. -/
def inRanges (ranges : List (Nat × Nat)) (n : Nat) : Bool :=
  ranges.any fun r => decide (r.1 ≤ n ∧ n ≤ r.2)

/-- Whether a character leaves no mark of its own. -/
def isInvisible (c : Char) : Bool := inRanges invisibleRanges c.toNat

/-- Whether a character extends the one before it. -/
def isExtending (c : Char) : Bool := inRanges extendingRanges c.toNat

/-- A character as it is written between quotes. -/
def quotedChar (c : Char) : String :=
  if c = '\x22' then "\\\x22"
  else if c = '\\' then "\\\\"
  else if c = '\n' then "\\n"
  else if c = '\r' then "\\r"
  else if c = '\t' then "\\t"
  else if c = '\x00' then "\\0"
  else if isInvisible c || isExtending c then
    "\\u\x7b" ++ String.ofList (Nat.toDigits 16 c.toNat) ++ "\x7d"
  else String.singleton c

/-- Text between quotes. -/
def quoted (text : String) : String :=
  "\x22" ++ String.join (text.toList.map quotedChar) ++ "\x22"

end Stampline.Text
