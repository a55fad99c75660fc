import Stampline.Wasm.Text.Token

/-!
# Trees of tokens

Tokens between parentheses form a list. Remarks are left out with all that is in them, which may be
reserved.
-/

namespace Stampline.Wasm.Text

/-- A token that is not a parenthesis, or a list of trees. -/
inductive Tree where
  /-- A word or a number. -/
  | atom (name : String)
  /-- Bytes between quotes. -/
  | quoted (bytes : List UInt8)
  /-- What stands between parentheses. -/
  | list (items : List Tree)
deriving Inhabited

/-- A list that is not closed yet. -/
structure OpenList where
  /-- Whether it is a remark. -/
  isRemark : Bool
  /-- What came before it where it stands, the latest first. -/
  before : List Tree

/-- The trees that tokens form, inside of open lists, the innermost first. What came before in the
innermost is given the latest first. -/
def treesAfter (before : List Tree) : List OpenList → List Token → Option (List Tree)
  | [], [] => some before.reverse
  | _ :: _, [] => none
  | lists, .opening :: ts => treesAfter [] (⟨false, before⟩ :: lists) ts
  | lists, .remark :: ts => treesAfter [] (⟨true, before⟩ :: lists) ts
  | [], .closing :: _ => none
  | l :: lists, .closing :: ts =>
    treesAfter (if l.isRemark then l.before else .list before.reverse :: l.before) lists ts
  | lists, .reserved :: ts => if lists.any (·.isRemark) then treesAfter before lists ts else none
  | lists, .atom name :: ts => treesAfter (.atom name :: before) lists ts
  | lists, .quoted bytes :: ts => treesAfter (.quoted bytes :: before) lists ts

/-- The trees that tokens form. -/
def trees? (ts : List Token) : Option (List Tree) := treesAfter [] [] ts

namespace Tree

/-- The number of tokens and lists in trees. -/
def size : List Tree → Nat
  | [] => 0
  | .list items :: ts => size items + size ts + 1
  | _ :: ts => size ts + 1

/-- What follows the given word in a list that begins with it. -/
def form? (word : String) : Tree → Option (List Tree)
  | .list (.atom name :: items) => if name = word then some items else none
  | _ => none

/-- The name that trees begin with, if they do, and the trees behind it. Names begin with a dollar
sign. -/
def takeName : List Tree → Option String × List Tree
  | .atom name :: ts => if isName name then (some name, ts) else (none, .atom name :: ts)
  | ts => (none, ts)
where
  /-- Whether an atom is a name. -/
  isName (name : String) : Bool :=
    match name.toList with
    | '$' :: _ :: _ => true
    | _ => false

/-- Whether trees begin with the index of something: a name or a number. -/
def beginsWithIndex : List Tree → Bool
  | .atom name :: _ =>
    match name.toList with
    | c :: _ => c = '$' || c = '+' || c.isDigit
    | [] => false
  | _ => false

/-- The lists with the given word that trees begin with, one behind the other, without that word,
and the trees behind them. -/
def takeForms (word : String) : List Tree → List (List Tree) × List Tree
  | [] => ([], [])
  | t :: ts =>
    match t.form? word with
    | some items =>
      let (rest, ts) := takeForms word ts
      (items :: rest, ts)
    | none => ([], t :: ts)

/-- The word that trees begin with, if it is the given one, and the trees behind it. -/
def takeWord (word : String) : List Tree → Bool × List Tree
  | .atom name :: ts => if name = word then (true, ts) else (false, .atom name :: ts)
  | ts => (false, ts)

/-- The bytes of quoted texts one behind the other, if there is nothing else. -/
def quotedBytes : List Tree → Option (List UInt8)
  | [] => some []
  | .quoted bytes :: ts => (quotedBytes ts).map (bytes ++ ·)
  | _ => none

/-- The text of a quoted text. -/
def text? : Tree → Option String
  | .quoted bytes => String.fromUTF8? ⟨bytes.toArray⟩
  | _ => none

end Tree

end Stampline.Wasm.Text
