import Stampline.Span

/-!
# Tokens

The words of the language. Besides names, literals, symbols and reserved words there are layout
tokens: `newline` ends a logical line, `indent` and `dedent` open and close a block, and
`endOfInput` is the last token of every text.
-/

namespace Stampline

/-- Punctuation and operators. -/
inductive Symbol where
  | leftParen | rightParen | comma | colon | dot | assign
  | plus | minus | star | slash | percent
  | equal | notEqual | less | lessEqual | greater | greaterEqual
deriving DecidableEq, Repr

/-- How a symbol is written. -/
def Symbol.spelling : Symbol → String
  | leftParen => "("
  | rightParen => ")"
  | comma => ","
  | colon => ":"
  | dot => "."
  | assign => "="
  | plus => "+"
  | minus => "-"
  | star => "*"
  | slash => "/"
  | percent => "%"
  | equal => "=="
  | notEqual => "!="
  | less => "<"
  | lessEqual => "<="
  | greater => ">"
  | greaterEqual => ">="

/-- The words that cannot be used as names. -/
inductive Reserved where
  | define | give | whether | elseWhether | otherwise | repeating | pass
deriving DecidableEq, Repr

namespace Reserved

/-- How a reserved word is written. -/
def spelling : Reserved → String
  | define => "def"
  | give => "return"
  | whether => "if"
  | elseWhether => "elif"
  | otherwise => "else"
  | repeating => "while"
  | pass => "pass"

/-- Every reserved word. -/
def all : List Reserved := [define, give, whether, elseWhether, otherwise, repeating, pass]

/-- The reserved word written as `word`, if it is one. -/
def ofSpelling? (word : String) : Option Reserved := all.find? (·.spelling == word)

end Reserved

/-- A token of the language. Integer literals are never negative; a minus sign is a symbol. -/
inductive Token where
  | newline | indent | dedent | endOfInput
  | name (id : String)
  | integer (value : Int64)
  | text (value : String)
  | symbol (s : Symbol)
  | reserved (word : Reserved)
deriving DecidableEq, Repr

namespace Token

/-- Layout tokens stand for the shape of the text, not for any of its visible characters. The end
of input is not counted among them. -/
def isLayout : Token → Bool
  | newline | indent | dedent => true
  | _ => false

/-- What a token is called in a message. -/
def describe : Token → String
  | newline => "end of line"
  | indent => "indent"
  | dedent => "dedent"
  | endOfInput => "end of input"
  | name id => s!"name '{id}'"
  | integer value => s!"integer {value.toInt}"
  | text _ => "string literal"
  | symbol s => s!"'{s.spelling}'"
  | reserved word => s!"'{word.spelling}'"

end Token

/-- A token together with the stretch of text it was read from. -/
structure Lexeme where
  /-- The token. -/
  token : Token
  /-- Where it stands. -/
  span : Span
deriving DecidableEq, Repr

end Stampline
