import DesignMatrix.Text.Numeric
import DesignMatrix.Number.Decimal

/-!
# Tokens of a formula

The lexical units of a formula, how each is written, and how a message names it.
-/

namespace DesignMatrix

/-- A lexical unit. -/
inductive Token where
  | name (text : String)
  /-- A name between back quotes, which may hold any other character. -/
  | quoted (text : String)
  | number (value : Float) (text : String)
  | tilde | plus | minus | star | doubleStar | caret | slash | colon | comma | equals
  | leftParen | rightParen
  deriving DecidableEq, Repr

namespace Token

/-- The mark around a quoted name. -/
def backQuote : Char := '\x60'

/-- The text of a token in a formula. -/
def spelling : Token → String
  | .name text => text
  | .quoted text => String.singleton backQuote ++ text ++ String.singleton backQuote
  | .number _ text => text
  | .tilde => "~"
  | .plus => "+"
  | .minus => "-"
  | .star => "*"
  | .doubleStar => "**"
  | .caret => "^"
  | .slash => "/"
  | .colon => ":"
  | .comma => ","
  | .equals => "="
  | .leftParen => "("
  | .rightParen => ")"

/-- The token as messages name it. -/
def description : Token → String
  | .quoted text => (Token.quoted text).spelling
  | .number _ text => "number " ++ text
  | token => "'" ++ token.spelling ++ "'"

end Token

/-- A token and the number of bytes before it. -/
structure Placed where
  token : Token
  offset : Nat
  deriving DecidableEq, Repr

end DesignMatrix
