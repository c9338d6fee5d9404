/-!
# Punctuation and operators
-/

namespace EcmaScript

/-- A punctuation mark or an operator. -/
inductive Punctuator where
  | leftBrace
  | rightBrace
  | leftParen
  | rightParen
  | leftBracket
  | rightBracket
  | dot
  | ellipsis
  | semicolon
  | comma
  | less
  | greater
  | lessEqual
  | greaterEqual
  | equal
  | notEqual
  | strictEqual
  | strictNotEqual
  | plus
  | minus
  | star
  | slash
  | percent
  | starStar
  | plusPlus
  | minusMinus
  | shiftLeft
  | shiftRight
  | shiftRightUnsigned
  | ampersand
  | bar
  | caret
  | bang
  | tilde
  | andAnd
  | orOr
  | coalesce
  | question
  | optionalChain
  | colon
  | assign
  | plusAssign
  | minusAssign
  | starAssign
  | slashAssign
  | percentAssign
  | starStarAssign
  | shiftLeftAssign
  | shiftRightAssign
  | shiftRightUnsignedAssign
  | ampersandAssign
  | barAssign
  | caretAssign
  | andAndAssign
  | orOrAssign
  | coalesceAssign
  | arrow
  deriving DecidableEq, Repr, Inhabited

namespace Punctuator

/-- The mark as it is written. -/
def spelling : Punctuator → String
  | leftBrace => "\x7b"
  | rightBrace => "\x7d"
  | leftParen => "("
  | rightParen => ")"
  | leftBracket => "["
  | rightBracket => "]"
  | dot => "."
  | ellipsis => "..."
  | semicolon => ";"
  | comma => ","
  | less => "<"
  | greater => ">"
  | lessEqual => "<="
  | greaterEqual => ">="
  | equal => "=="
  | notEqual => "!="
  | strictEqual => "==="
  | strictNotEqual => "!=="
  | plus => "+"
  | minus => "-"
  | star => "*"
  | slash => "/"
  | percent => "%"
  | starStar => "**"
  | plusPlus => "++"
  | minusMinus => "--"
  | shiftLeft => "<<"
  | shiftRight => ">>"
  | shiftRightUnsigned => ">>>"
  | ampersand => "&"
  | bar => "|"
  | caret => "^"
  | bang => "!"
  | tilde => "~"
  | andAnd => "&&"
  | orOr => "||"
  | coalesce => "??"
  | question => "?"
  | optionalChain => "?."
  | colon => ":"
  | assign => "="
  | plusAssign => "+="
  | minusAssign => "-="
  | starAssign => "*="
  | slashAssign => "/="
  | percentAssign => "%="
  | starStarAssign => "**="
  | shiftLeftAssign => "<<="
  | shiftRightAssign => ">>="
  | shiftRightUnsignedAssign => ">>>="
  | ampersandAssign => "&="
  | barAssign => "|="
  | caretAssign => "^="
  | andAndAssign => "&&="
  | orOrAssign => "||="
  | coalesceAssign => "??="
  | arrow => "=>"

end Punctuator

end EcmaScript
