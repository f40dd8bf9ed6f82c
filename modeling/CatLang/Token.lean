import CatLang.Span

/-! The tokens of the language and how tightly the operators among them bind. -/
namespace CatLang

inductive Token where
  | name (text : String)
  | number (raw : String)
  | comment
  | equal
  | notEqual
  | less
  | lessEqual
  | greater
  | greaterEqual
  | plus
  | minus
  | star
  | slash
  | percent
  | power
  | tilde
  | assign
  | doubleColon
  | atSign
  | question
  | colon
  | semicolon
  | leftParen
  | rightParen
  | endOfFile
deriving DecidableEq

namespace Token

/-- The text of a token. A comment shows its opening only. -/
def literal : Token → String
  | name text => text
  | number raw => raw
  | comment => "//"
  | equal => "=="
  | notEqual => "!="
  | less => "<"
  | lessEqual => "<="
  | greater => ">"
  | greaterEqual => ">="
  | plus => "+"
  | minus => "-"
  | star => "*"
  | slash => "/"
  | percent => "%"
  | power => "**"
  | tilde => "~"
  | assign => "="
  | doubleColon => "::"
  | atSign => "@"
  | question => "?"
  | colon => ":"
  | semicolon => ";"
  | leftParen => "("
  | rightParen => ")"
  | endOfFile => "end of file"

def isUnaryOperator : Token → Bool
  | minus | tilde => true
  | _ => false

def startsExpression : Token → Bool
  | name _ | number _ | leftParen => true
  | t => t.isUnaryOperator

def startsStatement : Token → Bool
  | doubleColon | atSign => true
  | t => t.startsExpression

/-- How a message names the token it stumbled over. -/
def described : Token → String
  | number _ => "a Number"
  | name _ => "an Identifier"
  | endOfFile => "the end of file"
  | t => "`" ++ t.literal ++ "`"

end Token

/-- How tightly an operator binds; `lowest` stands for every token that is none. -/
inductive Level where
  | lowest
  | equality
  | comparison
  | sum
  | product
  | power
deriving DecidableEq

namespace Level

def rank : Level → Nat
  | lowest => 0
  | equality => 1
  | comparison => 2
  | sum => 3
  | product => 4
  | power => 5

instance : LT Level := ⟨fun a b => a.rank < b.rank⟩
instance : LE Level := ⟨fun a b => a.rank ≤ b.rank⟩

instance (a b : Level) : Decidable (a < b) := inferInstanceAs (Decidable (a.rank < b.rank))
instance (a b : Level) : Decidable (a ≤ b) := inferInstanceAs (Decidable (a.rank ≤ b.rank))

end Level

def Token.level : Token → Level
  | .equal | .notEqual => .equality
  | .less | .greater | .lessEqual | .greaterEqual => .comparison
  | .plus | .minus => .sum
  | .star | .slash | .percent => .product
  | .power => .power
  | _ => .lowest

end CatLang
