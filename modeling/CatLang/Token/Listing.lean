import CatLang.Text.Quoted
import CatLang.Token

/-! How a token listing names the tokens. -/
namespace CatLang.Token

def tag : Token → String
  | name _ => "Ident"
  | number _ => "Number"
  | comment => "Comment"
  | equal => "Equal"
  | notEqual => "NotEqual"
  | less => "LessThan"
  | lessEqual => "LessThanOrEqual"
  | greater => "GreaterThan"
  | greaterEqual => "GreaterThanOrEqual"
  | plus => "Plus"
  | minus => "Minus"
  | star => "Star"
  | slash => "Slash"
  | percent => "Percent"
  | power => "Power"
  | tilde => "Tilda"
  | assign => "Assign"
  | doubleColon => "Print"
  | atSign => "At"
  | question => "Question"
  | colon => "Colon"
  | semicolon => "Semicolon"
  | leftParen => "LParen"
  | rightParen => "RParen"
  | endOfFile => "Eof"

def listed : Token → String
  | name text => "Ident(" ++ Text.quote text ++ ")"
  | number raw => "Number(" ++ Text.quote raw ++ ")"
  | t => t.tag

/-- One line of a listing: the place in ten columns, then the token. -/
def line (t : Located Token) : String :=
  let place := t.span.text
  String.ofList (List.replicate (10 - place.length) ' ') ++ place ++ " " ++ t.value.listed

end CatLang.Token
