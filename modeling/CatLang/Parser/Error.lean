import CatLang.Token.Error

/-! Why a list of tokens is not a program. -/
namespace CatLang

inductive ParseCause where
  | expectedName
  | expectedExpression
  | expectedOperator
  | unexpectedEnd
  | unexpectedToken (found : Token) (expected : List String)
  | emptyBlock
  | missingQuestionMark
  | missingColon
  | missingSemicolon
  | missingParen
  | lexical (error : LexError)
deriving DecidableEq

structure ParseError where
  cause : ParseCause
  span : Span
deriving DecidableEq

namespace ParseError

def ofLexError (e : LexError) : ParseError := ⟨.lexical e, e.span⟩

def message (e : ParseError) : String :=
  match e.cause with
  | .expectedName => "Expected identifier"
  | .expectedExpression => "Expected expression"
  | .expectedOperator => "Expected operator"
  | .unexpectedEnd => "Unexpected end of file"
  | .unexpectedToken _ _ => "Not expected this"
  | .emptyBlock => "Expected at least one statement here"
  | .missingQuestionMark => "Missing `?` after condition"
  | .missingColon => "Missing `:` after repeat count"
  | .missingSemicolon => "Missing semicolon"
  | .missingParen => "Missing closing `)`"
  | .lexical error => error.message

def notes (e : ParseError) : List String :=
  match e.cause with
  | .expectedExpression =>
    ["An expression starts with an identifier, a `mew` number, `-`, `~` or `(`"]
  | .unexpectedToken found expected =>
    ("Found " ++ found.described ++ ", expected one of: ") :: expected.map ("- " ++ ·)
  | .emptyBlock => ["A block is one or more statements, each ending with `;`"]
  | .missingQuestionMark =>
    ["Statements are `name = expr`, `::expr`, `@count: ...` or `condition ? ...`"]
  | .lexical error => error.notes
  | _ => []

end ParseError

end CatLang
