import CatLang.Token

/-! What can be wrong with a piece of source text before it is a token. -/
namespace CatLang

inductive LexCause where
  | unrecognized (found : Char)
  | digit (found : Char)
  | missingFraction
  | malformedFraction
  | severalPeriods
deriving DecidableEq

structure LexError where
  cause : LexCause
  span : Span
deriving DecidableEq

namespace LexError

def message (e : LexError) : String :=
  match e.cause with
  | .unrecognized _ => "Not sure what to do with this character"
  | .digit _ => "Cats don't count in digits"
  | .missingFraction => "Missing `mew` syllables after the period"
  | .malformedFraction => "The fractional part must be made of `mew` syllables only"
  | .severalPeriods => "Found several periods in one number"

def notes (e : LexError) : List String :=
  match e.cause with
  | .unrecognized c => ["Found `" ++ String.singleton c ++ "`"]
  | .digit c =>
    ["Found `" ++ String.singleton c ++ "`, write numbers as `mew` syllables instead",
     "e.g. `mewmew` is 2 and `mewmew.mew` is 2.1"]
  | .missingFraction | .malformedFraction | .severalPeriods => []

end LexError

/-- One reading of the lexer: a token with its place, or an error. -/
abbrev LexResult := Except LexError (Located Token)

end CatLang
