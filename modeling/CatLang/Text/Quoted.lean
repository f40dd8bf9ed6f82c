import CatLang.Text.Printable

/-! Characters and words in quotes, with escapes for what cannot be shown. -/
namespace CatLang.Text

def codePoint (c : Char) : String :=
  "\\u\x7b" ++ String.ofList (Nat.toDigits 16 c.toNat) ++ "\x7d"

/-- A character inside `quote` marks. The other quote mark needs no escape. -/
def escape (quote : Char) (c : Char) : String :=
  if c = Char.ofNat 0 then "\\0"
  else if c = '\t' then "\\t"
  else if c = '\n' then "\\n"
  else if c = '\r' then "\\r"
  else if c = '\\' then "\\\\"
  else if c = quote then "\\" ++ String.singleton c
  else if isShown c then String.singleton c
  else codePoint c

def quoteChar (c : Char) : String := "'" ++ escape '\'' c ++ "'"

def quote (word : String) : String :=
  "\"" ++ String.join (word.toList.map (escape '"')) ++ "\""

end CatLang.Text
