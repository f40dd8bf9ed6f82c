import CatLang.Text.Size
import CatLang.Value

/-! Syllable numerals. A run of the syllable `mew` counts its syllables, and a period splits a
numeral into a whole part and a fraction, so `mewmew.mewmewmew` is 2.3. -/
namespace CatLang.Numeral

def syllable : List Char := ['m', 'e', 'w']

/-- One or more whole syllables and nothing else. -/
def isRun : List Char → Bool
  | 'm' :: 'e' :: 'w' :: [] => true
  | 'm' :: 'e' :: 'w' :: rest => isRun rest
  | _ => false

/-- Whole syllables by length alone, whatever the letters are. -/
def syllables (word : List Char) : Nat := Text.byteLength word / 3

def encode (count : Nat) : List Char := (List.replicate count syllable).flatten

/-- The value of the decimal text `whole.fraction`. The fraction's digits stand right after the
point, so twelve is `.12`. -/
def decimal (whole fraction : Nat) : Value :=
  let places := (Nat.toDigits 10 fraction).length
  Float.ofScientific (whole * Nat.pow 10 places + fraction) true places

/-- The value of a numeral. Text after a second period is ignored. -/
def decode (raw : List Char) : Value :=
  match raw.dropWhile (· != '.') with
  | [] => Float.ofNat (syllables raw)
  | _ :: rest =>
    decimal (syllables (raw.takeWhile (· != '.'))) (syllables (rest.takeWhile (· != '.')))

end CatLang.Numeral
