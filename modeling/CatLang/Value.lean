import CatLang.Decimal.Shortest

/-! The language has one kind of value, the double: numbers, truth values and counts alike. -/
namespace CatLang

abbrev Value := Float

namespace Value
open Float.Model (UnpackedFloat)

def parts (v : Value) : UnpackedFloat := v.toModel.unpack

def ofBool (b : Bool) : Value := if b then 1 else 0

/-- Only exactly one is true. -/
def isTrue (v : Value) : Bool := v == 1

/-- The whole part of `mantissa · 2 ^ exponent`. -/
def wholePart (mantissa : Nat) (exponent : Int) : Nat :=
  mantissa <<< exponent.toNat >>> (-exponent).toNat

def greatestInt : Int := 9223372036854775807

def leastInt : Int := -9223372036854775808

/-- Truncated toward zero and held inside the signed 64-bit range; not a number counts as zero. -/
def truncate (v : Value) : Int :=
  match v.parts with
  | .notANumber => 0
  | .zero _ => 0
  | .infinity .positive => greatestInt
  | .infinity .negative => leastInt
  | .finite sign mantissa exponent _ =>
    max leastInt (min greatestInt (sign.apply (wholePart mantissa exponent)))

def notANumber : Value := 0 / 0

/-- The remainder of the truncated operands, with the sign of the left one. A zero divisor, and
the one quotient outside the 64-bit range, give no number. -/
def modulo (left right : Value) : Value :=
  let l := left.truncate
  let r := right.truncate
  if r = 0 ∨ (l = leastInt ∧ r = -1) then notANumber else Float.ofInt (l.tmod r)

def signText : UnpackedFloat.Sign → String
  | .positive => ""
  | .negative => "-"

/-- The fewest digits that read back as the value, never with an exponent. -/
def text (v : Value) : String :=
  match v.parts with
  | .notANumber => "NaN"
  | .infinity sign => signText sign ++ "inf"
  | .zero sign => signText sign ++ "0"
  | .finite sign mantissa exponent _ =>
    signText sign ++ (Decimal.shortest mantissa exponent).positional

end Value

end CatLang
