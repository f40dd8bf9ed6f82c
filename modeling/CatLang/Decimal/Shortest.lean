/-! Decimal text of a positive binary number `mantissa · 2 ^ exponent`: of all decimals that round
to it the one with the fewest digits, and of those the nearest. -/
namespace CatLang.Decimal

/-- The stretch of the number line that rounds to one value, all measured in `1 / unit`. Its ends
belong to it when `closed`. -/
structure Neighbourhood where
  low : Nat
  value : Nat
  high : Nat
  unit : Nat
  closed : Bool

namespace Neighbourhood

/-- Half of the gap to the next number on either side. Below a power of two the numbers lie twice
as close, except at the bottom of the range; ends are kept by an even mantissa. -/
def ofBinary (mantissa : Nat) (exponent : Int) : Neighbourhood :=
  let below := if mantissa = Nat.pow 2 52 ∧ exponent ≠ -1074 then 1 else 2
  let scale := Nat.pow 2 (exponent - 2).toNat
  { low := (4 * mantissa - below) * scale
    value := 4 * mantissa * scale
    high := (4 * mantissa + 2) * scale
    unit := Nat.pow 2 (2 - exponent).toNat
    closed := mantissa % 2 == 0 }

/-- Measured on the decimal grid of step `10 ^ place`. -/
def onGrid (n : Neighbourhood) (place : Int) : Neighbourhood :=
  let shrink := Nat.pow 10 place.toNat
  let grow := Nat.pow 10 (-place).toNat
  { n with
    low := n.low * grow
    value := n.value * grow
    high := n.high * grow
    unit := n.unit * shrink }

def holds (n : Neighbourhood) (point : Nat) : Bool :=
  let p := point * n.unit
  if n.closed then n.low ≤ p && p ≤ n.high else n.low < p && p < n.high

/-- The whole point that rounds to the value, if there is one: of the two beside it the nearer,
and the upper one when both are as near. -/
def point? (n : Neighbourhood) : Option Nat :=
  let lower := n.value / n.unit
  match n.holds lower, n.holds (lower + 1) with
  | false, false => none
  | true, false => some lower
  | false, true => some (lower + 1)
  | true, true => some (if 2 * (n.value % n.unit) < n.unit then lower else lower + 1)

def digitCount (n : Nat) : Nat := (Nat.toDigits 10 n).length

/-- The place of the first digit: the least `k` with `value < 10 ^ k`. -/
def leadingPlace (n : Neighbourhood) : Int :=
  if n.unit ≤ n.value then digitCount (n.value / n.unit)
  else 1 - digitCount ((n.unit + n.value - 1) / n.value - 1)

end Neighbourhood

structure Scientific where
  coefficient : Nat
  place : Int
deriving DecidableEq

/-- Tries ever finer grids; seventeen digits always tell two doubles apart. -/
def shortest (mantissa : Nat) (exponent : Int) : Scientific :=
  let n := Neighbourhood.ofBinary mantissa exponent
  let first := n.leadingPlace
  let tries := (List.range 18).findSome? fun (k : Nat) =>
    (n.onGrid (first - k)).point?.map fun c => Scientific.mk c (first - k)
  tries.getD ⟨0, 0⟩

/-- Written out without an exponent, and without a point when the number is whole. -/
def Scientific.positional (s : Scientific) : String :=
  let digits := Nat.toDigits 10 s.coefficient
  if 0 ≤ s.place then
    String.ofList (digits ++ List.replicate s.place.toNat '0')
  else
    let places := (-s.place).toNat
    let padded := List.replicate (places + 1 - digits.length) '0' ++ digits
    let whole := padded.length - places
    String.ofList (padded.take whole ++ '.' :: padded.drop whole)

end CatLang.Decimal
