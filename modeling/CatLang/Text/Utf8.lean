import CatLang.Text.Decoder

/-! The decoder of UTF-8. A sequence that is no character gives a fault, and reading goes on behind
it. -/
namespace CatLang.Text.Utf8

def isTail (byte : UInt8) : Bool := 0x80 ≤ byte && byte < 0xC0

/-- The character of a code point, unless a shorter sequence would do or there is none. -/
def finish (least code : Nat) : Except Fault Char :=
  if least ≤ code ∧ code.isValidChar then .ok (Char.ofNat code) else .error .invalidData

/-- Reads the `count` tail bytes of a sequence. A byte that is no tail is left for the next one. -/
def tails (least : Nat) : Nat → Nat → List UInt8 → Except Fault Char × List UInt8
  | 0, code, rest => (finish least code, rest)
  | _ + 1, _, [] => (.error .unexpectedEnd, [])
  | count + 1, code, byte :: rest =>
    if isTail byte then tails least count (64 * code + byte.toNat % 64) rest
    else (.error .invalidData, byte :: rest)

def sequence (lead : UInt8) (rest : List UInt8) : Except Fault Char × List UInt8 :=
  if lead < 0x80 then (.ok (Char.ofNat lead.toNat), rest)
  else if lead < 0xC0 then (.error .invalidData, rest)
  else if lead < 0xE0 then tails 0x80 1 (lead.toNat % 32) rest
  else if lead < 0xF0 then tails 0x800 2 (lead.toNat % 16) rest
  else if lead < 0xF8 then tails 0x10000 3 (lead.toNat % 8) rest
  else (.error .invalidData, rest)

theorem length_tails_le (least count code : Nat) (bytes : List UInt8) :
    (tails least count code bytes).2.length ≤ bytes.length := by
  fun_induction tails least count code bytes with
  | case1 => exact Nat.le_refl _
  | case2 => exact Nat.le_refl _
  | case3 _ _ byte rest _ ih => exact Nat.le_succ_of_le ih
  | case4 => exact Nat.le_refl _

def decoder : Decoder where
  read := sequence
  length_read_le lead rest := by
    unfold sequence
    repeat' split
    all_goals first
      | exact Nat.le_refl _
      | exact length_tails_le _ _ _ _

end CatLang.Text.Utf8
