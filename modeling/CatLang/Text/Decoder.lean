import CatLang.Fault

/-! Reading bytes as characters, one at a time. -/
namespace CatLang

/-- Reads the character that starts with the given byte, out of the bytes behind it. Where there is
none it gives a fault. Either way it leaves bytes to go on with. -/
structure Decoder where
  read : UInt8 → List UInt8 → Except Fault Char × List UInt8
  length_read_le (lead : UInt8) (rest : List UInt8) : (read lead rest).2.length ≤ rest.length

end CatLang
