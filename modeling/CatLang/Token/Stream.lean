import CatLang.Text.Decoder
import CatLang.Token.Source

/-! Bytes as a source of characters. They are read as far as characters are asked for. -/
namespace CatLang

/-- Bytes that are still to be read, the text of those that were, and the last fault met. -/
structure ByteStream (d : Decoder) where
  bytes : List UInt8
  text : String
  fault : Option Fault

namespace ByteStream
variable {d : Decoder}

def ofBytes (d : Decoder) (bytes : List UInt8) : ByteStream d := ⟨bytes, "", none⟩

/-- A fault gives no character, and the next call goes on behind it. -/
def next (s : ByteStream d) : Option (Nat × Char) × ByteStream d :=
  match s.bytes with
  | [] => (none, s)
  | lead :: rest =>
    let bytes := (d.read lead rest).2
    match (d.read lead rest).1 with
    | .ok c => (some (Span.wrap s.text.utf8ByteSize, c), { s with bytes, text := s.text.push c })
    | .error fault => (none, { s with bytes, fault := some fault })

section Next
variable {s : ByteStream d} {lead : UInt8} {rest : List UInt8}

theorem next_of_nil (h : s.bytes = []) : s.next = (none, s) := by
  unfold next
  split
  · rfl
  · next hbytes => cases h.symm.trans hbytes

theorem next_of_ok {c : Char} (h : s.bytes = lead :: rest) (hc : (d.read lead rest).1 = .ok c) :
    s.next = (some (Span.wrap s.text.utf8ByteSize, c),
      ⟨(d.read lead rest).2, s.text.push c, s.fault⟩) := by
  simp only [next, h, hc]

theorem next_of_error {fault : Fault} (h : s.bytes = lead :: rest)
    (hc : (d.read lead rest).1 = .error fault) :
    s.next = (none, ⟨(d.read lead rest).2, s.text, some fault⟩) := by
  simp only [next, h, hc]

theorem length_next_lt (h : s.bytes = lead :: rest) :
    s.next.2.bytes.length < s.bytes.length := by
  have hlt := Nat.lt_succ_of_le (d.length_read_le lead rest)
  cases hc : (d.read lead rest).1 with
  | ok c => rwa [next_of_ok h hc, h]
  | error fault => rwa [next_of_error h hc, h]

end Next

instance : CharSource (ByteStream d) where
  next := next
  size s := s.bytes.length
  size_next_le s := by
    cases h : s.bytes with
    | nil => exact Nat.le_of_eq (by rw [next_of_nil h, h])
    | cons lead rest => exact h ▸ Nat.le_of_lt (length_next_lt h)
  size_next_lt {s place} h := by
    cases hbytes : s.bytes with
    | nil =>
      rw [next_of_nil hbytes] at h
      cases h
    | cons lead rest => rw [← hbytes]; exact length_next_lt hbytes

/-- The text with the bytes behind it, unless there is a fault among them. -/
def readOn (d : Decoder) (text : String) : List UInt8 → Except Fault String
  | [] => .ok text
  | lead :: rest =>
    match (d.read lead rest).1 with
    | .ok c => readOn d (text.push c) (d.read lead rest).2
    | .error fault => .error fault
termination_by bytes => bytes.length
decreasing_by exact Nat.lt_succ_of_le (d.length_read_le lead rest)

end ByteStream

end CatLang
