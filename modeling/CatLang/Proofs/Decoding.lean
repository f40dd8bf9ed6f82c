import CatLang.Token.Stream

/-! Decoders of UTF-8, whichever they are. Reading bytes to their end gives an answer for each
character and each fault (`Decoder.decode`), and there is no fault exactly if the bytes are the
encoding of a text. A stream has given a part of these answers and will give the others
(`ByteStream.Seen`). -/
namespace CatLang

theorem fromUTF8?_eq_some_iff {b : ByteArray} {source : String} :
    String.fromUTF8? b = some source ↔ source.toByteArray = b := by
  unfold String.fromUTF8?
  constructor
  · intro h
    split at h
    · cases h
      rfl
    · cases h
  · rintro rfl
    rw [dif_pos source.isValidUTF8]
    rfl

theorem fromUTF8?_eq_none_iff {b : ByteArray} :
    String.fromUTF8? b = none ↔ ¬ b.IsValidUTF8 := by
  unfold String.fromUTF8?
  split <;> simp_all

namespace Decoder

/-- A character is read exactly where the bytes start with its encoding, and what follows is left. -/
def IsUtf8 (d : Decoder) : Prop :=
  ∀ lead rest c after,
    d.read lead rest = (.ok c, after) ↔ String.utf8EncodeChar c ++ after = lead :: rest

/-- The bytes break off inside the encoding of a character. -/
def CutOff (bytes : List UInt8) : Prop :=
  ∃ c missing, String.utf8EncodeChar c = bytes ++ missing ∧ bytes ≠ [] ∧ missing ≠ []

/-- A sequence that the end of the bytes cuts off gives another fault than all other bad bytes. -/
structure TellsFaults (d : Decoder) : Prop where
  cutOff {lead : UInt8} {rest : List UInt8} (h : CutOff (lead :: rest)) :
    (d.read lead rest).1 = .error .unexpectedEnd
  fault {lead : UInt8} {rest : List UInt8} (fault : Fault)
    (h : (d.read lead rest).1 = .error fault) :
    fault = .invalidData ∨ fault = .unexpectedEnd ∧ (d.read lead rest).2 = []

/-- The answers until all bytes are read. -/
def decode (d : Decoder) : List UInt8 → List (Except Fault Char)
  | [] => []
  | lead :: rest => (d.read lead rest).1 :: d.decode (d.read lead rest).2
termination_by bytes => bytes.length
decreasing_by exact Nat.lt_succ_of_le (d.length_read_le lead rest)

def chars (decoded : List (Except Fault Char)) : List Char := decoded.filterMap Except.toOption

def fault? : Except Fault Char → Option Fault
  | .ok _ => none
  | .error fault => some fault

def faults (decoded : List (Except Fault Char)) : List Fault := decoded.filterMap fault?

theorem mem_faults_iff {decoded : List (Except Fault Char)} {fault : Fault} :
    fault ∈ faults decoded ↔ .error fault ∈ decoded := by
  rw [faults, List.mem_filterMap]
  constructor
  · rintro ⟨d, hd, hfault⟩
    cases d with
    | ok c => cases hfault
    | error fault' =>
      cases hfault
      exact hd
  · exact fun h => ⟨_, h, rfl⟩

theorem faults_map_ok (text : List Char) : faults (text.map .ok) = [] := by
  simp [faults, fault?]

theorem chars_map_ok (text : List Char) : chars (text.map .ok) = text := by
  simp [chars, List.filterMap_map, Function.comp_def, Except.toOption]

theorem eq_map_ok_of_faults {decoded : List (Except Fault Char)} (h : faults decoded = []) :
    decoded = (chars decoded).map .ok := by
  induction decoded with
  | nil => rfl
  | cons d rest ih =>
    cases d with
    | error fault => cases h
    | ok c => exact congrArg (.ok c :: ·) (ih h)

variable {d : Decoder} {bytes : List UInt8}

theorem decode_eq_nil_iff : d.decode bytes = [] ↔ bytes = [] := by
  cases bytes <;> simp [decode]

namespace IsUtf8
variable (hd : d.IsUtf8)
include hd

/-- Encoded characters are read back, and reading goes on behind them. -/
theorem decode_encode_append (text : List Char) (rest : List UInt8) :
    d.decode (text.flatMap String.utf8EncodeChar ++ rest) = text.map .ok ++ d.decode rest := by
  induction text with
  | nil => rfl
  | cons c text ih =>
    obtain ⟨lead, tail, hencode⟩ := List.exists_cons_of_ne_nil (String.utf8EncodeChar_ne_nil (c := c))
    have hread := (hd lead (tail ++ (text.flatMap String.utf8EncodeChar ++ rest)) c _).2
      (by rw [hencode, List.cons_append])
    rw [List.flatMap_cons, List.append_assoc, hencode, List.cons_append, decode, hread, ih]
    rfl

theorem decode_encode (text : List Char) :
    d.decode (text.flatMap String.utf8EncodeChar) = text.map .ok := by
  have hdecode := hd.decode_encode_append text []
  rwa [List.append_nil, decode, List.append_nil] at hdecode

/-- Characters that are read first are encoded at the start of the bytes. -/
theorem exists_of_decode_eq_append {text : List Char} {more : List (Except Fault Char)}
    (h : d.decode bytes = text.map .ok ++ more) :
    ∃ rest, text.flatMap String.utf8EncodeChar ++ rest = bytes ∧ d.decode rest = more := by
  induction text generalizing bytes with
  | nil => exact ⟨bytes, rfl, h⟩
  | cons c text ih =>
    cases bytes with
    | nil =>
      rw [decode] at h
      cases h
    | cons lead bytes =>
      rw [decode, List.map_cons, List.cons_append] at h
      obtain ⟨hc, htext⟩ := List.cons.inj h
      obtain ⟨rest, hrest, hmore⟩ := ih htext
      refine ⟨rest, ?_, hmore⟩
      rw [List.flatMap_cons, List.append_assoc, hrest]
      exact (hd lead bytes c _).1 (Prod.ext hc rfl)

theorem decode_eq_map_ok_iff {text : List Char} :
    d.decode bytes = text.map .ok ↔ text.flatMap String.utf8EncodeChar = bytes := by
  constructor
  · intro h
    obtain ⟨rest, hrest, hnil⟩ := hd.exists_of_decode_eq_append (h.trans (List.append_nil _).symm)
    rwa [decode_eq_nil_iff.1 hnil, List.append_nil] at hrest
  · rintro rfl
    exact hd.decode_encode text

/-- Reading the bytes meets no fault exactly if they are a text. -/
theorem faults_decode_eq_nil_iff :
    faults (d.decode bytes) = [] ↔ bytes.toByteArray.IsValidUTF8 := by
  constructor
  · intro h
    refine ⟨chars (d.decode bytes), ?_⟩
    rw [List.utf8Encode, hd.decode_eq_map_ok_iff.1 (eq_map_ok_of_faults h)]
  · rintro ⟨text, htext⟩
    have hbytes : text.flatMap String.utf8EncodeChar = bytes := by
      simpa [List.utf8Encode] using (congrArg (·.data.toList) htext).symm
    rw [hd.decode_eq_map_ok_iff.2 hbytes, faults_map_ok]

end IsUtf8

end Decoder

namespace ByteStream
open Decoder (chars faults)
variable {d : Decoder} {bytes : List UInt8} {s : ByteStream d} {seen : List (Except Fault Char)}

/-- The stream has given the answers `seen` of all that there are for the bytes. -/
structure Seen (bytes : List UInt8) (s : ByteStream d) (seen : List (Except Fault Char)) : Prop where
  decoded : seen ++ d.decode s.bytes = d.decode bytes
  text : s.text.toList = chars seen
  fault : s.fault = (faults seen).getLast?

theorem Seen.ofBytes (d : Decoder) (bytes : List UInt8) : Seen bytes (ofBytes d bytes) [] :=
  ⟨rfl, rfl, rfl⟩

theorem Seen.next (h : Seen bytes s seen) : ∃ seen', Seen bytes s.next.2 seen' := by
  cases hbytes : s.bytes with
  | nil =>
    rw [next_of_nil hbytes]
    exact ⟨seen, h⟩
  | cons lead rest =>
    have hdecoded := h.decoded
    rw [hbytes, Decoder.decode] at hdecoded
    cases hc : (d.read lead rest).1 with
    | ok c =>
      rw [next_of_ok hbytes hc]
      refine ⟨seen ++ [.ok c], by rw [← hdecoded, hc]; simp, ?_, ?_⟩
      · simp [chars, h.text, Except.toOption]
      · simp [faults, h.fault, Decoder.fault?]
    | error fault =>
      rw [next_of_error hbytes hc]
      refine ⟨seen ++ [.error fault], by rw [← hdecoded, hc]; simp, ?_, ?_⟩
      · simp [chars, h.text, Except.toOption]
      · simp [faults, Decoder.fault?]

/-- Reading on gives the characters left, or the first fault. -/
theorem readOn_eq (d : Decoder) (text : String) (bytes : List UInt8) :
    readOn d text bytes =
      match (faults (d.decode bytes)).head? with
      | some fault => .error fault
      | none => .ok (text ++ String.ofList (chars (d.decode bytes))) := by
  fun_induction readOn d text bytes with
  | case1 text => simp [Decoder.decode, faults, chars]
  | case2 text lead rest c hc ih =>
    have hpush (more : List Char) :
        text.push c ++ String.ofList more = text ++ String.ofList (c :: more) := by
      apply String.toList_injective
      simp
    rw [ih, hpush, Decoder.decode, hc]
    rfl
  | case3 text lead rest fault hc =>
    rw [Decoder.decode, hc]
    rfl

end ByteStream

end CatLang
