import CatLang.Proofs.Decoding
import CatLang.Text.Utf8

/-! The decoder of UTF-8 reads a sequence exactly where a character is encoded (`sequence_encode`,
`encode_of_sequence`). The end of the bytes is unexpected exactly inside a sequence
(`takes_sequence`). -/
namespace CatLang.Text.Utf8

/-- The code point that the bits of tail bytes give behind those of `code`. -/
def joined (code : Nat) (tail : List UInt8) : Nat :=
  tail.foldl (fun code byte => 64 * code + byte.toNat % 64) code

theorem isTail_iff {byte : UInt8} : isTail byte = true ↔ 128 ≤ byte.toNat ∧ byte.toNat < 192 := by
  simp [isTail, UInt8.le_iff_toNat_le, UInt8.lt_iff_toNat_lt]

theorem finish_eq_ok {least code : Nat} {c : Char} :
    finish least code = .ok c ↔ least ≤ code ∧ c.toNat = code := by
  unfold finish
  constructor
  · intro h
    split at h
    · next hcode =>
      cases h
      refine ⟨hcode.1, ?_⟩
      rw [Char.ofNat, dif_pos hcode.2]
      rfl
    · cases h
  · rintro ⟨hleast, rfl⟩
    rw [if_pos ⟨hleast, c.valid⟩, Char.ofNat_toNat]

theorem tails_append (tail rest : List UInt8) {least code : Nat} {c : Char}
    (h : ∀ byte ∈ tail, isTail byte = true) (hleast : least ≤ c.toNat)
    (hcode : c.toNat = joined code tail) :
    tails least tail.length code (tail ++ rest) = (.ok c, rest) := by
  induction tail generalizing code with
  | nil =>
    have hleast : least ≤ code := Nat.le_trans hleast (Nat.le_of_eq hcode)
    exact congrArg (·, rest) (finish_eq_ok.2 ⟨hleast, hcode⟩)
  | cons byte tail ih =>
    rw [List.length_cons, List.cons_append, tails, if_pos (h byte List.mem_cons_self)]
    exact ih (fun byte hbyte => h byte (List.mem_cons_of_mem _ hbyte)) hcode

theorem exists_of_tails_eq_ok {least count code : Nat} {bytes rest : List UInt8} {c : Char}
    (h : tails least count code bytes = (.ok c, rest)) :
    ∃ tail : List UInt8, tail.length = count ∧ (∀ byte ∈ tail, isTail byte = true) ∧
      bytes = tail ++ rest ∧ finish least (joined code tail) = .ok c := by
  fun_induction tails least count code bytes with
  | case1 code bytes =>
    obtain ⟨hfinish, rfl⟩ := Prod.mk.inj h
    exact ⟨[], rfl, by simp, rfl, hfinish⟩
  | case2 => simp at h
  | case3 count code byte bytes hbyte ih =>
    obtain ⟨tail, rfl, htail, rfl, hfinish⟩ := ih h
    exact ⟨byte :: tail, rfl, by simpa [hbyte] using htail, rfl, hfinish⟩
  | case4 => simp at h

/-- What the first byte announces: the least code point, the number of tail bytes, and its share of
the code point. -/
theorem sequence_of_lead {lead : UInt8} (rest : List UInt8) :
    (lead.toNat < 128 → sequence lead rest = (finish 0 lead.toNat, rest)) ∧
      (192 ≤ lead.toNat → lead.toNat < 224 →
        sequence lead rest = tails 128 1 (lead.toNat % 32) rest) ∧
      (224 ≤ lead.toNat → lead.toNat < 240 →
        sequence lead rest = tails 2048 2 (lead.toNat % 16) rest) ∧
      (240 ≤ lead.toNat → lead.toNat < 248 →
        sequence lead rest = tails 65536 3 (lead.toNat % 8) rest) := by
  simp only [sequence, UInt8.lt_iff_toNat_lt, UInt8.reduceToNat]
  refine ⟨fun h => ?_, fun h h' => ?_, fun h h' => ?_, fun h h' => ?_⟩
  · rw [if_pos h, finish, if_pos]
    exact ⟨Nat.zero_le _, .inl (by omega)⟩
  · rw [if_neg (by omega), if_neg (by omega), if_pos h']
  · rw [if_neg (by omega), if_neg (by omega), if_neg (by omega), if_pos h']
  · rw [if_neg (by omega), if_neg (by omega), if_neg (by omega), if_neg (by omega), if_pos h']

/-- A tail byte with the last six of these bits. -/
def tailByte (bits : Nat) : UInt8 := .ofNat (bits % 64 + 128)

@[simp] theorem toNat_tailByte (bits : Nat) : (tailByte bits).toNat = bits % 64 + 128 := by
  rw [tailByte, UInt8.toNat_ofNat']
  omega

@[simp] theorem isTail_tailByte (bits : Nat) : isTail (tailByte bits) = true := by
  rw [isTail_iff, toNat_tailByte]
  omega

theorem eq_tailByte {byte : UInt8} (h : isTail byte = true) {bits : Nat}
    (hbits : byte.toNat % 64 = bits % 64) : byte = tailByte bits := by
  rw [isTail_iff] at h
  rw [← UInt8.toNat_inj, toNat_tailByte]
  omega

/-- The bytes of a code point. -/
def encoded (code : Nat) : List UInt8 :=
  if code ≤ 127 then [.ofNat code]
  else if code ≤ 2047 then [.ofNat (code / 64 % 32 + 192), tailByte code]
  else if code ≤ 65535 then
    [.ofNat (code / 4096 % 16 + 224), tailByte (code / 64), tailByte code]
  else
    [.ofNat (code / 262144 % 8 + 240), tailByte (code / 4096), tailByte (code / 64), tailByte code]

theorem utf8EncodeChar_eq (c : Char) : String.utf8EncodeChar c = encoded c.toNat := rfl

theorem toNat_ofNat_of_lt {n : Nat} (h : n < 256) : (UInt8.ofNat n).toNat = n := by
  rw [UInt8.toNat_ofNat', Nat.mod_eq_of_lt h]

/-- An encoded character is read back, whatever follows. -/
theorem sequence_encode (c : Char) (rest : List UInt8) :
    ∃ lead tail, String.utf8EncodeChar c = lead :: tail ∧
      sequence lead (tail ++ rest) = (.ok c, rest) := by
  have hvalid : c.toNat < 1114112 := by
    have := c.valid
    simp only [UInt32.isValidChar, Nat.isValidChar] at this
    rw [Char.toNat]
    omega
  rw [utf8EncodeChar_eq, encoded]
  generalize hcode : c.toNat = code at hvalid
  split
  · have hlead := toNat_ofNat_of_lt (show code < 256 by omega)
    refine ⟨_, _, rfl, ((sequence_of_lead _).1 (by omega)).trans ?_⟩
    rw [hlead, finish_eq_ok.2 ⟨Nat.zero_le _, hcode⟩]
    rfl
  split
  · have hlead := toNat_ofNat_of_lt (show code / 64 % 32 + 192 < 256 by omega)
    refine ⟨_, _, rfl, ((sequence_of_lead _).2.1 (by omega) (by omega)).trans ?_⟩
    refine tails_append [_] rest (by simp) (by omega) ?_
    simp only [joined, List.foldl_cons, List.foldl_nil, hlead, toNat_tailByte]
    omega
  split
  · have hlead := toNat_ofNat_of_lt (show code / 4096 % 16 + 224 < 256 by omega)
    refine ⟨_, _, rfl, ((sequence_of_lead _).2.2.1 (by omega) (by omega)).trans ?_⟩
    refine tails_append [_, _] rest (by simp) (by omega) ?_
    simp only [joined, List.foldl_cons, List.foldl_nil, hlead, toNat_tailByte]
    omega
  · have hlead := toNat_ofNat_of_lt (show code / 262144 % 8 + 240 < 256 by omega)
    refine ⟨_, _, rfl, ((sequence_of_lead _).2.2.2 (by omega) (by omega)).trans ?_⟩
    refine tails_append [_, _, _] rest (by simp) (by omega) ?_
    simp only [joined, List.foldl_cons, List.foldl_nil, hlead, toNat_tailByte]
    omega

theorem eq_ofNat {lead : UInt8} {n : Nat} (h : lead.toNat = n) : lead = .ofNat n := by
  rw [← h, UInt8.ofNat_toNat]

/-- What is read as a character is its encoding. -/
theorem encode_of_sequence {lead : UInt8} {bytes rest : List UInt8} {c : Char}
    (h : sequence lead bytes = (.ok c, rest)) :
    String.utf8EncodeChar c ++ rest = lead :: bytes := by
  rw [utf8EncodeChar_eq]
  by_cases hascii : lead.toNat < 128
  · rw [(sequence_of_lead _).1 hascii] at h
    obtain ⟨hfinish, rfl⟩ := Prod.mk.inj h
    rw [(finish_eq_ok.1 hfinish).2, encoded, if_pos (by omega), UInt8.ofNat_toNat]
    rfl
  simp only [sequence, UInt8.lt_iff_toNat_lt, UInt8.reduceToNat, if_neg hascii] at h
  split at h
  · cases h
  split at h
  · obtain ⟨tail, hlen, htail, rfl, hfinish⟩ := exists_of_tails_eq_ok h
    match tail, hlen with
    | [a], _ =>
      obtain ⟨hleast, hcode⟩ := finish_eq_ok.1 hfinish
      simp only [List.forall_mem_cons] at htail
      have ha := isTail_iff.1 htail.1
      simp only [joined, List.foldl_cons, List.foldl_nil] at hleast hcode
      rw [encoded, if_neg (by omega), if_pos (by omega),
        ← eq_ofNat (show lead.toNat = _ by omega), ← eq_tailByte htail.1 (by omega)]
      rfl
  split at h
  · obtain ⟨tail, hlen, htail, rfl, hfinish⟩ := exists_of_tails_eq_ok h
    match tail, hlen with
    | [a, b], _ =>
      obtain ⟨hleast, hcode⟩ := finish_eq_ok.1 hfinish
      simp only [List.forall_mem_cons] at htail
      have ha := isTail_iff.1 htail.1
      have hb := isTail_iff.1 htail.2.1
      simp only [joined, List.foldl_cons, List.foldl_nil] at hleast hcode
      rw [encoded, if_neg (by omega), if_neg (by omega), if_pos (by omega),
        ← eq_ofNat (show lead.toNat = _ by omega), ← eq_tailByte htail.1 (by omega),
        ← eq_tailByte htail.2.1 (by omega)]
      rfl
  split at h
  · obtain ⟨tail, hlen, htail, rfl, hfinish⟩ := exists_of_tails_eq_ok h
    match tail, hlen with
    | [a, b, d], _ =>
      obtain ⟨hleast, hcode⟩ := finish_eq_ok.1 hfinish
      simp only [List.forall_mem_cons] at htail
      have ha := isTail_iff.1 htail.1
      have hb := isTail_iff.1 htail.2.1
      have hd := isTail_iff.1 htail.2.2.1
      simp only [joined, List.foldl_cons, List.foldl_nil] at hleast hcode
      rw [encoded, if_neg (by omega), if_neg (by omega), if_neg (by omega),
        ← eq_ofNat (show lead.toNat = _ by omega), ← eq_tailByte htail.1 (by omega),
        ← eq_tailByte htail.2.1 (by omega), ← eq_tailByte htail.2.2.1 (by omega)]
      rfl
  · cases h

theorem isUtf8_decoder : decoder.IsUtf8 := by
  intro lead rest c after
  constructor
  · exact encode_of_sequence
  · intro h
    obtain ⟨lead', tail, hencode, hsequence⟩ := sequence_encode c after
    rw [hencode, List.cons_append] at h
    obtain ⟨rfl, rfl⟩ := List.cons.inj h
    exact hsequence

/-- How many tail bytes the first byte of a sequence announces. -/
def announced (lead : UInt8) : Nat :=
  if lead < 0xC0 then 0
  else if lead < 0xE0 then 1
  else if lead < 0xF0 then 2
  else if lead < 0xF8 then 3
  else 0

/-- What reading up to `count` tail bytes does: the end is unexpected exactly if there are too few of
them and nothing else. -/
structure Takes (count : Nat) (bytes : List UInt8) (result : Except Fault Char × List UInt8) :
    Prop where
  ends : result.1 = .error .unexpectedEnd ↔
    (∀ byte ∈ bytes, isTail byte = true) ∧ bytes.length < count
  fault : ∀ fault, result.1 = .error fault →
    fault = .invalidData ∨ fault = .unexpectedEnd ∧ result.2 = []

theorem takes_invalid (bytes : List UInt8) : Takes 0 bytes (.error .invalidData, bytes) where
  ends := by simp
  fault fault h := by
    cases h
    exact .inl rfl

theorem takes_finish (least code : Nat) (bytes : List UInt8) :
    Takes 0 bytes (finish least code, bytes) := by
  unfold finish
  split
  · exact ⟨by simp, nofun⟩
  · exact takes_invalid bytes

theorem takes_tails (least count code : Nat) (bytes : List UInt8) :
    Takes count bytes (tails least count code bytes) := by
  fun_induction tails least count code bytes with
  | case1 code bytes => exact takes_finish least code bytes
  | case2 count code =>
    refine ⟨by simp, fun fault h => ?_⟩
    cases h
    exact .inr ⟨rfl, rfl⟩
  | case3 count code byte bytes hbyte ih =>
    refine ⟨?_, ih.fault⟩
    rw [ih.ends, List.forall_mem_cons, List.length_cons, Nat.succ_lt_succ_iff]
    simp [hbyte]
  | case4 count code byte bytes hbyte =>
    refine ⟨by simp [hbyte], fun fault h => ?_⟩
    cases h
    exact .inl rfl

theorem takes_sequence (lead : UInt8) (rest : List UInt8) :
    Takes (announced lead) rest (sequence lead rest) := by
  unfold announced sequence
  by_cases hascii : lead < 0x80
  · have htail : lead < 0xC0 := by
      rw [UInt8.lt_iff_toNat_lt] at hascii ⊢
      exact Nat.lt_trans hascii (by decide)
    rw [if_pos htail, if_pos hascii]
    exact ⟨by simp, nofun⟩
  rw [if_neg hascii]
  split
  · exact takes_invalid rest
  split
  · exact takes_tails ..
  split
  · exact takes_tails ..
  split
  · exact takes_tails ..
  · exact takes_invalid rest

theorem encoded_eq_cons (c : Char) :
    ∃ lead tail, String.utf8EncodeChar c = lead :: tail ∧ tail.length = announced lead ∧
      ∀ byte ∈ tail, isTail byte = true := by
  rw [utf8EncodeChar_eq, encoded]
  have hlead {n : Nat} (h : n < 256) : (UInt8.ofNat n).toNat = n := toNat_ofNat_of_lt h
  simp only [announced, UInt8.lt_iff_toNat_lt, UInt8.reduceToNat]
  split
  · refine ⟨_, _, rfl, ?_, by simp⟩
    rw [hlead (by omega), if_pos (by omega)]
    rfl
  split
  · refine ⟨_, _, rfl, ?_, by simp⟩
    rw [hlead (by omega), if_neg (by omega), if_pos (by omega)]
    rfl
  split
  · refine ⟨_, _, rfl, ?_, by simp⟩
    rw [hlead (by omega), if_neg (by omega), if_neg (by omega), if_pos (by omega)]
    rfl
  · refine ⟨_, _, rfl, ?_, by simp⟩
    rw [hlead (by omega), if_neg (by omega), if_neg (by omega), if_neg (by omega),
      if_pos (by omega)]
    rfl

theorem tellsFaults_decoder : decoder.TellsFaults where
  cutOff {lead rest} h := by
    obtain ⟨c, missing, hencode, -, hmissing⟩ := h
    obtain ⟨lead', tail, htail, hlength, htails⟩ := encoded_eq_cons c
    rw [htail, List.cons_append] at hencode
    obtain ⟨rfl, rfl⟩ := List.cons.inj hencode
    refine (takes_sequence lead' rest).ends.2 ⟨fun byte hbyte => ?_, ?_⟩
    · exact htails byte (List.mem_append_left _ hbyte)
    · have hpos := List.length_pos_iff.2 hmissing
      rw [List.length_append] at hlength
      omega
  fault {lead rest} fault h := (takes_sequence lead rest).fault fault h

end CatLang.Text.Utf8
