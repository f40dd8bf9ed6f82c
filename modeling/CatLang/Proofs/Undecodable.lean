import Mathlib
import CatLang.CommandLine.Run
import CatLang.Proofs.Stream

/-! Files that are no text. A sequence that the end of the file cuts off gives another fault than
all other bad bytes, and it can only be the last fault (`TellsFaults.exists_init`). The command line
takes this fault for a missing file; so it matters which of the faults of a file reaches it. Listing
tokens reads the file whole and knows one fault only. Otherwise a file is taken for missing exactly
if its end cuts off a sequence and either that is its only fault or the parser has read up to there
(`CommandLine.TakenForMissing`). -/
namespace CatLang

namespace Decoder
variable {d : Decoder} {bytes : List UInt8}

theorem faults_append (front back : List (Except Fault Char)) :
    faults (front ++ back) = faults front ++ faults back :=
  List.filterMap_append

namespace TellsFaults
variable (hf : d.TellsFaults)
include hf

theorem eq_of_mem_decode {fault : Fault} (h : .error fault ∈ d.decode bytes) :
    fault = .invalidData ∨ fault = .unexpectedEnd := by
  fun_induction decode d bytes with
  | case1 => cases h
  | case2 lead rest ih =>
    rcases List.mem_cons.1 h with h | h
    · exact (hf.fault fault h.symm).imp_right And.left
    · exact ih h

/-- An unexpected end comes last and only once. -/
theorem exists_init (h : .error .unexpectedEnd ∈ d.decode bytes) :
    ∃ init, d.decode bytes = init ++ [.error .unexpectedEnd] ∧ .error .unexpectedEnd ∉ init := by
  fun_induction decode d bytes with
  | case1 => cases h
  | case2 lead rest ih =>
    by_cases hend : (d.read lead rest).1 = .error .unexpectedEnd
    · have hnil : (d.read lead rest).2 = [] :=
        ((hf.fault _ hend).resolve_left Fault.noConfusion).2
      refine ⟨[], ?_, List.not_mem_nil⟩
      rw [hend, hnil, decode]
      rfl
    · have hmem := (List.mem_cons.1 h).resolve_left fun heq => hend heq.symm
      obtain ⟨init, hdecode, hinit⟩ := ih hmem
      refine ⟨(d.read lead rest).1 :: init, by rw [hdecode]; rfl, ?_⟩
      rw [List.mem_cons, not_or]
      exact ⟨fun heq => hend heq.symm, hinit⟩

/-- Behind a text, a sequence that is cut off is the only fault. -/
theorem decode_cutOff (hd : d.IsUtf8) (text : List Char) {cut : List UInt8} (h : CutOff cut) :
    d.decode (text.flatMap String.utf8EncodeChar ++ cut) =
      text.map .ok ++ [.error .unexpectedEnd] := by
  obtain ⟨lead, rest, rfl⟩ : ∃ lead rest, cut = lead :: rest := by
    obtain ⟨-, -, -, hcut, -⟩ := h
    exact List.exists_cons_of_ne_nil hcut
  have hend := hf.cutOff h
  have hnil : (d.read lead rest).2 = [] := ((hf.fault _ hend).resolve_left Fault.noConfusion).2
  rw [hd.decode_encode_append, decode, hend, hnil, decode]

end TellsFaults

/-- A fault that only the last answer has is the one that comes up if all answers were seen, or if it
is the only fault. -/
theorem lastOrFirst_eq_some_iff {seen unseen init : List (Except Fault Char)} {fault : Fault}
    (hall : seen ++ unseen = init ++ [.error fault]) (h : .error fault ∉ init) :
    (faults seen).getLast?.or (faults unseen).head? = some fault ↔
      faults (seen ++ unseen) = [fault] ∨ unseen = [] := by
  by_cases hunseen : unseen = []
  · subst hunseen
    rw [List.append_nil] at hall ⊢
    have hlast : (faults seen).getLast? = some fault := by
      rw [hall, faults_append]
      exact List.getLast?_concat
    simp [hlast]
  obtain ⟨rest, last, rfl⟩ : ∃ rest last, unseen = rest ++ [last] :=
    ⟨_, _, (List.dropLast_concat_getLast hunseen).symm⟩
  rw [← List.append_assoc] at hall
  obtain ⟨rfl, hlast⟩ := List.append_inj' hall rfl
  obtain rfl : last = .error fault := List.singleton_inj.1 hlast
  have hother {f : Fault} (hf : f ∈ faults (seen ++ rest)) : f ≠ fault := by
    rintro rfl
    exact h (mem_faults_iff.1 hf)
  rw [faults_append] at hother
  have hsingle : faults [.error fault] = [fault] := rfl
  rw [or_iff_left (by simp), ← List.append_assoc, faults_append, faults_append, faults_append,
    hsingle]
  cases hseen : (faults seen).getLast? with
  | some f =>
    have hmem := List.mem_of_getLast? hseen
    have hne : f ≠ fault := hother (List.mem_append_left _ hmem)
    constructor
    · exact fun heq => absurd (Option.some.inj heq) hne
    · intro heq
      have hnil := List.append_cancel_right (heq.trans (List.nil_append [fault]).symm)
      rw [(List.append_eq_nil_iff.1 hnil).1] at hmem
      cases hmem
  | none =>
    rw [List.getLast?_eq_none_iff.1 hseen]
    cases hrest : faults rest with
    | nil => simp
    | cons f more =>
      have hne : f ≠ fault := hother (by rw [hrest]; simp)
      simp [hne]

end Decoder

namespace CommandLine
open Decoder (faults CutOff)

/-- Whether a file that is no text is taken for a missing one: its end is unexpected, and no other
fault of it comes up. -/
def TakenForMissing (d : Decoder) (options : Options) (bytes : List UInt8) : Prop :=
  options.has .tokens = false ∧ .error .unexpectedEnd ∈ d.decode bytes ∧
    (faults (d.decode bytes) = [.unexpectedEnd] ∨ (parseStream d bytes).2.bytes = [])

/-- What is written before a file is looked at. -/
def opening (options : Options) (path : String) : List Event :=
  if options.has .verbose = true ∧ options.has .tokens = false then [.parsing path] else []

variable {d : Decoder} {options : Options} {path : String} {bytes : List UInt8}

/-- A file that is no text comes to one of two faults. -/
theorem runFile_of_undecodable (hd : d.IsUtf8) (hf : d.TellsFaults) (limit : Nat)
    (options : Options) (path : String) (h : ¬ bytes.toByteArray.IsValidUTF8) :
    ∃ fault, (fault = .invalidData ∨ fault = .unexpectedEnd) ∧
      (fault = .unexpectedEnd ↔ TakenForMissing d options bytes) ∧
      (runFile d limit options path (.ok bytes)).events =
        opening options path ++ (unreadFile path fault).events ∧
      (runFile d limit options path (.ok bytes)).code = (unreadFile path fault).code := by
  cases htokens : options.has .tokens with
  | true =>
    have hopening : opening options path = [] := by simp [opening, htokens]
    have hmissing : ¬ TakenForMissing d options bytes := by simp [TakenForMissing, htokens]
    refine ⟨.invalidData, .inl rfl, by simp [hmissing], ?_⟩
    rw [hopening, runFile, if_pos htokens, listTokens]
    simp only [fromUTF8?_eq_none_iff.2 h, List.nil_append, and_self]
  | false =>
    obtain ⟨seen, fault, hseen, hfault, hstream⟩ := Checked.ofStream_of_invalid hd path h
    have hmem : .error fault ∈ d.decode bytes := by
      apply Decoder.mem_faults_iff.1
      rw [← hseen.decoded, Decoder.faults_append]
      rcases Option.or_eq_some_iff.1 hfault with hlast | ⟨-, hfirst⟩
      · exact List.mem_append_left _ (List.mem_of_getLast? hlast)
      · exact List.mem_append_right _ (List.mem_of_head? hfirst)
    refine ⟨fault, hf.eq_of_mem_decode hmem, ?_, ?_⟩
    · by_cases hend : .error .unexpectedEnd ∈ d.decode bytes
      · obtain ⟨init, hdecode, hinit⟩ := hf.exists_init hend
        have hiff := Decoder.lastOrFirst_eq_some_iff (hseen.decoded.trans hdecode) hinit
        rw [hfault, hseen.decoded, Decoder.decode_eq_nil_iff, Option.some.injEq] at hiff
        simp [TakenForMissing, htokens, hend, hiff]
      · have hne : fault ≠ .unexpectedEnd := by
          rintro rfl
          exact hend hmem
        simp [TakenForMissing, hend, hne]
    · rw [runFile, if_neg (by simp [htokens]), checkFile]
      simp only [hstream, opening, htokens, and_true]

/-- What becomes of a file that is no text. It is refused with an error, and nothing is run, unless
it is taken for a missing file; so is every text with a sequence behind it that is cut off. -/
theorem undecodable_file_refused_iff (hd : d.IsUtf8) (hf : d.TellsFaults)
    {read : String → Except Fault (List UInt8)} (hpath : options.path = some path)
    (hrepl : options.has .repl = false) (hread : read path = .ok bytes)
    (hbytes : ¬ bytes.toByteArray.IsValidUTF8) (limit : Nat) (input : List UInt8) :
    (execute d limit options read input =
        (opening options path ++ [.failed (.read .invalidData)], some 1) ↔
      ¬ TakenForMissing d options bytes) ∧
    (execute d limit options read input = (opening options path ++ [missingFile path], some 0) ↔
      TakenForMissing d options bytes) ∧
    ∀ (text : List Char) (cut : List UInt8), bytes = text.flatMap String.utf8EncodeChar ++ cut →
      CutOff cut → options.has .tokens = false → TakenForMissing d options bytes := by
  obtain ⟨fault, hcases, hmissing, hevents, hcode⟩ :=
    runFile_of_undecodable hd hf limit options path hbytes
  have hexecute : execute d limit options read input =
      (opening options path ++ (unreadFile path fault).events, (unreadFile path fault).code) := by
    rw [← hevents, ← hcode]
    simp [execute, beforeSession, hpath, hread, hrepl]
  rw [hexecute, ← hmissing]
  refine ⟨?_, ?_, ?_⟩
  · rcases hcases with rfl | rfl <;> simp [unreadFile, missingFile]
  · rcases hcases with rfl | rfl <;> simp [unreadFile, missingFile]
  · rintro text cut rfl hcut htokens
    have hdecode := hf.decode_cutOff hd text hcut
    refine hmissing.2 ⟨htokens, ?_, .inl ?_⟩
    · rw [hdecode]
      simp
    · rw [hdecode, Decoder.faults_append, Decoder.faults_map_ok]
      rfl

/-- The parser gives up at the first parenthesis. Of the two faults far behind it the first one
counts, although the end of the file is unexpected too. -/
theorem undecodable_file_refused_iff_two_faults :
    .error .unexpectedEnd ∈
      Text.Utf8.decoder.decode [41, 32, 41, 32, 41, 32, 41, 32, 41, 255, 195] ∧
    execute Text.Utf8.decoder 0 ⟨some "a.mew", [.verbose]⟩
        (fun _ => .ok [41, 32, 41, 32, 41, 32, 41, 32, 41, 255, 195]) [] =
      ([.parsing "a.mew", .failed (.read .invalidData)], some 1) := by
  have hdecode : Text.Utf8.decoder.decode [41, 32, 41, 32, 41, 32, 41, 32, 41, 255, 195] =
      ") ) ) ) )".toList.map .ok ++ [.error .invalidData, .error .unexpectedEnd] := by
    cbv
  have hstopped :
      (parseStream Text.Utf8.decoder [41, 32, 41, 32, 41, 32, 41, 32, 41, 255, 195]).2.bytes =
        [32, 41, 32, 41, 255, 195] := by
    cbv
  have hbytes : ¬ [41, 32, 41, 32, 41, 32, 41, 32, 41, 255, 195].toByteArray.IsValidUTF8 := by
    rw [← Text.Utf8.isUtf8_decoder.faults_decode_eq_nil_iff, hdecode, Decoder.faults_append]
    simp [faults, Decoder.fault?]
  refine ⟨by rw [hdecode]; simp, ?_⟩
  apply (undecodable_file_refused_iff Text.Utf8.isUtf8_decoder Text.Utf8.tellsFaults_decoder rfl rfl
    rfl hbytes 0 []).1.2
  rintro ⟨-, -, honly | hread⟩
  · rw [hdecode, Decoder.faults_append, Decoder.faults_map_ok] at honly
    cases honly
  · rw [hstopped] at hread
    cases hread

/-- One program and the first byte of an accent: the file is there and can be read, but it is said
not to exist, with the exit code of a success. Listing its tokens refuses it. -/
theorem run_cut_off_file :
    ¬ ([58, 58, 109, 101, 119, 59, 195] : List UInt8).toByteArray.IsValidUTF8 ∧
    execute Text.Utf8.decoder 0 ⟨some "a.mew", []⟩
        (fun _ => .ok [58, 58, 109, 101, 119, 59, 195]) [] =
      ([.out "MEOW!! File 'a.mew' Doesn't Exist!\n"], some 0) ∧
    execute Text.Utf8.decoder 0 ⟨some "a.mew", [.tokens]⟩
        (fun _ => .ok [58, 58, 109, 101, 119, 59, 195]) [] =
      ([.failed (.read .invalidData)], some 1) := by
  refine ⟨?_, by cbv, by cbv⟩
  rw [← fromUTF8?_eq_none_iff]
  cbv

end CommandLine

end CatLang
