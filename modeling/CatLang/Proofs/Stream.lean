import Mathlib
import CatLang.Checked
import CatLang.Proofs.OnDemand
import CatLang.Proofs.Utf8

/-! Reading a source while it is parsed and reading it whole come to the same. The parser accepts
only after an end of file, and the lexer gives one only when its source gave no character. So an
accepted stream was read to its end, or a fault was met on the way (`parseStream_ended`). -/
namespace CatLang

namespace Parser
open ParserOn (pull)
variable {σ : Type}

section
variable [TokenSource σ]

/-- What moving the window on keeps is kept by the reader of programs. -/
theorem program_keeps {K : ParserOn σ → Prop} (hstep : ∀ p, K p → K p.step) {p : ParserOn σ}
    (h : K p) : K (windowOf (program p)) := by
  have hfollows : Follows 0 (fun p q : ParserOn σ => q = p ∧ K p) fun _ => False :=
    { window := fun h _ => by
        rw [h.1]
        exact .refl _
      step := fun h _ => ⟨congrArg ParserOn.step h.1, hstep _ h.2⟩
      overrun := fun h _ => ⟨rfl, h⟩
      lost_step := id
      lost_overrun := id }
  exact ((hfollows.mirrors_program p.fuel).same ⟨rfl, h⟩ id).2.2

theorem pull_keeps {K : σ → Prop} (hnext : ∀ s, K s → K (TokenSource.next s).2) {s : σ}
    (h : K s) : K (pull s).rest := by
  fun_induction pull s with
  | case1 s hcomment pulled ih => exact ih (hnext s h)
  | case2 s hcode => exact hnext s h

theorem current_of_untilEndWithin {depth : Nat} {p q : ParserOn σ} {ss : List Statement}
    (h : untilEndWithin depth p = .ok ss q) : ∃ place, q.current = some ⟨.endOfFile, place⟩ := by
  induction depth generalizing p ss with
  | zero => cases h
  | succ depth ih =>
    rw [untilEndWithin] at h
    obtain ⟨w, r, hw, h⟩ := bind_eq_ok.1 h
    obtain ⟨rfl, rfl⟩ : w = p.toWindow ∧ r = p := by
      cases hw
      exact ⟨rfl, rfl⟩
    rcases hc : r.current with _ | ⟨value, place⟩
    · rw [hc] at h
      cases h
    by_cases hend : value = .endOfFile
    · subst hend
      rw [hc] at h
      cases h
      exact ⟨place, hc⟩
    · have hclosed : (do
          let first ← statementWithin depth
          let _ ← semicolon first.span.stop
          let rest ← untilEndWithin depth
          return first :: rest) r = .ok ss q := by
        rw [hc] at h
        cases value with
        | endOfFile => exact absurd rfl hend
        | _ => exact h
      obtain ⟨first, r₁, -, h⟩ := bind_eq_ok.1 hclosed
      obtain ⟨stop, r₂, -, h⟩ := bind_eq_ok.1 h
      obtain ⟨rest, r₃, hrest, h⟩ := bind_eq_ok.1 h
      cases h
      exact ih hrest

/-- A program is read to the end of file. -/
theorem current_of_program {p q : ParserOn σ} {a : Program} (h : program p = .ok a q) :
    ∃ place, q.current = some ⟨.endOfFile, place⟩ := by
  obtain ⟨ss, r, hss, h⟩ := bind_eq_ok.1 h
  obtain ⟨w, u, hw, h⟩ := bind_eq_ok.1 h
  cases hw
  cases h
  exact current_of_untilEndWithin hss

theorem rest_of_parse (p : ParserOn σ) : (windowOf (parse p)).rest = (windowOf (program p)).rest := by
  unfold parse
  cases program p with
  | ok a q => cases hq : q.errors <;> simp only [windowOf, hq]
  | error e q => cases hq : q.errors <;> simp only [windowOf, hq]

end

variable [CharSource σ] {l : Lexer σ}

theorem input_step {J : σ → Prop} (hnext : ∀ s, J s → J (CharSource.next s).2) (l : Lexer σ)
    (h : J l.input) : J l.step.input := by
  have hinput := hnext _ h
  unfold Lexer.step
  rcases hl : CharSource.next l.input with ⟨_ | ⟨place, c⟩, input⟩
  all_goals
    rw [hl] at hinput
    exact hinput

/-- What asking for a character keeps holds of the source that the parser leaves. -/
theorem input_of_parse {J : σ → Prop} (hnext : ∀ s, J s → J (CharSource.next s).2) {input : σ}
    (h : J input) :
    J (windowOf (parse (ParserOn.start (Lexer.start input)))).rest.input := by
  have hlexer (l : Lexer σ) (h : J l.input) : J (TokenSource.next l).2.input :=
    (Lexer.next_of_step (I := fun l => J l.input) (input_step hnext) h).2
  have hstep (p : ParserOn (Lexer σ)) (h : J p.rest.input) : J p.step.rest.input :=
    pull_keeps (K := fun l : Lexer σ => J l.input) hlexer h
  have hstart : J (ParserOn.start (Lexer.start input)).rest.input :=
    hstep _ (hstep _ (input_step hnext _ (input_step hnext _ h)))
  rw [rest_of_parse]
  exact program_keeps (K := fun p : ParserOn (Lexer σ) => J p.rest.input) hstep hstart

/-- A source is done when it has given no character, and stays so. -/
structure Ending (Done : σ → Prop) : Prop where
  none {s : σ} (h : (CharSource.next s).1 = none) : Done (CharSource.next s).2
  next (s : σ) (h : Done s) : Done (CharSource.next s).2

section Ending
variable {Done : σ → Prop} (hd : Ending Done)
include hd

/-- A place without a character in the window tells that the source is done. -/
def Told (Done : σ → Prop) (l : Lexer σ) : Prop := l.ch = none ∨ l.nextCh = none → Done l.input

theorem told_step (l : Lexer σ) (h : l.nextCh = none → Done l.input) : Told Done l.step := by
  have hkept := hd.next l.input
  have hnone := hd.none (s := l.input)
  unfold Told Lexer.step
  rcases hl : CharSource.next l.input with ⟨_ | ⟨place, c⟩, input⟩
  · rw [hl] at hnone
    exact fun _ => hnone rfl
  · rw [hl] at hkept
    rintro (hc | hc)
    · exact hkept (h hc)
    · cases hc

theorem told_start (input : σ) : Told Done (Lexer.start input) := by
  apply told_step hd
  have hnone := hd.none (s := input)
  unfold Lexer.step
  rcases hl : CharSource.next input with ⟨_ | ⟨place, c⟩, input'⟩
  · rw [hl] at hnone
    exact fun _ => hnone rfl
  · exact fun hc => nomatch hc

theorem told_next (l : Lexer σ) (h : Told Done l) : Told Done l.next.2 :=
  (Lexer.next_of_step (fun l h => told_step hd l fun hc => h (.inr hc)) h).2

theorem done_next (l : Lexer σ) (h : Done l.input) : Done l.next.2.input :=
  (Lexer.next_of_step (I := fun l => Done l.input) (input_step hd.next) h).2

theorem done_of_pull (h : Told Done l) {place : Span}
    (hend : (pull l).token? = some ⟨.endOfFile, place⟩) : Done (pull l).rest.input := by
  fun_induction pull l with
  | case1 l hcomment pulled ih => exact ih (told_next hd l h) hend
  | case2 l hcode =>
    have hread : l.next.1 = .ok ⟨.endOfFile, place⟩ := by
      cases hnext : l.next.1 with
      | ok t =>
        simp only [Pulled.token?, TokenSource.next, hnext] at hend
        rw [Option.some.inj hend]
      | error e =>
        simp only [Pulled.token?, TokenSource.next, hnext] at hend
        cases hend
    have htold := (Lexer.next_of_step (fun l h => told_step hd l fun hc => h (.inr hc)) h).1
    rcases Lexer.read_value hread with ⟨hnone, -⟩ | ⟨-, hcomment | hspelled⟩
    · have hnext : l.next.2 = (l.skip Text.isBlank).step := by
        rw [Lexer.next, Lexer.read, hnone]
        rfl
      show Done l.next.2.input
      rw [hnext]
      exact input_step hd.next _ (htold (.inl hnone))
    · cases hcomment
    · exact hspelled.elim

/-- An accepted source is done. -/
theorem done_of_parse {input : σ} {parsed : Parsed} {q : ParserOn (Lexer σ)}
    (h : parse (ParserOn.start (Lexer.start input)) = .ok parsed q) : Done q.rest.input := by
  let K (p : ParserOn (Lexer σ)) : Prop := Told Done p.rest ∧ ∀ place,
    p.current = some ⟨.endOfFile, place⟩ ∨ p.next = some ⟨.endOfFile, place⟩ → Done p.rest.input
  have hstep (p : ParserOn (Lexer σ)) (h : K p) : K p.step := by
    refine ⟨pull_keeps (K := Told Done) (told_next hd) h.1, fun place hend => ?_⟩
    rcases hend with hend | hend
    · exact pull_keeps (K := fun l : Lexer σ => Done l.input) (done_next hd) (h.2 place (.inr hend))
    · exact done_of_pull hd h.1 hend
  have hempty : K ⟨⟨none, none, 0⟩, [], [], Lexer.start input⟩ :=
    ⟨told_start hd input, by simp⟩
  have hkept : K (windowOf (program (ParserOn.start (Lexer.start input)))) :=
    program_keeps hstep (hstep _ (hstep _ hempty))
  have hrest := rest_of_parse (ParserOn.start (Lexer.start input))
  cases hprogram : program (ParserOn.start (Lexer.start input)) with
  | ok a r =>
    rw [hprogram] at hkept hrest
    rw [h] at hrest
    obtain ⟨place, hc⟩ := current_of_program hprogram
    have hrest : q.rest = r.rest := hrest
    rw [hrest]
    exact hkept.2 place (.inl hc)
  | error e r =>
    unfold parse at h
    rw [hprogram] at h
    cases hr : r.errors <;> simp only [hr] at h <;> cases h

end Ending

end Parser

namespace ByteStream
variable {d : Decoder}

theorem ending_stream (d : Decoder) :
    Parser.Ending fun s : ByteStream d => s.bytes = [] ∨ s.fault ≠ none where
  none {s} h := by
    cases hbytes : s.bytes with
    | nil => exact .inl (by rw [show CharSource.next s = (none, s) from next_of_nil hbytes, hbytes])
    | cons lead rest =>
      cases hc : (d.read lead rest).1 with
      | ok c =>
        rw [show CharSource.next s = _ from next_of_ok hbytes hc] at h
        cases h
      | error fault =>
        rw [show CharSource.next s = _ from next_of_error hbytes hc]
        exact .inr nofun
  next s h := by
    cases hbytes : s.bytes with
    | nil =>
      rw [show CharSource.next s = (none, s) from next_of_nil hbytes]
      exact h
    | cons lead rest =>
      cases hc : (d.read lead rest).1 with
      | ok c =>
        rw [show CharSource.next s = _ from next_of_ok hbytes hc]
        exact .inr (h.resolve_left (by simp [hbytes]))
      | error fault =>
        rw [show CharSource.next s = _ from next_of_error hbytes hc]
        exact .inr nofun

/-- What the stream has left is the text that these characters stand for. -/
def Carries (chars : List (Nat × Char)) (s : ByteStream d) : Prop :=
  ∃ text : List Char, s.bytes = text.flatMap String.utf8EncodeChar ∧
    chars = Text.placed s.text.utf8ByteSize text

theorem same_carries (hd : d.IsUtf8) : Lexer.Same (Carries (d := d)) := by
  rintro chars s ⟨_ | ⟨c, text⟩, hbytes, rfl⟩
  · rw [show CharSource.next s = (none, s) from next_of_nil hbytes]
    exact ⟨rfl, [], hbytes, rfl⟩
  · obtain ⟨lead, tail, hencode⟩ :=
      List.exists_cons_of_ne_nil (String.utf8EncodeChar_ne_nil (c := c))
    rw [List.flatMap_cons, hencode, List.cons_append] at hbytes
    have hread := (hd lead (tail ++ text.flatMap String.utf8EncodeChar) c _).2
      (by rw [hencode, List.cons_append])
    rw [show CharSource.next s = _ from next_of_ok hbytes (congrArg Prod.fst hread)]
    refine ⟨rfl, text, congrArg Prod.snd hread, ?_⟩
    rw [String.utf8ByteSize_push]
    rfl

/-- The lexers of streams that carry a text. -/
def IsCarrying (m : Lexer (ByteStream d)) : Prop :=
  ∃ l, Lexer.IsText l ∧ Lexer.Shows (Carries (d := d)) l m

theorem settles_isCarrying (hd : d.IsUtf8) : Lexer.Settles (IsCarrying (d := d)) where
  step := by
    rintro m ⟨l, hl, h⟩
    exact ⟨l.step, Lexer.settles_isText.step l hl, h.step (same_carries hd)⟩
  stay := by
    rintro m ⟨l, hl, h⟩ hc
    have hstay := Lexer.settles_isText.stay hl (h.ch.symm.trans hc)
    have hshows := h.step (same_carries hd)
    rw [hstay] at hshows
    -- The text has ended, so the stream has no bytes left and stays as it is.
    have hinput : m.step.input = m.input := by
      obtain ⟨o, _ | ⟨c, text⟩, rfl⟩ := hl
      · obtain ⟨_ | ⟨c, text⟩, hbytes, hchars⟩ := h.input
        · unfold Lexer.step
          rw [show CharSource.next m.input = (none, m.input) from next_of_nil hbytes]
        · cases hchars
      · cases h.ch.symm.trans hc
    have heq : m.step = ⟨m.step.position, m.step.nextPosition, m.step.ch, m.step.nextCh,
        m.step.input⟩ := rfl
    rw [heq, hshows.position, hshows.nextPosition, hshows.ch, hshows.nextCh, hinput,
      ← h.position, ← h.nextPosition, ← h.ch, ← h.nextCh]

end ByteStream

section ParseStream
open ByteStream (Seen)
open Decoder (chars faults)
variable {d : Decoder} {bytes : List UInt8}

theorem parseStream_eq (d : Decoder) (bytes : List UInt8) :
    let result := Parser.parse (ParserOn.start (Lexer.start (ByteStream.ofBytes d bytes)))
    parseStream d bytes = (answerOf result, (Parser.windowOf result).rest.input) := by
  unfold parseStream
  cases Parser.parse (ParserOn.start (Lexer.start (ByteStream.ofBytes d bytes))) <;> rfl

theorem seen_parseStream (d : Decoder) (bytes : List UInt8) :
    ∃ seen, Seen bytes (parseStream d bytes).2 seen := by
  rw [parseStream_eq]
  exact Parser.input_of_parse (J := fun s => ∃ seen, Seen bytes s seen)
    (fun s ⟨_, h⟩ => h.next) ⟨[], .ofBytes d bytes⟩

/-- If a stream is accepted and no fault was met, all of it was read. -/
theorem parseStream_ended {parsed : Parsed} (h : (parseStream d bytes).1 = .ok parsed)
    (hfault : (parseStream d bytes).2.fault = none) : (parseStream d bytes).2.bytes = [] := by
  rw [parseStream_eq] at h hfault ⊢
  cases hparse : Parser.parse (ParserOn.start (Lexer.start (ByteStream.ofBytes d bytes))) with
  | ok parsed q =>
    rw [hparse] at hfault
    exact (Parser.done_of_parse (ByteStream.ending_stream d) hparse).resolve_right fun hne => hne hfault
  | error e q =>
    rw [hparse] at h
    cases h

/-- The bytes of a text are parsed as the text. -/
theorem Decoder.IsUtf8.parseStream_encode (hd : d.IsUtf8) (source : String) :
    (parseStream d (source.toList.flatMap String.utf8EncodeChar)).1 = parse source := by
  have hcarries : ByteStream.Carries (Text.placed 0 source.toList)
      (ByteStream.ofBytes d (source.toList.flatMap String.utf8EncodeChar)) :=
    ⟨source.toList, rfl, rfl⟩
  have hshows := Lexer.shows_start (ByteStream.same_carries hd) hcarries
  have hkept : ByteStream.IsCarrying (Lexer.start (ByteStream.ofBytes d _)) :=
    ⟨_, Lexer.isText_ofString source, hshows⟩
  rw [parseStream_eq, parse_eq, results, Lexer.ofString]
  exact ((ByteStream.settles_isCarrying hd).parse_start hkept).trans
    (congrArg parseResults (hshows.readings (ByteStream.same_carries hd)))

end ParseStream

namespace Checked
open Decoder (chars faults)
variable {d : Decoder} {bytes : List UInt8}

theorem ofStream_eq (d : Decoder) (path : String) (bytes : List UInt8) :
    ofStream d path bytes =
      match (parseStream d bytes).2.fault, (parseStream d bytes).1 with
      | some fault, _ => .error (.read fault)
      | none, .ok parsed => .ok ⟨path, (parseStream d bytes).2.text, parsed.program⟩
      | none, .error error =>
        match ByteStream.readOn d (parseStream d bytes).2.text (parseStream d bytes).2.bytes with
        | .ok source => .error (.parse path source error)
        | .error fault => .error (.read fault) := by
  unfold ofStream
  generalize parseStream d bytes = result
  obtain ⟨outcome, s⟩ := result
  cases hfault : s.fault with
  | some fault => simp only [hfault]
  | none =>
    cases outcome with
    | ok parsed => simp only [hfault]
    | error error =>
      cases hrest : ByteStream.readOn d s.text s.bytes with
      | ok source => simp only [hfault, hrest]
      | error fault => simp only [hfault, hrest]

/-- Bytes that are a text: if they are accepted they were read to the end, and otherwise the rest is
read afterwards. -/
theorem ofStream_encode (hd : d.IsUtf8) (path source : String) :
    ofStream d path (source.toList.flatMap String.utf8EncodeChar) = ofSource path source := by
  rw [ofStream_eq, hd.parseStream_encode source]
  have hended (parsed : Parsed) (hparse : parse source = .ok parsed) :=
    parseStream_ended ((hd.parseStream_encode source).trans hparse)
  obtain ⟨seen, hseen⟩ := seen_parseStream d (source.toList.flatMap String.utf8EncodeChar)
  generalize (parseStream d (source.toList.flatMap String.utf8EncodeChar)).2 = s at hended hseen ⊢
  have hdecoded := hseen.decoded
  rw [hd.decode_encode] at hdecoded
  obtain ⟨hseenFaults, hrestFaults⟩ : faults seen = [] ∧ faults (d.decode s.bytes) = [] := by
    have hall := congrArg faults hdecoded
    rwa [Decoder.faults_map_ok, faults, List.filterMap_append, List.append_eq_nil_iff] at hall
  have hchars : chars seen ++ chars (d.decode s.bytes) = source.toList := by
    have hall := congrArg chars hdecoded
    rwa [Decoder.chars_map_ok, chars, List.filterMap_append] at hall
  have hfault : s.fault = none := by
    rw [hseen.fault, hseenFaults]
    rfl
  have htext : s.text ++ String.ofList (chars (d.decode s.bytes)) = source := by
    apply String.toList_injective
    rw [String.toList_append, String.toList_ofList, hseen.text, hchars]
  rw [hfault, ofSource, ByteStream.readOn_eq, hrestFaults, htext]
  cases hparse : parse source with
  | error error => rfl
  | ok parsed =>
    rw [hended parsed hparse hfault, Decoder.decode] at htext
    have htext : s.text = source := by simpa [chars] using htext
    rw [htext]

/-- The fault that stops a stream: the last one met by the parser, or else the first one behind. -/
theorem ofStream_of_invalid (hd : d.IsUtf8) (path : String)
    (h : ¬ bytes.toByteArray.IsValidUTF8) :
    ∃ seen fault, ByteStream.Seen bytes (parseStream d bytes).2 seen ∧
      (faults seen).getLast?.or (faults (d.decode (parseStream d bytes).2.bytes)).head? =
        some fault ∧
      ofStream d path bytes = .error (.read fault) := by
  obtain ⟨seen, hseen⟩ := seen_parseStream d bytes
  rw [ofStream_eq]
  have hended (parsed : Parsed) (hparse : (parseStream d bytes).1 = .ok parsed) :=
    parseStream_ended hparse
  generalize (parseStream d bytes).2 = s, (parseStream d bytes).1 = outcome at hended hseen ⊢
  have hne : faults seen ++ faults (d.decode s.bytes) ≠ [] := by
    rw [← hd.faults_decode_eq_nil_iff, ← hseen.decoded] at h
    rwa [faults, faults, ← List.filterMap_append]
  refine ⟨seen, ?_⟩
  rw [← hseen.fault]
  cases hfault : s.fault with
  | some fault => exact ⟨fault, hseen, rfl, rfl⟩
  | none =>
    have hnil : faults seen = [] := List.getLast?_eq_none_iff.1 (hseen.fault.symm.trans hfault)
    rw [hnil, List.nil_append] at hne
    cases houtcome : outcome with
    | ok parsed =>
      rw [hended parsed houtcome hfault, Decoder.decode] at hne
      exact absurd rfl hne
    | error error =>
      obtain ⟨fault, more, hmore⟩ := List.exists_cons_of_ne_nil hne
      refine ⟨fault, hseen, by rw [hmore]; rfl, ?_⟩
      rw [ByteStream.readOn_eq, hmore]
      rfl

/-- Whether the source is read whole or while it is parsed: both give the same checked source, and
so the same findings, or both the same parse error, each with all of the text; or the bytes are no
text, and both give a fault. -/
theorem ofStream_agrees (hd : d.IsUtf8) (path : String) (bytes : List UInt8) :
    (∃ c, ofBytes path bytes = .ok c ∧ ofStream d path bytes = .ok c ∧ c.path = path ∧
        c.source.toByteArray = bytes.toByteArray) ∨
      (∃ source error, source.toByteArray = bytes.toByteArray ∧
        ofBytes path bytes = .error (.parse path source error) ∧
        ofStream d path bytes = .error (.parse path source error)) ∨
      (¬ bytes.toByteArray.IsValidUTF8 ∧ ∃ fault fault',
        ofBytes path bytes = .error (.read fault) ∧
        ofStream d path bytes = .error (.read fault')) := by
  cases htext : String.fromUTF8? bytes.toByteArray with
  | none =>
    have hinvalid := fromUTF8?_eq_none_iff.1 htext
    obtain ⟨-, fault, -, -, hstream⟩ := ofStream_of_invalid hd path hinvalid
    refine .inr (.inr ⟨hinvalid, .invalidData, fault, ?_, hstream⟩)
    rw [ofBytes, htext]
  | some source =>
    have hbytes := fromUTF8?_eq_some_iff.1 htext
    have hencode : source.toList.flatMap String.utf8EncodeChar = bytes := by
      rw [← String.utf8Encode_toList, List.utf8Encode] at hbytes
      simpa using congrArg (·.data.toList) hbytes
    have hwhole : ofBytes path bytes = ofSource path source := by rw [ofBytes, htext]
    have hstream : ofStream d path bytes = ofSource path source := by
      rw [← hencode, ofStream_encode hd]
    rw [hwhole, hstream, ofSource]
    cases parse source with
    | ok parsed => exact .inl ⟨_, rfl, rfl, rfl, hbytes⟩
    | error error => exact .inr (.inl ⟨source, error, hbytes, rfl, rfl⟩)

/-- A program with an accent in a comment behind it is accepted both ways, and its variable is found
to be unused. -/
theorem ofStream_agrees_accent :
    Text.Utf8.decoder.IsUtf8 ∧
      ∃ c, ofBytes "a.mew" [97, 61, 109, 101, 119, 59, 47, 47, 195, 169] = .ok c ∧
        ofStream Text.Utf8.decoder "a.mew" [97, 61, 109, 101, 119, 59, 47, 47, 195, 169] = .ok c ∧
        c.source = "a=mew;//é" ∧
        c.findings = [⟨"a.mew", "a=mew;//é", .unusedVariable "a" ⟨0, 1⟩⟩] := by
  have hwhole : ofBytes "a.mew" [97, 61, 109, 101, 119, 59, 47, 47, 195, 169] =
      .ok ⟨"a.mew", "a=mew;//é",
        ⟨[.assign ⟨"a", 0, 1⟩ (.number "mew" ⟨2, 5⟩) ⟨0, 5⟩], 0, 6⟩⟩ := by
    cbv
  refine ⟨Text.Utf8.isUtf8_decoder, ?_⟩
  rcases ofStream_agrees Text.Utf8.isUtf8_decoder "a.mew"
    [97, 61, 109, 101, 119, 59, 47, 47, 195, 169] with
    ⟨c, hc, hstream, -⟩ | ⟨source, error, -, herror, -⟩ | ⟨-, fault, fault', hfault, -⟩
  · obtain rfl := Except.ok.inj (hwhole.symm.trans hc)
    exact ⟨_, hwhole, hstream, rfl, by cbv⟩
  · cases hwhole.symm.trans herror
  · cases hwhole.symm.trans hfault

end Checked

end CatLang
