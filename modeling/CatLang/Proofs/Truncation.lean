import CatLang.Parser.Program
import CatLang.Proofs.Lines
import CatLang.Proofs.Value

/-! A stream that fails only cuts a run short. What a program prints on a stream with room for `k`
bytes are the first `k` bytes of what it prints without a bound, and no statement behind the cut
runs. Numbers are written in characters of one byte each, so the room that the stream counts in
characters is the room in bytes. A failing flush comes after everything else and changes nothing but
the result. -/
namespace CatLang

namespace Text

theorem flatMap_utf8EncodeChar {text : List Char} (h : ∀ c ∈ text, c.utf8Size = 1) :
    text.flatMap String.utf8EncodeChar = text.map (·.val.toUInt8) := by
  induction text with
  | nil => rfl
  | cons c rest ih =>
    obtain ⟨hc, hrest⟩ := List.forall_mem_cons.1 h
    rw [List.flatMap_cons, String.utf8EncodeChar_eq_singleton hc, ih hrest]
    rfl

theorem utf8Encode_take {text : List Char} (h : ∀ c ∈ text, c.utf8Size = 1) (k : Nat) :
    (text.take k).utf8Encode = text.utf8Encode.extract 0 k := by
  have htake : ∀ c ∈ text.take k, c.utf8Size = 1 := fun c hc => h c (List.mem_of_mem_take hc)
  unfold List.utf8Encode
  rw [flatMap_utf8EncodeChar h, flatMap_utf8EncodeChar htake, List.map_take]
  ext1
  simp

theorem utf8ByteSize_eq_length {text : String} (h : ∀ c ∈ text.toList, c.utf8Size = 1) :
    text.utf8ByteSize = text.length := by
  rw [← String.size_toByteArray, ← String.utf8Encode_toList, List.utf8Encode,
    flatMap_utf8EncodeChar h]
  simp [String.length_toList]

end Text

namespace Printed

theorem utf8Size_of_mem_textOf {lines : List Printed} :
    ∀ c ∈ (textOf lines).toList, c.utf8Size = 1 := by
  induction lines with
  | nil => simp [textOf]
  | cons line rest ih =>
    intro c hc
    simp only [textOf, text, String.toList_append, List.mem_append] at hc
    rcases hc with (hc | hc) | hc
    · exact Value.utf8Size_of_mem_text hc
    · rw [List.mem_singleton.1 hc]
      rfl
    · exact ih c hc

@[simp] theorem length_textOf (lines : List Printed) :
    (textOf lines).length = (textOf lines).utf8ByteSize :=
  (Text.utf8ByteSize_eq_length utf8Size_of_mem_textOf).symm

theorem toByteArray_take_textOf (lines : List Printed) (k : Nat) :
    (String.ofList ((textOf lines).toList.take k)).toByteArray =
      (textOf lines).toByteArray.extract 0 k := by
  rw [String.toByteArray_ofList, Text.utf8Encode_take utf8Size_of_mem_textOf,
    String.utf8Encode_toList]

end Printed

open Printed (textOf)

/-- The same machine on a stream whose flush ends like this. -/
def Machine.withFlush (m : Machine) (flushFault : Option Fault) : Machine :=
  { m with output := { m.output with flushFault } }

theorem Output.write_of_flushFault (o : Output) (flushFault : Option Fault) (limit : Nat)
    (text : String) : { o with flushFault }.write limit text =
      ((o.write limit text).1, { (o.write limit text).2 with flushFault }) := by
  rw [write_eq, write_eq]
  cases o.room with
  | none => rfl
  | some room =>
    by_cases h : text.length ≤ room <;> simp only [h, ↓reduceIte]
    rfl

namespace Run

theorem keeps_withFlush (names : List String) (flushFault : Option Fault) :
    Keeps names fun m m' => m' = m.withFlush flushFault where
  value e _ := .change_iff.2 fun _ => value_of_vars e (·.withFlush flushFault) rfl
  assign name v := .change_iff.2 fun _ => rfl
  printLine limit v := .change_iff.2 fun m => by
    unfold printLine
    rw [show (m.withFlush flushFault).output = { m.output with flushFault } from rfl,
      Output.write_of_flushFault]
    rcases m.output.write limit (v.text ++ "\n") with ⟨_ | _ | _, output⟩ <;> rfl

end Run

namespace Program

/-- The statements do not look at the flush, which comes behind them all. -/
theorem run_withFlush (p : Program) {limit : Nat} {m m' : Machine} (fault : Fault)
    (h : p.run limit (m.withFlush none) = .ok () m') :
    p.run limit (m.withFlush (some fault)) =
      .error (.failed (.output fault)) (m'.withFlush (some fault)) := by
  have hruns : (runAll limit p.statements).Respects _ :=
    respects_runAll (Run.keeps_withFlush p.reads (some fault)) p.statements fun _ => id
  have hrun := Run.Respects.change_iff.1 hruns (m.withFlush none)
  unfold run at h ⊢
  cases hn : runAll limit p.statements (m.withFlush none) with
  | error e n =>
    rw [Run.bind_of_error hn] at h
    cases h
  | ok _ n =>
    rw [hn] at hrun
    rw [Run.bind_of_ok hn, Run.flush] at h
    cases hflush : n.output.flush with
    | error e =>
      rw [hflush] at h
      cases h
    | ok _ =>
      rw [hflush] at h
      cases h
      exact Run.bind_of_ok hrun _

/-- A stream that fails only cuts a run short, unless it says that it was interrupted: then it is
called over and over. -/
theorem run_on_failing_stream (p : Program) (limit : Nat) (m : Machine) (k : Nat) :
    let lines := p.lines limit (m.withRoom none)
    let full := p.run limit (m.withRoom none)
    let cut := p.run limit (m.withRoom (some k))
    (Run.endOf full).output.written = m.output.written ++ textOf lines ∧
    ((textOf lines).utf8ByteSize ≤ k →
      Run.resultOf cut = Run.resultOf full ∧ (Run.endOf cut).vars = (Run.endOf full).vars ∧
        (Run.endOf cut).output.written = (Run.endOf full).output.written) ∧
    (k < (textOf lines).utf8ByteSize →
      (m.output.writeFault ≠ .interrupted →
        Run.resultOf cut = .error (.failed (.output m.output.writeFault))) ∧
      (m.output.writeFault = .interrupted → Run.resultOf cut = .error .unfinished) ∧
      (Run.endOf cut).output.written.toByteArray =
        m.output.written.toByteArray ++ (textOf lines).toByteArray.extract 0 k ∧
      ∃ before line after, lines = before ++ line :: after ∧
        (textOf before).utf8ByteSize ≤ k ∧ k < (textOf (before ++ [line])).utf8ByteSize ∧
        (Run.endOf cut).vars = line.vars) ∧
    ∀ fault m', p.run limit (m.withFlush none) = .ok () m' →
      let unflushed := p.run limit (m.withFlush (some fault))
      Run.resultOf unflushed = .error (.failed (.output fault)) ∧
        (Run.endOf unflushed).vars = m'.vars ∧
        (Run.endOf unflushed).output.written = m'.output.written := by
  intro lines full cut
  have hcut : cut = Run.cutShort (m.withRoom none) lines k full :=
    (p.follows_run limit).cuts (m.withRoom none) k rfl
  have hwrites := (p.follows_run limit).writes (m.withRoom none) rfl
  refine ⟨congrArg Output.written hwrites, ?_, ?_, ?_⟩
  · intro hfits
    rw [← Printed.length_textOf] at hfits
    rw [hcut, Run.cutShort_of_le hfits]
    cases full <;> exact ⟨rfl, rfl, rfl⟩
  · intro hlong
    rw [← Printed.length_textOf] at hlong
    cases hat : Printed.at? lines k with
    | none => exact absurd (Printed.at?_eq_none_iff.1 hat) (Nat.not_le.2 hlong)
    | some line =>
      rw [Run.cutShort, hat] at hcut
      obtain ⟨before, after, hlines, hbefore, hline⟩ := Printed.exists_of_at?_eq_some hat
      rw [Printed.length_textOf] at hbefore hline
      have hstop : Run.resultOf cut = .error m.output.stop := congrArg Run.resultOf hcut
      refine ⟨fun hfault => ?_, fun hfault => ?_, ?_, before, line, after, hlines, hbefore, hline, ?_⟩
      · rw [hstop, Output.stop, if_neg hfault]
      · rw [hstop, Output.stop, if_pos hfault]
      · rw [hcut]
        change (m.output.written ++ _).toByteArray = _
        rw [String.toByteArray_append, Printed.toByteArray_take_textOf]
      · rw [hcut]
        rfl
  · intro fault m' hrun
    rw [p.run_withFlush fault hrun]
    exact ⟨rfl, rfl, rfl⟩

/-- The room ends inside the second line. -/
theorem run_on_failing_stream_loop :
    ∃ parsed, parse "@ mewmewmew: :: x; x = x + mew;;" = .ok parsed ∧
      let p := parsed.program
      let m : Machine := ⟨Table.empty.set "x" 9, .unbounded⟩
      let cut := p.run 3 (m.withRoom (some 3))
      let unflushed := p.run 3 (m.withFlush (some .storageFull))
      textOf (p.lines 3 m) = "9\n10\n11\n" ∧
      Run.resultOf cut = .error (.failed (.output .brokenPipe)) ∧
      (Run.endOf cut).output.written.toByteArray = "9\n1".toByteArray ∧
      (∃ before line after, p.lines 3 m = before ++ line :: after ∧
        (textOf before).utf8ByteSize ≤ 3 ∧ 3 < (textOf (before ++ [line])).utf8ByteSize ∧
        (Run.endOf cut).vars = line.vars) ∧
      Run.resultOf (p.run 3 m) = .ok () ∧
      Run.resultOf unflushed = .error (.failed (.output .storageFull)) ∧
      (Run.endOf unflushed).output.written = "9\n10\n11\n" := by
  obtain ⟨parsed, hparse, hlines, m', hrun, hprinted⟩ :
      ∃ parsed, parse "@ mewmewmew: :: x; x = x + mew;;" = .ok parsed ∧
        textOf (parsed.program.lines 3 ⟨Table.empty.set "x" 9, .unbounded⟩) = "9\n10\n11\n" ∧
        ∃ m', parsed.program.run 3 ⟨Table.empty.set "x" 9, .unbounded⟩ = .ok () m' ∧
          m'.output.written = "9\n10\n11\n" := by
    refine ⟨_, by cbv, by decide +kernel, _, rfl, by decide +kernel⟩
  refine ⟨parsed, hparse, ?_⟩
  intro p m cut unflushed
  have hlines : textOf (p.lines 3 (m.withRoom none)) = "9\n10\n11\n" := hlines
  have hrun : p.run 3 (m.withFlush none) = .ok () m' := hrun
  obtain ⟨-, -, hlong, hflush⟩ := run_on_failing_stream p 3 m 3
  obtain ⟨hresult, -, hwritten, hline⟩ := hlong (by rw [hlines]; decide)
  obtain ⟨hfault, -, hsame⟩ := hflush .storageFull m' hrun
  refine ⟨hlines, hresult (by decide), ?_, hline, congrArg Run.resultOf hrun, hfault, ?_⟩
  · rw [hwritten, hlines]
    decide
  · rw [hsame, hprinted]

/-- An interrupted call is made over and over: however far the run is followed, it does not fail. -/
theorem run_on_interrupted_stream :
    ∃ parsed, parse ":: mew;" = .ok parsed ∧
      let m : Machine := ⟨.empty, { Output.unbounded with writeFault := .interrupted }⟩
      ∀ limit, textOf (parsed.program.lines limit m) = "1\n" ∧
        Run.resultOf (parsed.program.run limit (m.withRoom (some 0))) = .error .unfinished ∧
        Run.resultOf (parsed.program.run limit (m.withRoom (some 0))) ≠
          .error (.failed (.output .interrupted)) := by
  obtain ⟨parsed, hparse, hstatements⟩ : ∃ parsed, parse ":: mew;" = .ok parsed ∧
      parsed.program.statements = [.print (.number "mew" ⟨3, 6⟩) ⟨0, 6⟩] := ⟨_, by cbv, rfl⟩
  refine ⟨parsed, hparse, ?_⟩
  intro m limit
  have hlines : parsed.program.lines limit m = [⟨.empty, Numeral.decode "mew".toList⟩] := by
    rw [Program.lines, hstatements]
    simp only [linesAll, Run.linesAfter_nil, List.append_nil]
    rfl
  have htext : textOf (parsed.program.lines limit m) = "1\n" := by
    rw [hlines]
    decide +kernel
  have hcut : Run.resultOf (parsed.program.run limit (m.withRoom (some 0))) = .error .unfinished := by
    rw [(parsed.program.follows_run limit).cuts m 0 rfl, Run.cutShort]
    cases hat : Printed.at? (parsed.program.lines limit m) 0 with
    | none =>
      rw [Printed.at?_eq_none_iff, htext] at hat
      exact absurd hat (by decide)
    | some line => rfl
  refine ⟨htext, hcut, ?_⟩
  rw [hcut]
  decide

end Program

end CatLang
