import CatLang.Proofs.Rounding
import CatLang.Proofs.Running

/-! A loop written out. A loop whose count has a whole part does what a block of that many copies
of its body does: the same output, the same variables and the same first error, whatever the body
assigns. A count below one, or one that is no number, runs nothing. -/
namespace CatLang

/-- The statements of a block, over and over. -/
def Block.copies (n : Nat) (b : Block) : Block where
  statements := (List.replicate n b.statements).flatten
  span := b.span

namespace Value

theorem not_one_le_of_isNaN {v : Value} (h : v.isNaN = true) : ¬ 1 ≤ v := by
  have hparts : v.parts.isNaN = true := h
  rw [le_iff_parts, parts_one]
  cases hv : v.parts with
  | notANumber => decide
  | infinity sign | zero sign | finite sign mantissa exponent hpos =>
    rw [hv] at hparts
    cases hparts

theorem number?_toFloat_of_le {n : Nat} (hpos : 0 < n) (hle : n ≤ 2 ^ 53) :
    number? n.toUInt64.toFloat = some (n : ℚ) := by
  rcases hle.lt_or_eq with hlt | rfl
  · exact number?_toFloat hpos hlt
  · exact number?_of_isWhole (by decide +kernel)

/-- Counting rounds up to the count is counting up to its whole part. -/
theorem toFloat_le_iff {v : Value} {q : ℚ} (hv : v.number? = some q) (hq : 0 ≤ q) {i : Nat}
    (hpos : 0 < i) (hle : i ≤ 2 ^ 53) : i.toUInt64.toFloat ≤ v ↔ i ≤ ⌊q⌋₊ := by
  rw [le_iff_of_number? (number?_toFloat_of_le hpos hle) hv, Nat.le_floor_iff hq]

end Value

/-- From round `i` on, the loop runs its body as often as there are rounds left up to the whole part
of the count. -/
theorem Run.loop_eq_copies {v : Value} {q : ℚ} (hv : v.number? = some q) (hq : 0 ≤ q)
    (hlast : ⌊q⌋₊ < 2 ^ 53) (limit : Nat) (b : Block) {n i rounds : Nat} (hpos : 0 < i)
    (hleft : i + n = ⌊q⌋₊ + 1) (hrounds : n ≤ rounds) :
    Run.loop v (runAll limit b.statements) rounds i.toUInt64 =
      runAll limit (b.copies n).statements := by
  induction n generalizing i rounds with
  | zero =>
    have hover : ¬ i.toUInt64.toFloat ≤ v := by
      rw [Value.toFloat_le_iff hv hq hpos (by omega)]
      omega
    rw [Run.loop_of_not_le hover]
    rfl
  | succ n ih =>
    obtain ⟨rounds, rfl⟩ : ∃ more, rounds = more + 1 := ⟨rounds - 1, by omega⟩
    have hruns : i.toUInt64.toFloat ≤ v := by
      rw [Value.toFloat_le_iff hv hq hpos (by omega)]
      omega
    have hnext : i.toUInt64 + 1 = (i + 1).toUInt64 := (UInt64.ofNat_add i 1).symm
    rw [Run.loop_succ hruns, hnext, ih (Nat.succ_pos i) (by omega) (by omega)]
    unfold Block.copies
    rw [List.replicate_succ, List.flatten_cons, runAll_append]

namespace Statement

theorem run_loop_of_eval {count : Expr} {limit : Nat} {m : Machine} {v : Value}
    (hcount : count.eval m.vars = .ok v) (body : Block) (span : Span) :
    (loop count body span).run limit m = (do
      Run.loop v (runAll limit body.statements) limit 1
      return some v : Run (Option Value)) m := by
  have hvalue : Run.value count m = .ok v m := by rw [Run.value, hcount]
  rw [run_loop, Run.bind_of_ok hvalue]

/-- A loop does what its body does, written out as often as the whole part of the count says, as soon
as that many rounds are followed. A count that is too small or no number runs nothing, and a loop
that ends gives its count. -/
theorem run_loop_unrolled (count : Expr) (body : Block) (span : Span) (limit : Nat) (m : Machine)
    (v : Value) (hcount : count.eval m.vars = .ok v) :
    let outcome := (loop count body span).run limit m
    (v.isNaN = true ∨ v < 1 → outcome = .ok (some v) m) ∧
    (1 ≤ v → v < 9007199254740992 → ∃ q : ℚ, v.number? = some q ∧
      (⌊q⌋₊ ≤ limit → outcome = (do
        runAll limit (body.copies ⌊q⌋₊).statements
        return some v : Run (Option Value)) m)) ∧
    ∀ result m', outcome = .ok result m' → result = some v := by
  intro outcome
  have houtcome : outcome = _ := run_loop_of_eval hcount body span
  refine ⟨fun hnone => ?_, fun hone hlast => ?_, fun result m' hok => ?_⟩
  · have hover : ¬ (1 : UInt64).toFloat ≤ v := by
      rw [Value.toFloat_one]
      exact hnone.elim Value.not_one_le_of_isNaN Value.not_le_of_lt
    rw [houtcome, Run.loop_of_not_le hover]
    rfl
  · have hunit : Value.number? 1 = some 1 := Value.number?_ofNat (by decide)
    have hbound : Value.number? 9007199254740992 = some ((2 ^ 53 : Nat) : ℚ) :=
      Value.number?_ofNat le_rfl
    obtain ⟨q, hq⟩ := Value.exists_number?_of_le_of_lt hunit hone hlast
    have hlow : 0 ≤ q := zero_le_one.trans ((Value.le_iff_of_number? hunit hq).1 hone)
    have hhigh : q < ((2 ^ 53 : Nat) : ℚ) := (Value.lt_iff_of_number? hq hbound).1 hlast
    refine ⟨q, hq, fun hlimit => ?_⟩
    have hcopies := Run.loop_eq_copies hq hlow ((Nat.floor_lt hlow).2 hhigh) limit body
      Nat.one_pos (Nat.add_comm 1 _) hlimit
    rw [houtcome]
    change (Run.loop v _ limit (1 : Nat).toUInt64 >>= _) m = _
    rw [hcopies]
  · rw [houtcome] at hok
    cases hrounds : Run.loop v (runAll limit body.statements) limit 1 m with
    | ok u m'' =>
      rw [Run.bind_of_ok hrounds] at hok
      cases hok
      rfl
    | error stop m'' =>
      rw [Run.bind_of_error hrounds] at hok
      cases hok

/-- The body raises the variable that the count was read from. -/
theorem run_loop_unrolled_raised_count :
    let place : Span := ⟨0, 0⟩
    let count : Expr := .name "n" place
    let raise : Expr := .binary count .add (.number "mew" place) place
    let body : Block := ⟨[.assign ⟨"n", place⟩ raise place, .print count place], place⟩
    let m : Machine := ⟨Table.empty.set "n" 2.5, Output.unbounded⟩
    let idle : Machine := ⟨Table.empty.set "n" Value.notANumber, Output.unbounded⟩
    let run := (loop count body place).run 2
    count.eval m.vars = .ok 2.5 ∧ (1 : Value) ≤ 2.5 ∧ (2.5 : Value) < 9007199254740992 ∧
      run m = (do
        runAll 2 (body.statements ++ body.statements)
        return some 2.5 : Run (Option Value)) m ∧
      (Run.endOf (run m)).output.written = "3.5\n4.5\n" ∧
      count.eval idle.vars = .ok Value.notANumber ∧ Value.notANumber.isNaN = true ∧
      run idle = .ok (some Value.notANumber) idle := by
  intro place count raise body m idle run
  have hcount : count.eval m.vars = .ok 2.5 := rfl
  have hidle : count.eval idle.vars = .ok Value.notANumber := rfl
  have hone : (1 : Value) ≤ 2.5 := by decide +kernel
  have hlast : (2.5 : Value) < 9007199254740992 := by decide +kernel
  have hnan : Value.notANumber.isNaN = true := by decide +kernel
  have hnumber : Value.number? 2.5 = some (5 / 2) := by
    have hparts : Value.parts 2.5 = .finite .positive 5629499534213120 (-51) (by decide) := rfl
    rw [Value.number?_of_parts hparts]
    norm_num [Value.signed]
  obtain ⟨q, hq, hcopies⟩ := (run_loop_unrolled count body place 2 m 2.5 hcount).2.1 hone hlast
  have hfloor : ⌊q⌋₊ = 2 := by
    rw [← Option.some_inj.1 (hnumber.symm.trans hq)]
    norm_num [Nat.floor_eq_iff]
  rw [hfloor] at hcopies
  exact ⟨hcount, hone, hlast, hcopies le_rfl, by decide +kernel, hidle, hnan,
    (run_loop_unrolled count body place 2 idle _ hidle).1 (.inl hnan)⟩

end Statement

end CatLang
