import CatLang.Run

/-! Statements as runs: what a condition and a loop do, in one equation each. A missing else block
does what an empty one does. A run that comes to its end within the limit does the same within any
larger one (`Program.run_of_le`). No statement changes whether the output can be flushed, so on a
stream that can a program does just what its statements do. -/
namespace CatLang

namespace Run
variable {α β : Type} {x : Run α} {m m' : Machine}

theorem bind_of_ok {a : α} (h : x m = .ok a m') (f : α → Run β) : (x >>= f) m = f a m' := by
  change EStateM.bind x f m = _
  rw [EStateM.bind, h]

theorem bind_of_error {stop : Stop} (h : x m = .error stop m') (f : α → Run β) :
    (x >>= f) m = .error stop m' := by
  change EStateM.bind x f m = _
  rw [EStateM.bind, h]

/-- A run that is followed no further. -/
def unfinished : Run Unit := fun m => .error .unfinished m

section
variable {count : Value} {body : Run Unit} {limit : Nat} {number : UInt64}

theorem loop_of_not_le (h : ¬ number.toFloat ≤ count) :
    loop count body limit number = pure () := by
  funext m
  cases limit <;> simp only [loop, if_neg h] <;> rfl

theorem loop_zero (h : number.toFloat ≤ count) : loop count body 0 number = unfinished := by
  funext m
  simp only [loop, if_pos h, unfinished]

theorem loop_succ (h : number.toFloat ≤ count) :
    loop count body (limit + 1) number = (do body; loop count body limit (number + 1)) := by
  funext m
  cases hm : body m with
  | ok a m' => simp only [loop, if_pos h, hm, bind_of_ok hm]
  | error stop m' => simp only [loop, if_pos h, hm, bind_of_error hm]

/-- A loop is some rounds and then its end, or some rounds and then the limit. -/
theorem loop_induction {P : Run Unit → Prop} (ended : P (pure ())) (further : P unfinished)
    (round : ∀ next, P next → P (do body; next)) (limit : Nat) (number : UInt64) :
    P (loop count body limit number) := by
  induction limit generalizing number with
  | zero =>
    by_cases h : number.toFloat ≤ count
    · rw [loop_zero h]
      exact further
    · rw [loop_of_not_le h]
      exact ended
  | succ limit ih =>
    by_cases h : number.toFloat ≤ count
    · rw [loop_succ h]
      exact round _ (ih (number + 1))
    · rw [loop_of_not_le h]
      exact ended

end

end Run

/-! Writing in closed form: what fits is taken, and then the stream says what becomes of the rest. -/

namespace Output
variable {o o' : Output} {text : List Char} {c : Char} {calls : Nat}

/-- The answer to a text that does not fit. An interrupted call is made over and over, so then there
is none. -/
def refusal (o : Output) : Option (Except Fault Unit) :=
  if o.writeFault = .interrupted then none else some (.error o.writeFault)

theorem putAll_nil : o.putAll calls [] = (some (.ok ()), o) := by
  cases calls <;> rfl

theorem putAll_of_ok {taken : Nat} (h : o.put (c :: text) = (.ok (taken + 1), o')) :
    o.putAll (calls + 1) (c :: text) = o'.putAll calls (text.drop taken) := by
  rw [putAll, h]

theorem putAll_of_error {fault : Fault} (h : o.put (c :: text) = (.error fault, o'))
    (hfault : fault ≠ .interrupted) :
    o.putAll (calls + 1) (c :: text) = (some (.error fault), o') := by
  rw [putAll, h]
  cases fault <;> first | rfl | exact absurd rfl hfault

/-- The same call again, up to the limit. -/
theorem putAll_of_interrupted (h : o.put (c :: text) = (.error .interrupted, o)) :
    o.putAll calls (c :: text) = (none, o) := by
  induction calls with
  | zero => rfl
  | succ calls ih =>
    rw [putAll, h]
    exact ih

theorem putAll_of_full (h : o.room = some 0) :
    o.putAll (calls + 1) (c :: text) = (o.refusal, o) := by
  have hput : o.put (c :: text) = (.error o.writeFault, o) := by rw [put, h]
  unfold refusal
  by_cases hfault : o.writeFault = .interrupted
  · rw [if_pos hfault]
    exact putAll_of_interrupted (hfault ▸ hput)
  · rw [if_neg hfault]
    exact putAll_of_error hput hfault

theorem putAll_of_bounded {room limit : Nat} (h : o.room = some room) (text : List Char) :
    o.putAll (text.length + limit) text =
      if text.length ≤ room then
        (some (.ok ()), { o with
          written := o.written ++ String.ofList text
          room := some (room - text.length) })
      else
        (o.refusal, { o with
          written := o.written ++ String.ofList (text.take room), room := some 0 }) := by
  obtain _ | ⟨c, text⟩ := text
  · rw [putAll_nil]
    simp [← h]
  cases room with
  | zero =>
    rw [List.length_cons, Nat.add_right_comm, putAll_of_full h]
    simp [← h]
  | succ room =>
    have hput : o.put (c :: text) = (.ok (min room text.length + 1), { o with
        written := o.written ++ String.ofList ((c :: text).take (room + 1))
        room := some (room - text.length) }) := by
      rw [put, h]
      simp
    rw [List.length_cons, Nat.add_right_comm, putAll_of_ok hput]
    by_cases hfits : text.length ≤ room
    · rw [Nat.min_eq_right hfits, List.drop_length, putAll_nil, if_pos (by simpa using hfits)]
      simp [List.take_of_length_le hfits]
    · have hlt : room < text.length := Nat.lt_of_not_le hfits
      obtain ⟨d, rest, hrest⟩ := List.exists_cons_of_ne_nil (List.ne_nil_of_length_pos
        (l := text.drop room) (by rw [List.length_drop]; omega))
      obtain ⟨calls, hcalls⟩ : ∃ calls, text.length + limit = calls + 1 :=
        ⟨text.length + limit - 1, by omega⟩
      have hnone : room - text.length = 0 := by omega
      rw [Nat.min_eq_left (Nat.le_of_lt hlt), hrest, hcalls, hnone, putAll_of_full rfl,
        if_neg (by simpa using hlt)]
      rfl

theorem putAll_of_unbounded {limit : Nat} (h : o.room = none) (text : List Char) :
    o.putAll (text.length + limit) text =
      (some (.ok ()), { o with written := o.written ++ String.ofList text }) := by
  obtain _ | ⟨c, text⟩ := text
  · rw [putAll_nil]
    simp
  · have hput : o.put (c :: text) =
        (.ok (text.length + 1), { o with written := o.written ++ String.ofList (c :: text) }) := by
      rw [put, h]
      rfl
    rw [List.length_cons, Nat.add_right_comm, putAll_of_ok hput, List.drop_length, putAll_nil]

/-- What fits is taken; the rest is refused. -/
theorem write_eq (o : Output) (limit : Nat) (text : String) : o.write limit text =
    match o.room with
    | none => (some (.ok ()), { o with written := o.written ++ text })
    | some room =>
      if text.length ≤ room then
        (some (.ok ()), { o with written := o.written ++ text, room := some (room - text.length) })
      else
        (o.refusal,
          { o with written := o.written ++ String.ofList (text.toList.take room), room := some 0 }) := by
  rw [write, ← String.length_toList]
  cases h : o.room with
  | none => rw [putAll_of_unbounded h, String.ofList_toList, h]
  | some room => rw [putAll_of_bounded h, String.ofList_toList]

end Output

/-- The statements of an else block; without one there are none. -/
def elseStatements : Option Block → List Statement
  | none => []
  | some b => b.statements

section
variable {limit : Nat}

namespace Statement

theorem run_branch (condition : Expr) (body : Block) (otherwise : Option Block) (span : Span) :
    (branch condition body otherwise span).run limit = (do
      let v ← Run.value condition
      if v.isTrue then runAll limit body.statements else runAll limit (elseStatements otherwise)
      return some v) := by
  obtain ⟨body, place⟩ := body
  rcases otherwise with _ | ⟨otherwise, place'⟩ <;> (rw [Statement.run]; rfl)

theorem run_loop (count : Expr) (body : Block) (span : Span) :
    (loop count body span).run limit = (do
      let v ← Run.value count
      Run.loop v (runAll limit body.statements) limit 1
      return some v) := by
  obtain ⟨body, place⟩ := body
  rw [Statement.run]

end Statement

theorem runAll_append (ss ts : List Statement) :
    runAll limit (ss ++ ts) = (do runAll limit ss; runAll limit ts) := by
  induction ss with
  | nil => simp [runAll]
  | cons s rest ih => simp only [List.cons_append, runAll, ih, bind_assoc]

end

/-! A larger limit. -/

namespace Run
variable {α β : Type}

/-- Where the first run comes to its end, the second does the same. -/
def Continues (x y : Run α) : Prop := ∀ m, (∃ m', x m = .error .unfinished m') ∨ y m = x m

namespace Continues

theorem refl (x : Run α) : x.Continues x := fun _ => .inr rfl

theorem bind {x y : Run α} {f g : α → Run β} (h : x.Continues y) (hf : ∀ a, (f a).Continues (g a)) :
    (x >>= f).Continues (y >>= g) := by
  intro m
  rcases h m with ⟨m', hx⟩ | hy
  · exact .inl ⟨m', bind_of_error hx f⟩
  · cases hx : x m with
    | ok a m' =>
      rw [bind_of_ok hx, bind_of_ok (hy.trans hx)]
      exact hf a m'
    | error stop m' =>
      rw [bind_of_error hx, bind_of_error (hy.trans hx)]
      exact .inr rfl

theorem printLine (v : Value) (limit limit' : Nat) :
    (printLine limit v).Continues (printLine limit' v) := by
  intro m
  right
  unfold Run.printLine
  rw [Output.write_eq, Output.write_eq]

/-- A loop whose rounds agree, followed further. -/
theorem loop {x y : Run Unit} (h : x.Continues y) (count : Value) {limit limit' : Nat}
    (hle : limit ≤ limit') (number : UInt64) :
    (loop count x limit number).Continues (loop count y limit' number) := by
  induction limit generalizing limit' number with
  | zero =>
    by_cases htest : number.toFloat ≤ count
    · rw [loop_zero htest]
      exact fun m => .inl ⟨m, rfl⟩
    · rw [loop_of_not_le htest, loop_of_not_le htest]
      exact refl _
  | succ limit ih =>
    obtain ⟨more, rfl⟩ := Nat.exists_eq_add_of_le' (Nat.le_of_succ_le hle)
    by_cases htest : number.toFloat ≤ count
    · cases more with
      | zero => omega
      | succ more =>
        rw [loop_succ htest, Nat.add_right_comm, loop_succ htest]
        exact h.bind fun _ => ih (Nat.le_add_left limit more) _
    · rw [loop_of_not_le htest, loop_of_not_le htest]
      exact refl _

end Continues

end Run

section
variable {limit limit' : Nat}

mutual
theorem Statement.continues_run (h : limit ≤ limit') :
    ∀ s : Statement, (s.run limit).Continues (s.run limit')
  | .assign _ _ _ => by
    rw [Statement.run, Statement.run]
    exact .refl _
  | .print _ _ => by
    rw [Statement.run, Statement.run]
    exact (Run.Continues.refl _).bind fun v =>
      (Run.Continues.printLine v limit limit').bind fun _ => .refl _
  | .branch _ ⟨body, _⟩ none _ => by
    rw [Statement.run_branch, Statement.run_branch]
    refine (Run.Continues.refl _).bind fun v => ?_
    split
    · exact (continues_runAll h body).bind fun _ => .refl _
    · exact .refl _
  | .branch _ ⟨body, _⟩ (some ⟨otherwise, _⟩) _ => by
    rw [Statement.run_branch, Statement.run_branch]
    refine (Run.Continues.refl _).bind fun v => ?_
    split
    · exact (continues_runAll h body).bind fun _ => .refl _
    · exact (continues_runAll h otherwise).bind fun _ => .refl _
  | .loop _ ⟨body, _⟩ _ => by
    rw [Statement.run_loop, Statement.run_loop]
    exact (Run.Continues.refl _).bind fun v =>
      ((continues_runAll h body).loop v h 1).bind fun _ => .refl _

theorem continues_runAll (h : limit ≤ limit') :
    ∀ ss : List Statement, (runAll limit ss).Continues (runAll limit' ss)
  | [] => .refl _
  | s :: rest => by
    rw [runAll, runAll]
    exact (s.continues_run h).bind fun _ => continues_runAll h rest
end

/-- A run that comes to its end within a limit does the same within a larger one. -/
theorem Program.run_of_le (p : Program) (h : limit ≤ limit') {m : Machine}
    (hends : ∀ m', p.run limit m ≠ .error .unfinished m') : p.run limit' m = p.run limit m := by
  rcases ((continues_runAll h p.statements).bind fun _ => .refl Run.flush) m with ⟨m', hm⟩ | hm
  · exact absurd hm (hends m')
  · exact hm

end

/-! Flushing. -/

namespace Run
variable {α β : Type}

/-- Where a run ends, with an error or without. -/
def endOf : EStateM.Result Stop Machine α → Machine
  | .ok _ m => m
  | .error _ m => m

/-- The run leaves it to the stream whether flushing succeeds. -/
def KeepsFlush (x : Run α) : Prop :=
  ∀ m, (endOf (x m)).output.flushFault = m.output.flushFault

theorem KeepsFlush.bind {x : Run α} {f : α → Run β} (hx : x.KeepsFlush)
    (hf : ∀ a, (f a).KeepsFlush) : (x >>= f).KeepsFlush := by
  intro m
  have hm := hx m
  cases h : x m with
  | ok a m' =>
    rw [h] at hm
    rw [bind_of_ok h, hf a m', ← hm]
    rfl
  | error stop m' =>
    rw [h] at hm
    rw [bind_of_error h, ← hm]
    rfl

theorem keepsFlush_pure (a : α) : KeepsFlush (pure a : Run α) := fun _ => rfl

theorem keepsFlush_value (e : Expr) : (value e).KeepsFlush := by
  intro m
  rw [value]
  cases e.eval m.vars <;> rfl

theorem flushFault_write (limit : Nat) (o : Output) (text : String) :
    (o.write limit text).2.flushFault = o.flushFault := by
  rw [Output.write_eq]
  cases o.room with
  | none => rfl
  | some room => by_cases h : text.length ≤ room <;> simp only [h, ↓reduceIte]

theorem keepsFlush_printLine (limit : Nat) (v : Value) : (printLine limit v).KeepsFlush := by
  intro m
  rw [← flushFault_write limit m.output (v.text ++ "\n"), printLine]
  rcases m.output.write limit (v.text ++ "\n") with ⟨_ | _ | _, output⟩ <;> rfl

theorem KeepsFlush.loop {x : Run Unit} (h : x.KeepsFlush) (count : Value) (limit : Nat)
    (number : UInt64) : (loop count x limit number).KeepsFlush :=
  loop_induction (keepsFlush_pure ()) (fun _ => rfl) (fun _ hnext => h.bind fun _ => hnext) limit
    number

end Run

section
variable {limit : Nat}

mutual
theorem Statement.keepsFlush_run : ∀ s : Statement, (s.run limit).KeepsFlush
  | .assign target value _ => by
    rw [Statement.run]
    exact (Run.keepsFlush_value value).bind fun v =>
      Run.KeepsFlush.bind (fun _ => rfl) fun _ => Run.keepsFlush_pure none
  | .print value _ => by
    rw [Statement.run]
    exact (Run.keepsFlush_value value).bind fun v =>
      (Run.keepsFlush_printLine limit v).bind fun _ => Run.keepsFlush_pure none
  | .branch condition ⟨body, _⟩ none _ => by
    rw [Statement.run_branch]
    refine (Run.keepsFlush_value condition).bind fun v => ?_
    split
    · exact (keepsFlush_runAll body).bind fun _ => Run.keepsFlush_pure _
    · exact (Run.keepsFlush_pure ()).bind fun _ => Run.keepsFlush_pure _
  | .branch condition ⟨body, _⟩ (some ⟨otherwise, _⟩) _ => by
    rw [Statement.run_branch]
    refine (Run.keepsFlush_value condition).bind fun v => ?_
    split
    · exact (keepsFlush_runAll body).bind fun _ => Run.keepsFlush_pure _
    · exact (keepsFlush_runAll otherwise).bind fun _ => Run.keepsFlush_pure _
  | .loop count ⟨body, _⟩ _ => by
    rw [Statement.run_loop]
    exact (Run.keepsFlush_value count).bind fun v =>
      ((keepsFlush_runAll body).loop v limit 1).bind fun _ => Run.keepsFlush_pure _

theorem keepsFlush_runAll : ∀ ss : List Statement, (runAll limit ss).KeepsFlush
  | [] => Run.keepsFlush_pure ()
  | s :: rest => by
    rw [runAll]
    exact s.keepsFlush_run.bind fun _ => keepsFlush_runAll rest
end

/-- On a stream that can be flushed, a program does what its statements do. -/
theorem Program.run_of_flushes (p : Program) {m : Machine} (h : m.output.flushFault = none) :
    p.run limit m = runAll limit p.statements m := by
  have hkeeps : (Run.endOf (runAll limit p.statements m)).output.flushFault = none :=
    (keepsFlush_runAll p.statements m).trans h
  cases hrun : runAll limit p.statements m with
  | ok a m' =>
    have hflush : m'.output.flushFault = none := by rwa [hrun] at hkeeps
    rw [Program.run, Run.bind_of_ok hrun, Run.flush, Output.flush, hflush]
  | error stop m' => rw [Program.run, Run.bind_of_error hrun]

end

end CatLang
