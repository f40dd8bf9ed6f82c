import CatLang.Proofs.Lexing

/-! Two lexers side by side. Where two windows show the same characters, and moving both on keeps
that so, the lexers read the same tokens and errors (`Alike.read`). Offsets may differ by a fixed
map, and where one source has ended the other may go on with a line end, which no token passes.
Sources that give the same characters have the same readings (`Shows.readings`). -/
namespace CatLang

/-- The stretch between the places of both ends. -/
def Span.move (place : Nat → Nat) (s : Span) : Span := ⟨place s.start, place s.stop⟩

def LexResult.move (place : Nat → Nat) : LexResult → LexResult
  | .ok t => .ok ⟨t.value, t.span.move place⟩
  | .error e => .error ⟨e.cause, e.span.move place⟩

theorem LexResult.move_id (r : LexResult) : r.move id = r := by
  cases r <;> rfl

namespace Lexer
variable {σ τ : Type} [CharSource σ] [CharSource τ]

/-- What the two windows of a pair have in common, one step and the next. -/
structure Alike (place : Nat → Nat) (R : Lexer σ → Lexer τ → Prop) : Prop where
  ch {l : Lexer σ} {m : Lexer τ} (h : R l m) : m.ch = l.ch ∨ l.ch = none ∧ m.ch = some '\n'
  nextCh {l : Lexer σ} {m : Lexer τ} (h : R l m) (hl : l.ch ≠ none) :
    m.nextCh = l.nextCh ∨ l.nextCh = none ∧ m.nextCh = some '\n'
  position {l : Lexer σ} {m : Lexer τ} (h : R l m) : m.position = place l.position
  step {l : Lexer σ} {m : Lexer τ} (h : R l m) (hl : l.ch ≠ none) : R l.step m.step

/-- Two readings with the same result, up to its place, and with windows of a pair behind it. -/
structure Paired (place : Nat → Nat) (R : Lexer σ → Lexer τ → Prop) (x : LexResult × Lexer σ)
    (y : LexResult × Lexer τ) : Prop where
  result : y.1 = x.1.move place
  windows : R x.2 y.2

namespace Alike
variable {place : Nat → Nat} {R : Lexer σ → Lexer τ → Prop} {l : Lexer σ} {m : Lexer τ} {c : Char}
  {test : Char → Bool}

theorem ch_eq (ha : Alike place R) (h : R l m) (hc : l.ch = some c) : m.ch = some c := by
  rcases ha.ch h with heq | ⟨hnone, -⟩
  · exact heq.trans hc
  · cases hnone.symm.trans hc

/-- A run ends in both at once if the test fails on what one source goes on with. -/
theorem scan (ha : Alike place R) (hend : ∀ {l m c}, R l m → l.ch = none → m.ch = some c →
    test c = false) (h : R l m) :
    m.run test = l.run test ∧ R (l.skip test) (m.skip test) := by
  unfold run skip
  fun_induction Lexer.scan test l generalizing m with
  | case1 l hl =>
    have hm : m.scan test = ([], m) := by
      cases hc : m.ch with
      | none => exact scan_of_none hc
      | some c => exact scan_of_stop hc (hend h hl hc)
    rw [hm]
    exact ⟨rfl, h⟩
  | case2 l c hl ht word after hscan ih =>
    rw [scan_of_pass (ha.ch_eq h hl) ht]
    have hstep := ih (ha.step h (by simp [hl]))
    rw [hscan] at hstep
    exact ⟨congrArg (c :: ·) hstep.1, hstep.2⟩
  | case3 l c hl ht =>
    rw [scan_of_stop (ha.ch_eq h hl) (by simpa using ht)]
    exact ⟨rfl, h⟩

theorem scan_line (ha : Alike place R) (test : Char → Bool) (ht : test '\n' = false) (h : R l m) :
    m.run test = l.run test ∧ R (l.skip test) (m.skip test) := by
  refine ha.scan (fun h hl hm => ?_) h
  rcases ha.ch h with heq | ⟨-, hline⟩
  · rw [hm, hl] at heq
    cases heq
  · cases hm.symm.trans hline
    exact ht

theorem ch_period (ha : Alike place R) (h : R l m) : m.ch = some '.' ↔ l.ch = some '.' := by
  rcases ha.ch h with heq | ⟨hnone, hline⟩
  · rw [heq]
  · simp [hnone, hline]

theorem token (ha : Alike place R) {stop : Lexer σ} {stop' : Lexer τ} (h : R l m)
    (hstop : R stop stop') (value : Token) :
    Paired place R (l.token stop value) (m.token stop' value) where
  result := by
    simp only [Lexer.token, ha.position h, ha.position hstop]
    rfl
  windows := hstop

theorem reject (ha : Alike place R) {stop : Lexer σ} {stop' : Lexer τ} (h : R l m)
    (hstop : R stop stop') (cause : LexCause) :
    Paired place R (l.reject stop cause) (m.reject stop' cause) where
  result := by
    simp only [Lexer.reject, ha.position h, ha.position hstop]
    rfl
  windows := hstop

theorem fraction (ha : Alike place R) {period : Lexer σ} {period' : Lexer τ} (h : R l m)
    (whole : List Char) (hperiod : R period period') (hc : period.ch = some '.') :
    Paired place R (l.fraction whole period) (m.fraction whole period') := by
  obtain ⟨hdigits, hafter⟩ := ha.scan_line isWordChar (by decide)
    (ha.step hperiod (by simp [hc]))
  obtain ⟨-, hdots⟩ := ha.scan_line (fun c => c == '.' || c.isAlphanum) (by decide) hafter
  simp only [Lexer.fraction, hdigits, ha.ch_period hafter]
  split
  · exact ha.reject h hafter _
  split
  · exact ha.reject h hafter _
  split
  · exact ha.reject h hdots _
  · exact ha.token h hafter _

theorem word (ha : Alike place R) (h : R l m) : Paired place R l.word m.word := by
  obtain ⟨hrun, hafter⟩ := ha.scan_line isWordChar (by decide) h
  simp only [Lexer.word, hrun, ha.ch_period hafter]
  split
  · exact ha.token h hafter _
  split
  · next hc => exact ha.fraction h _ hafter hc
  · exact ha.token h hafter _

theorem pair?_eq (ha : Alike place R) (h : R l m) (hl : l.ch = some c) :
    m.nextCh.bind (pair? c) = l.nextCh.bind (pair? c) ∧
      (m.nextCh = some '/' ↔ l.nextCh = some '/') := by
  rcases ha.nextCh h (by simp [hl]) with heq | ⟨hnone, hline⟩
  · rw [heq]
    exact ⟨rfl, Iff.rfl⟩
  · rw [hnone, hline]
    refine ⟨?_, by simp⟩
    show pair? c '\n' = none
    unfold pair?
    split <;> simp_all

/-- What is read before the end of the first source is read from the second one too. -/
theorem read (ha : Alike place R) (h : R l m) (hl : l.ch = some c) :
    Paired place R l.read m.read := by
  obtain ⟨hpair, hslash⟩ := ha.pair?_eq h hl
  have hstep := ha.step h (by simp [hl])
  have hread : l.read = l.readFrom c ∧ m.read = m.readFrom c := by
    simp only [Lexer.read, hl, ha.ch_eq h hl, and_self]
  simp only [hread, readFrom, hpair, hslash]
  split
  · exact ha.token h (ha.scan_line (· != '\n') (by decide) h).2 _
  split
  · next value hvalue =>
    -- A pair of characters is no end of the source, so both windows move on twice.
    obtain ⟨d, hd, -⟩ := Option.bind_eq_some_iff.1 hvalue
    have hch : l.step.ch = some d := by
      unfold Lexer.step
      split <;> exact hd
    exact ha.token h (ha.step hstep (by simp [hch])) _
  split
  · exact ha.token h hstep _
  split
  · exact ha.word h
  split
  · exact ha.reject h hstep _
  · exact ha.reject h hstep _

section Exact
variable (ha : Alike place R) (hch : ∀ {l m}, R l m → m.ch = l.ch)
include ha hch

theorem skip_blank (h : R l m) : R (l.skip Text.isBlank) (m.skip Text.isBlank) := by
  refine (ha.scan (fun h hl hm => ?_) h).2
  rw [hch h, hl] at hm
  cases hm

/-- Sources that end together have the same readings. -/
theorem readings (hend : ∀ {l m}, R l m → l.ch = none → Paired place R l.read m.read)
    (h : R l m) : m.readings.map (·.1) = l.readings.map fun r => r.1.move place := by
  fun_induction Lexer.readings l generalizing m with
  | case1 l hnone =>
    have hskip := ha.skip_blank hch h
    rw [readings_of_none ((hch hskip).trans hnone), List.map_singleton, List.map_singleton]
    exact congrArg ([·]) (hend hskip hnone).result
  | case2 l hmore ih =>
    have hskip := ha.skip_blank hch h
    obtain ⟨c, hc⟩ := Option.ne_none_iff_exists'.1 hmore
    have hpaired := ha.read hskip hc
    rw [readings_of_ne_none (by rwa [hch hskip]), List.map_cons, List.map_cons]
    exact List.cons_eq_cons.2 ⟨hpaired.result, ih hpaired.windows⟩

end Exact

end Alike

/-- What every step keeps is kept by every reading. -/
theorem next_of_step {I : Lexer σ → Prop} (hstep : ∀ l, I l → I l.step) {l : Lexer σ} (h : I l) :
    I (l.skip Text.isBlank) ∧ I l.next.2 := by
  have ha : Alike id fun l m : Lexer σ => m = l ∧ I l :=
    { ch := fun h => .inl (by rw [h.1])
      nextCh := fun h _ => .inl (by rw [h.1])
      position := fun h => by rw [h.1, id]
      step := fun h _ => ⟨by rw [h.1], hstep _ h.2⟩ }
  have hskip := (ha.skip_blank (fun h => by rw [h.1]) ⟨rfl, h⟩).2
  refine ⟨hskip, ?_⟩
  cases hc : (l.skip Text.isBlank).ch with
  | some c => exact (ha.read ⟨rfl, hskip⟩ hc).windows.2
  | none =>
    have hread : l.next.2 = (l.skip Text.isBlank).step := by
      rw [next, read, hc]
      rfl
    rw [hread]
    exact hstep _ hskip

/-- The sources of a pair give the same characters at the same offsets, now and later. -/
def Same (S : σ → τ → Prop) : Prop :=
  ∀ s t, S s t → (CharSource.next t).1 = (CharSource.next s).1 ∧
    S (CharSource.next s).2 (CharSource.next t).2

/-- The same window on two sources of a pair. -/
structure Shows (S : σ → τ → Prop) (l : Lexer σ) (m : Lexer τ) : Prop where
  position : m.position = l.position
  nextPosition : m.nextPosition = l.nextPosition
  ch : m.ch = l.ch
  nextCh : m.nextCh = l.nextCh
  input : S l.input m.input

section Same
variable {S : σ → τ → Prop} (hs : Same S) {l : Lexer σ} {m : Lexer τ}
include hs

theorem Shows.step (h : Shows S l m) : Shows S l.step m.step := by
  obtain ⟨hgiven, hinput⟩ := hs _ _ h.input
  unfold Lexer.step
  rcases hl : CharSource.next l.input with ⟨_ | ⟨place, c⟩, input⟩
  all_goals
    rcases hm : CharSource.next m.input with ⟨given, input'⟩
    rw [hl, hm] at hgiven hinput
    obtain rfl : given = _ := hgiven
    simp only [h.nextPosition, h.nextCh]
    exact ⟨rfl, rfl, rfl, rfl, hinput⟩

theorem shows_start {s : σ} {t : τ} (h : S s t) : Shows S (start s) (start t) :=
  have hempty : Shows S ⟨0, 0, none, none, s⟩ ⟨0, 0, none, none, t⟩ := ⟨rfl, rfl, rfl, rfl, h⟩
  (hempty.step hs).step hs

theorem Shows.readings (h : Shows S l m) : m.readings.map (·.1) = l.readings.map (·.1) := by
  have ha : Alike id (Shows S) :=
    { ch := fun h => .inl h.ch
      nextCh := fun h _ => .inl h.nextCh
      position := Shows.position
      step := fun h _ => h.step hs }
  have hend {l : Lexer σ} {m : Lexer τ} (h : Shows S l m) (hl : l.ch = none) :
      Paired id (Shows S) l.read m.read := by
    rw [read, read, h.ch, hl]
    exact ha.token h (h.step hs) _
  have hreadings := ha.readings Shows.ch hend h
  simpa only [LexResult.move_id] using hreadings

end Same

end Lexer

end CatLang
