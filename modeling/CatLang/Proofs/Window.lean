import CatLang.Parser.Reading

/-! How the window moves over the lexer's results. The parser decides by the results that are not
comments alone: after `n` steps the window shows the results `n` and `n + 1` of those (`At`), and
taking tokens one after the other (`Passes`) walks along them. -/
namespace CatLang

namespace LexResult

def token? : LexResult → Option (Located Token)
  | .ok t => some t
  | .error _ => none

def error? : LexResult → Option LexError
  | .ok _ => none
  | .error e => some e

/-- The results the parser decides by. -/
def code (results : List LexResult) : List LexResult := results.filter (·.comment?.isNone)

def comments (results : List LexResult) : List Span := results.filterMap comment?

end LexResult

/-- What the window has not left behind yet. -/
def ParserOn.ahead (p : Parser) : Nat :=
  p.current.toList.length + (p.next.toList.length + p.rest.length)

namespace Parser
open LexResult (code)
open ParserOn (pull)

section Pull
variable {σ : Type} [TokenSource σ] {s : σ}

theorem pull_of_comment {span : Span} (h : (TokenSource.next s).1 = some (.ok ⟨.comment, span⟩)) :
    pull s = ⟨span :: (pull (TokenSource.next s).2).comments, (pull (TokenSource.next s).2).result,
      (pull (TokenSource.next s).2).rest⟩ := by
  have hcomment : (TokenSource.next s).1.bind LexResult.comment? = some span := by
    rw [h]
    rfl
  rw [pull, hcomment]
  rfl

theorem pull_of_code (h : ∀ span, (TokenSource.next s).1 ≠ some (.ok ⟨.comment, span⟩)) :
    pull s = ⟨[], (TokenSource.next s).1, (TokenSource.next s).2⟩ := by
  have hcode : (TokenSource.next s).1.bind LexResult.comment? = none := by
    refine Option.eq_none_iff_forall_ne_some.2 fun span hspan => ?_
    obtain ⟨result, hresult, hcomment⟩ := Option.bind_eq_some_iff.1 hspan
    rw [LexResult.comment?_eq_some_iff.1 hcomment] at hresult
    exact h span hresult
  rw [pull, hcode]
  rfl

end Pull

theorem pull_nil : pull ([] : List LexResult) = ⟨[], none, []⟩ :=
  pull_of_code fun _ h => nomatch h

theorem pull_comment (span : Span) (rest : List LexResult) :
    pull (.ok ⟨.comment, span⟩ :: rest) =
      ⟨span :: (pull rest).comments, (pull rest).result, (pull rest).rest⟩ :=
  pull_of_comment rfl

theorem pull_code {r : LexResult} (h : r.comment? = none) (rest : List LexResult) :
    pull (r :: rest) = ⟨[], some r, rest⟩ := by
  refine pull_of_code fun span hr => ?_
  cases hr
  cases h

/-- Pulling takes the first result that is no comment, and the comments before it. -/
theorem pull_spec (results : List LexResult) :
    (pull results).result = (code results).head? ∧
      code (pull results).rest = (code results).tail ∧
      (pull results).comments ++ LexResult.comments (pull results).rest =
        LexResult.comments results := by
  induction results with
  | nil =>
    rw [pull_nil]
    exact ⟨rfl, rfl, rfl⟩
  | cons r rest ih =>
    obtain ⟨hresult, hcode, hcomments⟩ := ih
    cases hr : r.comment? with
    | none =>
      rw [pull_code hr]
      simp [code, LexResult.comments, hr]
    | some span =>
      obtain rfl := LexResult.comment?_eq_some_iff.1 hr
      rw [pull_comment]
      refine ⟨?_, ?_, ?_⟩
      · simpa [code, hr] using hresult
      · simpa [code, hr] using hcode
      · simpa [LexResult.comments, hr] using hcomments

theorem pull_token? (results : List LexResult) :
    (pull results).token? = (code results).head?.bind LexResult.token? := by
  rw [← (pull_spec results).1]
  unfold Pulled.token? LexResult.token?
  rcases (pull results).result with _ | _ | _ <;> rfl

theorem pull_error? (results : List LexResult) :
    (pull results).error? = (code results).head?.bind LexResult.error? := by
  rw [← (pull_spec results).1]
  unfold Pulled.error? LexResult.error?
  rcases (pull results).result with _ | _ | _ <;> rfl

/-- What is pulled is no longer ahead. -/
theorem length_pull_rest (results : List LexResult) :
    (pull results).token?.toList.length + (pull results).rest.length ≤ results.length := by
  induction results with
  | nil =>
    rw [pull_nil]
    exact Nat.le_refl _
  | cons r rest ih =>
    cases hr : r.comment? with
    | none =>
      rw [pull_code hr]
      cases r <;> simp [Pulled.token?]
      omega
    | some span =>
      obtain rfl := LexResult.comment?_eq_some_iff.1 hr
      rw [pull_comment]
      exact Nat.le_succ_of_le ih

theorem pull_rest_suffix (results : List LexResult) : (pull results).rest <:+ results := by
  induction results with
  | nil =>
    simp only [pull_nil, List.suffix_refl]
  | cons r rest ih =>
    cases hr : r.comment? with
    | none =>
      rw [pull_code hr]
      exact List.suffix_cons r rest
    | some span =>
      obtain rfl := LexResult.comment?_eq_some_iff.1 hr
      rw [pull_comment]
      exact ih.trans (List.suffix_cons _ rest)

/-- The window after `n` steps over these results. -/
structure At (results : List LexResult) (n : Nat) (p : Parser) : Prop where
  current : p.current = (code results)[n]?.bind LexResult.token?
  next : p.next = (code results)[n + 1]?.bind LexResult.token?
  rest : code p.rest = (code results).drop (n + 2)
  errors : p.errors = ((code results).take (n + 2)).filterMap LexResult.error?
  comments : p.comments ++ LexResult.comments p.rest = LexResult.comments results
  suffix : p.rest <:+ results

theorem At.step {results : List LexResult} {n : Nat} {p : Parser} (h : At results n p) :
    At results (n + 1) p.step where
  current := h.next
  next := by
    change (pull p.rest).token? = _
    rw [pull_token?, h.rest, List.head?_drop]
  rest := by
    change code (pull p.rest).rest = _
    rw [(pull_spec p.rest).2.1, h.rest, List.tail_drop]
  errors := by
    change p.errors ++ (pull p.rest).error?.toList = _
    rw [pull_error?, h.rest, h.errors, List.head?_drop, List.take_add_one (i := n + 2),
      List.filterMap_append]
    congr 1
    rcases (code results)[n + 2]? with _ | _ | _ <;> rfl
  comments := by
    change (p.comments ++ (pull p.rest).comments) ++ LexResult.comments (pull p.rest).rest = _
    rw [List.append_assoc, (pull_spec p.rest).2.2, h.comments]
  suffix := (pull_rest_suffix p.rest).trans h.suffix

/-- The window on the first two of these results. -/
def ofResults (results : List LexResult) : Parser := .start results

theorem at_ofResults (results : List LexResult) : At results 0 (ofResults results) where
  current := by
    change (pull results).token? = _
    rw [pull_token?, List.head?_eq_getElem?]
  next := by
    change (pull (pull results).rest).token? = _
    rw [pull_token?, (pull_spec results).2.1, List.head?_tail]
  rest := by
    change code (pull (pull results).rest).rest = _
    rw [(pull_spec _).2.1, (pull_spec results).2.1, ← List.drop_one, ← List.drop_one,
      List.drop_drop]
  errors := by
    change ([] ++ (pull results).error?.toList) ++ (pull (pull results).rest).error?.toList = _
    rw [pull_error?, pull_error?, (pull_spec results).2.1]
    rcases code results with _ | ⟨_ | _, _ | ⟨_ | _, _⟩⟩ <;> rfl
  comments := by
    change ([] ++ (pull results).comments ++ (pull (pull results).rest).comments) ++
      LexResult.comments (pull (pull results).rest).rest = _
    rw [List.append_assoc, (pull_spec (pull results).rest).2.2, List.nil_append,
      (pull_spec results).2.2]
  suffix := (pull_rest_suffix (pull results).rest).trans (pull_rest_suffix results)

/-- Taking these tokens one after the other moves the window from `p` to `q`. -/
inductive Passes {σ : Type} [TokenSource σ] :
    ParserOn σ → List (Located Token) → ParserOn σ → Prop
  | nil (p : ParserOn σ) : Passes p [] p
  | cons {p q : ParserOn σ} {t : Located Token} {ts : List (Located Token)} :
      p.current = some t → Passes p.step ts q → Passes p (t :: ts) q

namespace Passes
variable {t : Located Token} {ts us : List (Located Token)}

section
variable {σ : Type} [TokenSource σ] {p q r : ParserOn σ}

theorem single (h : p.current = some t) : Passes p [t] p.step := .cons h (.nil _)

theorem append (h : Passes p ts q) (h' : Passes q us r) : Passes p (ts ++ us) r := by
  induction h with
  | nil => exact h'
  | cons hc _ ih => exact .cons hc (ih h')

theorem cons_iff : Passes p (t :: ts) q ↔ p.current = some t ∧ Passes p.step ts q := by
  constructor
  · rintro (_ | ⟨hc, h⟩)
    exact ⟨hc, h⟩
  · rintro ⟨hc, h⟩
    exact .cons hc h

theorem append_iff : Passes p (ts ++ us) r ↔ ∃ q, Passes p ts q ∧ Passes q us r := by
  constructor
  · intro h
    induction ts generalizing p with
    | nil => exact ⟨p, .nil p, h⟩
    | cons t ts ih =>
      obtain ⟨hc, h⟩ := cons_iff.1 h
      obtain ⟨q, hq, hr⟩ := ih h
      exact ⟨q, .cons hc hq, hr⟩
  · rintro ⟨q, hq, hr⟩
    exact hq.append hr

theorem lastEnd_eq (h : Passes p (ts ++ [t]) q) : q.lastEnd = t.span.stop := by
  obtain ⟨r, -, h⟩ := append_iff.1 h
  obtain ⟨hc, h⟩ := cons_iff.1 h
  cases h
  simp only [ParserOn.step, hc]

end

variable {p q : Parser}

/-- Tokens that were taken are the results that the window stood before. -/
theorem at_after {results : List LexResult} {n : Nat} (h : Passes p ts q) (hp : At results n p) :
    At results (n + ts.length) q ∧
      (code results).drop n = ts.map .ok ++ (code results).drop (n + ts.length) := by
  induction h generalizing n with
  | nil => exact ⟨hp, rfl⟩
  | @cons p q t ts hc _ ih =>
    obtain ⟨hq, hts⟩ := ih hp.step
    have hlen : n + (t :: ts).length = n + 1 + ts.length := by
      rw [List.length_cons]
      omega
    rw [hlen]
    refine ⟨hq, ?_⟩
    obtain ⟨r, hr, ht⟩ := Option.bind_eq_some_iff.1 (hp.current.symm.trans hc)
    have hrt : r = .ok t := by
      cases r with
      | error e => cases ht
      | ok t' =>
        cases ht
        rfl
    obtain ⟨hn, hget⟩ := List.getElem?_eq_some_iff.1 hr
    rw [List.drop_eq_getElem_cons hn, hget, hrt, hts]
    rfl

/-- Tokens that the window stands before can be taken. -/
theorem exists_of_at {results : List LexResult} {n : Nat} {ts : List (Located Token)}
    {us : List LexResult} (hp : At results n p) (h : (code results).drop n = ts.map .ok ++ us) :
    ∃ q, Passes p ts q ∧ At results (n + ts.length) q := by
  induction ts generalizing n p with
  | nil => exact ⟨p, .nil p, hp⟩
  | cons t ts ih =>
    have hget : (code results)[n]? = some (.ok t) := by
      rw [← List.head?_drop, h]
      rfl
    have htail : (code results).drop (n + 1) = ts.map .ok ++ us := by
      rw [← List.tail_drop, h]
      rfl
    have hc : p.current = some t := by
      rw [hp.current, hget]
      rfl
    obtain ⟨q, hq, hat⟩ := ih hp.step htail
    refine ⟨q, .cons hc hq, ?_⟩
    rw [List.length_cons, Nat.add_comm ts.length, ← Nat.add_assoc]
    exact hat

end Passes

theorem ahead_step {p : Parser} {t : Located Token} (h : p.current = some t) :
    p.step.ahead + 1 ≤ p.ahead := by
  have hpull := length_pull_rest p.rest
  have hstep : p.step.ahead = p.next.toList.length +
      ((pull p.rest).token?.toList.length + (pull p.rest).rest.length) := rfl
  rw [hstep, ParserOn.ahead, h, Option.toList_some, List.length_singleton]
  omega

theorem ahead_pos {p : Parser} {t : Located Token} (h : p.current = some t) : 1 ≤ p.ahead :=
  Nat.le_trans (Nat.le_add_left ..) (ahead_step h)

theorem Passes.ahead_le {p q : Parser} {ts : List (Located Token)} (h : Passes p ts q) :
    q.ahead + ts.length ≤ p.ahead := by
  induction h with
  | nil => exact Nat.le_refl _
  | cons hc _ ih =>
    have := ahead_step hc
    rw [List.length_cons]
    omega

theorem ahead_le_fuel (p : Parser) : 4 * p.ahead + 8 ≤ p.fuel := by
  have hcurrent : p.current.toList.length ≤ 1 := by cases p.current <;> simp
  have hnext : p.next.toList.length ≤ 1 := by cases p.next <;> simp
  have hfuel : p.fuel = 4 * (p.rest.length + 4) := rfl
  unfold ParserOn.ahead
  omega

/-! What the small readers do. -/

section Readers
variable {α β : Type} {p q : Parser}

@[simp] theorem pure_run (a : α) (p : Parser) : (pure a : Parse α) p = .ok a p := rfl

@[simp] theorem fail_run (cause : ParseCause) (span : Span) (p : Parser) :
    (fail cause span : Parse α) p = .error ⟨cause, span⟩ p :=
  rfl

@[simp] theorem failAtEnd_run (p : Parser) :
    (failAtEnd : Parse α) p = .error ⟨.unexpectedEnd, p.endSpan⟩ p :=
  rfl

@[simp] theorem window_bind (f : Window → Parse α) (p : Parser) :
    (window >>= f) p = f p.toWindow p :=
  rfl

@[simp] theorem advance_bind (f : Unit → Parse α) (p : Parser) :
    (advance >>= f) p = f () p.step :=
  rfl

@[simp] theorem take_bind (f : Option (Located Token) → Parse α) (p : Parser) :
    (take >>= f) p = f p.current p.step :=
  rfl

section Bind
variable {S : Type} {p q : S}

theorem bind_of_ok {x : ReadOn S α} {a : α} (h : x p = .ok a q) (f : α → ReadOn S β) :
    (x >>= f) p = f a q := by
  change EStateM.bind x f p = _
  rw [EStateM.bind, h]

theorem bind_of_error {x : ReadOn S α} {e : ParseError} (h : x p = .error e q) (f : α → ReadOn S β) :
    (x >>= f) p = .error e q := by
  change EStateM.bind x f p = _
  rw [EStateM.bind, h]

theorem bind_eq_ok {x : ReadOn S α} {f : α → ReadOn S β} {b : β} :
    (x >>= f) p = .ok b q ↔ ∃ a r, x p = .ok a r ∧ f a r = .ok b q := by
  constructor
  · intro h
    cases hx : x p with
    | ok a r =>
      rw [bind_of_ok hx] at h
      exact ⟨a, r, rfl, h⟩
    | error e r =>
      rw [bind_of_error hx] at h
      cases h
  · rintro ⟨a, r, hx, h⟩
    rw [bind_of_ok hx, h]

end Bind

theorem mapError_eq_ok {change : ParseError → ParseError} {x : Parse α} {a : α} :
    mapError change x p = .ok a q ↔ x p = .ok a q := by
  unfold mapError
  cases x p <;> simp

theorem accept_none {make : Located Token → Except ParseError α} (h : p.current = none) :
    accept make p = .error ⟨.unexpectedEnd, p.endSpan⟩ p := by
  rw [accept, window_bind, h]
  rfl

theorem accept_ok {make : Located Token → Except ParseError α} {t : Located Token} {a : α}
    (h : p.current = some t) (hmake : make t = .ok a) : accept make p = .ok a p.step := by
  rw [accept, window_bind, h]
  simp only [hmake]
  rfl

theorem accept_error {make : Located Token → Except ParseError α} {t : Located Token}
    {e : ParseError} (h : p.current = some t) (hmake : make t = .error e) :
    accept make p = .error e p := by
  rw [accept, window_bind, h]
  simp only [hmake]
  rfl

theorem accept_eq_ok {make : Located Token → Except ParseError α} {a : α} :
    accept make p = .ok a q ↔ ∃ t, p.current = some t ∧ make t = .ok a ∧ q = p.step := by
  cases hc : p.current with
  | none => simp [accept_none hc]
  | some t =>
    cases hm : make t with
    | ok b => simp [accept_ok hc hm, hm, eq_comm]
    | error e => simp [accept_error hc hm, hm]

theorem expectOr_eq_ok {token : Token} {cause : Token → ParseCause} {span : Span} :
    expectOr token cause p = .ok span q ↔ p.current = some ⟨token, span⟩ ∧ q = p.step := by
  rw [expectOr, accept_eq_ok]
  constructor
  · rintro ⟨⟨value, place⟩, hc, hmake, rfl⟩
    split at hmake
    · next hv =>
      cases hmake
      cases hv
      exact ⟨hc, rfl⟩
    · cases hmake
  · rintro ⟨hc, rfl⟩
    exact ⟨_, hc, if_pos rfl, rfl⟩

theorem semicolon_eq_ok {after stop : Nat} :
    semicolon after p = .ok stop q ↔
      ∃ span, p.current = some ⟨.semicolon, span⟩ ∧ stop = span.stop ∧ q = p.step := by
  rw [semicolon, accept_eq_ok]
  constructor
  · rintro ⟨⟨value, place⟩, hc, hmake, rfl⟩
    split at hmake
    · next hv =>
      cases hmake
      cases hv
      exact ⟨place, hc, rfl, rfl⟩
    · cases hmake
  · rintro ⟨span, hc, rfl, rfl⟩
    exact ⟨_, hc, if_pos rfl, rfl⟩

theorem identifier_eq_ok {name : Located String} :
    identifier p = .ok name q ↔
      p.current = some ⟨.name name.value, name.span⟩ ∧ q = p.step := by
  rw [identifier, accept_eq_ok]
  constructor
  · rintro ⟨⟨value, place⟩, hc, hmake, rfl⟩
    cases value with
    | name text =>
      cases hmake
      exact ⟨hc, rfl⟩
    | _ => cases hmake
  · rintro ⟨hc, rfl⟩
    exact ⟨_, hc, rfl, rfl⟩

end Readers

end Parser

end CatLang
