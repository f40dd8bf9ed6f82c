import CatLang.Proofs.Running
import CatLang.Warning

/-! Two runs side by side. If every action keeps a relation between two machines and ends the same
way in both, then so does every program (`respects_runAll`): the two runs take the same branches,
go round their loops equally often and stop at the same error. -/
namespace CatLang

namespace Run
variable {α β : Type} {R : Machine → Machine → Prop}

/-- How a run ends, apart from the machine it leaves. -/
def resultOf : EStateM.Result Stop Machine α → Except Stop α
  | .ok a _ => .ok a
  | .error stop _ => .error stop

/-- The same end with the machine changed. -/
def onEnd (change : Machine → Machine) :
    EStateM.Result Stop Machine α → EStateM.Result Stop Machine α
  | .ok a m => .ok a (change m)
  | .error stop m => .error stop (change m)

/-- The value of an expression depends on the variables alone. -/
theorem value_of_vars (e : Expr) (change : Machine → Machine) {m : Machine}
    (h : (change m).vars = m.vars) : value e (change m) = onEnd change (value e m) := by
  unfold value
  rw [h]
  cases e.eval m.vars <;> rfl

/-- From related machines the run ends the same way and leaves related machines. -/
def Respects (R : Machine → Machine → Prop) (x : Run α) : Prop :=
  ∀ m m', R m m' → resultOf (x m) = resultOf (x m') ∧ R (endOf (x m)) (endOf (x m'))

namespace Respects

/-- A change of the machine that makes no difference to the run. -/
theorem change_iff {x : Run α} {change : Machine → Machine} :
    (x.Respects fun m m' => m' = change m) ↔ ∀ m, x (change m) = onEnd change (x m) := by
  constructor
  · intro h m
    obtain ⟨hresult, hend⟩ := h m _ rfl
    cases hm : x m <;> cases hm' : x (change m) <;> rw [hm, hm'] at hresult hend <;>
      cases hresult <;> cases hend <;> rfl
  · rintro h m _ rfl
    rw [h m]
    cases x m <;> exact ⟨rfl, rfl⟩

theorem pure (a : α) : Respects R (Pure.pure a : Run α) := fun _ _ h => ⟨rfl, h⟩

theorem bind {x : Run α} {f : α → Run β} (hx : x.Respects R) (hf : ∀ a, (f a).Respects R) :
    (x >>= f).Respects R := by
  intro m m' h
  obtain ⟨hresult, hend⟩ := hx m m' h
  cases hm : x m with
  | ok a n =>
    cases hm' : x m' with
    | ok a' n' =>
      rw [hm, hm'] at hresult hend
      cases hresult
      rw [bind_of_ok hm, bind_of_ok hm']
      exact hf a n n' hend
    | error e' n' =>
      rw [hm, hm'] at hresult
      cases hresult
  | error e n =>
    cases hm' : x m' with
    | ok a' n' =>
      rw [hm, hm'] at hresult
      cases hresult
    | error e' n' =>
      rw [hm, hm'] at hresult hend
      cases hresult
      rw [bind_of_error hm, bind_of_error hm']
      exact ⟨rfl, hend⟩

theorem loop {x : Run Unit} (h : x.Respects R) (count : Value) (limit : Nat) (number : UInt64) :
    (loop count x limit number).Respects R :=
  loop_induction (pure ()) (fun _ _ hm => ⟨rfl, hm⟩) (fun _ hnext => h.bind fun _ => hnext) limit
    number

end Respects

/-- Every action keeps the relation; an expression does so if it reads these names only. -/
structure Keeps (names : List String) (R : Machine → Machine → Prop) : Prop where
  value : ∀ e : Expr, e.reads ⊆ names → (value e).Respects R
  assign : ∀ name v, (assign name v).Respects R
  printLine : ∀ limit v, (printLine limit v).Respects R

end Run

section
variable {names : List String} {R : Machine → Machine → Prop} {limit : Nat}

mutual
theorem Statement.respects_run (h : Run.Keeps names R) :
    ∀ s : Statement, s.reads ⊆ names → (s.run limit).Respects R
  | .assign target value _, hs => by
    rw [Statement.run]
    exact (h.value value hs).bind fun v => (h.assign target.value v).bind fun _ => .pure none
  | .print value _, hs => by
    rw [Statement.run]
    exact (h.value value hs).bind fun v => (h.printLine limit v).bind fun _ => .pure none
  | .branch condition ⟨body, _⟩ none _, hs => by
    obtain ⟨hc, hb⟩ := List.append_subset.1 hs
    rw [Statement.run_branch]
    refine (h.value condition hc).bind fun v => ?_
    split
    · exact (respects_runAll h body hb).bind fun _ => .pure _
    · exact (Run.Respects.pure ()).bind fun _ => .pure _
  | .branch condition ⟨body, _⟩ (some ⟨otherwise, _⟩) _, hs => by
    obtain ⟨hcb, ho⟩ := List.append_subset.1 hs
    obtain ⟨hc, hb⟩ := List.append_subset.1 hcb
    rw [Statement.run_branch]
    refine (h.value condition hc).bind fun v => ?_
    split
    · exact (respects_runAll h body hb).bind fun _ => .pure _
    · exact (respects_runAll h otherwise ho).bind fun _ => .pure _
  | .loop count ⟨body, _⟩ _, hs => by
    obtain ⟨hc, hb⟩ := List.append_subset.1 hs
    rw [Statement.run_loop]
    exact (h.value count hc).bind fun v =>
      ((respects_runAll h body hb).loop v limit 1).bind fun _ => .pure _

theorem respects_runAll (h : Run.Keeps names R) :
    ∀ ss : List Statement, readsAll ss ⊆ names → (runAll limit ss).Respects R
  | [], _ => .pure ()
  | s :: rest, hs => by
    obtain ⟨hfirst, hrest⟩ := List.append_subset.1 hs
    rw [runAll]
    exact (s.respects_run h hfirst).bind fun _ => respects_runAll h rest hrest
end

end

end CatLang
