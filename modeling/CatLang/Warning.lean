import CatLang.Run

/-! What can be said about a program without running it: variables nobody reads, and blocks that
never run because their condition or count has a fixed value. -/
namespace CatLang

inductive Warning where
  | unusedVariable (name : String) (span : Span)
  | unreachableIf (span : Span)
  | unreachableElse (span : Span)
  | unreachableLoop (span : Span)
deriving DecidableEq

def Warning.span : Warning → Span
  | unusedVariable _ span => span
  | unreachableIf span => span
  | unreachableElse span => span
  | unreachableLoop span => span

def Expr.reads : Expr → List String
  | name text _ => [text]
  | number _ _ => []
  | unary _ operand _ => operand.reads
  | binary left _ right _ => left.reads ++ right.reads
  | group inner _ => inner.reads

def Expr.fixedValue? (e : Expr) : Option Value :=
  if e.isConstant then (e.eval Table.empty).toOption else none

mutual
def Statement.reads : Statement → List String
  | .assign _ value _ => value.reads
  | .print value _ => value.reads
  | .branch condition ⟨body, _⟩ none _ => condition.reads ++ readsAll body
  | .branch condition ⟨body, _⟩ (some ⟨otherwise, _⟩) _ =>
    condition.reads ++ readsAll body ++ readsAll otherwise
  | .loop count ⟨body, _⟩ _ => count.reads ++ readsAll body

def readsAll : List Statement → List String
  | [] => []
  | s :: rest => s.reads ++ readsAll rest
end

mutual
/-- The targets assigned anywhere in a statement, in source order. -/
def Statement.targets : Statement → List Name
  | .assign target _ _ => [target]
  | .print _ _ => []
  | .branch _ ⟨body, _⟩ none _ => targetsAll body
  | .branch _ ⟨body, _⟩ (some ⟨otherwise, _⟩) _ => targetsAll body ++ targetsAll otherwise
  | .loop _ ⟨body, _⟩ _ => targetsAll body

def targetsAll : List Statement → List Name
  | [] => []
  | s :: rest => s.targets ++ targetsAll rest
end

mutual
/-- The blocks of a statement that never run, outer ones before the ones inside. -/
def Statement.deadBlocks : Statement → List Warning
  | .assign _ _ _ => []
  | .print _ _ => []
  | .branch condition ⟨body, bodySpan⟩ none _ =>
    match condition.fixedValue? with
    | some v => if v.isTrue then deadBlocksAll body
      else .unreachableIf bodySpan :: deadBlocksAll body
    | none => deadBlocksAll body
  | .branch condition ⟨body, bodySpan⟩ (some ⟨otherwise, otherSpan⟩) _ =>
    let inside := deadBlocksAll body ++ deadBlocksAll otherwise
    match condition.fixedValue? with
    | some v => if v.isTrue then .unreachableElse otherSpan :: inside
      else .unreachableIf bodySpan :: inside
    | none => inside
  | .loop count ⟨body, bodySpan⟩ _ =>
    match count.fixedValue? with
    | some v => if 1 ≤ v then deadBlocksAll body
      else .unreachableLoop bodySpan :: deadBlocksAll body
    | none => deadBlocksAll body

def deadBlocksAll : List Statement → List Warning
  | [] => []
  | s :: rest => s.deadBlocks ++ deadBlocksAll rest
end

/-- Each name once, where it stands first. -/
def firstTargets : List Name → List Name
  | [] => []
  | target :: rest =>
    target :: (firstTargets rest).filter (fun other => other.value ≠ target.value)

/-- Warnings by where they start; those that start together keep their order. -/
def Warning.sort (warnings : List Warning) : List Warning :=
  warnings.mergeSort fun a b => a.span.start ≤ b.span.start

namespace Program

def reads (p : Program) : List String := readsAll p.statements

def assigned (p : Program) : List Name := firstTargets (targetsAll p.statements)

def unused (p : Program) (assigned : List Name) : List Warning :=
  let reads := p.reads
  (assigned.filter fun target => !reads.contains target.value).map fun target =>
    .unusedVariable target.value target.span

def warnings (p : Program) : List Warning :=
  Warning.sort (deadBlocksAll p.statements ++ p.unused p.assigned)

end Program

end CatLang
