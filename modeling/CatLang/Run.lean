import CatLang.Numeral
import CatLang.Output
import CatLang.Table
import CatLang.Tree

/-! Running programs. Expressions only read the variables; statements change the variables and the
output, one after the other, until the first error. A program may run for ever, so a run is followed
only up to a limit: this many rounds of each loop, and this many interrupted calls of the stream. -/
namespace CatLang

inductive RunError where
  | undeclared (name : String) (span : Span)
  | output (fault : Fault)
deriving DecidableEq

def RunError.message : RunError → String
  | undeclared name _ => "undeclared variable `" ++ name ++ "`"
  | output fault => "failed to write output: " ++ fault.message

def UnaryOp.apply : UnaryOp → Value → Value
  | negate, v => -v
  | absolute, v => v.abs

def BinaryOp.apply : BinaryOp → Value → Value → Value
  | add, a, b => a + b
  | subtract, a, b => a - b
  | multiply, a, b => a * b
  | divide, a, b => a / b
  | modulo, a, b => Value.modulo a b
  | power, a, b => Float.pow a b
  | equal, a, b => .ofBool (a == b)
  | notEqual, a, b => .ofBool (a != b)
  | less, a, b => .ofBool (a < b)
  | lessEqual, a, b => .ofBool (a ≤ b)
  | greater, a, b => .ofBool (b < a)
  | greaterEqual, a, b => .ofBool (b ≤ a)

/-- The value of an expression, left operands before right ones. -/
def Expr.eval (vars : Table) : Expr → Except RunError Value
  | name text span =>
    match vars.get? text with
    | some v => .ok v
    | none => .error (.undeclared text span)
  | number raw _ => .ok (Numeral.decode raw.toList)
  | unary op operand _ => do return op.apply (← operand.eval vars)
  | binary left op right _ => do
    let l ← left.eval vars
    let r ← right.eval vars
    return op.apply l r
  | group inner _ => inner.eval vars

structure Machine where
  vars : Table
  output : Output

inductive Stop where
  | failed (error : RunError)
  /-- The limit was reached. -/
  | unfinished
deriving DecidableEq

/-- A run that may stop early, and then keeps what was done before. -/
abbrev Run := EStateM Stop Machine

namespace Run

def value (e : Expr) : Run Value := fun m =>
  match e.eval m.vars with
  | .ok v => .ok v m
  | .error err => .error (.failed err) m

def assign (name : String) (v : Value) : Run Unit := fun m =>
  .ok () { m with vars := m.vars.set name v }

def printLine (limit : Nat) (v : Value) : Run Unit := fun m =>
  match m.output.write limit (v.text ++ "\n") with
  | (some (.ok ()), output) => .ok () { m with output }
  | (some (.error fault), output) => .error (.failed (.output fault)) { m with output }
  | (none, output) => .error .unfinished { m with output }

def flush : Run Unit := fun m =>
  match m.output.flush with
  | .ok () => .ok () m
  | .error fault => .error (.failed (.output fault)) m

/-- One round after the other, as long as the number of the round is at most the count. The number
goes up in 64 bits and is compared as a value. -/
def loop (count : Value) (body : Run Unit) : (limit : Nat) → (number : UInt64) → Run Unit
  | 0, number => fun m => if number.toFloat ≤ count then .error .unfinished m else .ok () m
  | limit + 1, number => fun m =>
    if number.toFloat ≤ count then
      match body m with
      | .ok () m => loop count body limit (number + 1) m
      | .error stop m => .error stop m
    else .ok () m

end Run

mutual
/-- A condition gives its value and a loop its count; other statements give none. The count is
worked out once, before the first round. -/
def Statement.run (limit : Nat) : Statement → Run (Option Value)
  | .assign target e _ => do
    let v ← Run.value e
    Run.assign target.value v
    return none
  | .print e _ => do
    let v ← Run.value e
    Run.printLine limit v
    return none
  | .branch condition ⟨body, _⟩ none _ => do
    let v ← Run.value condition
    if v.isTrue then runAll limit body
    return some v
  | .branch condition ⟨body, _⟩ (some ⟨otherwise, _⟩) _ => do
    let v ← Run.value condition
    if v.isTrue then runAll limit body else runAll limit otherwise
    return some v
  | .loop count ⟨body, _⟩ _ => do
    let v ← Run.value count
    Run.loop v (runAll limit body) limit 1
    return some v

def runAll (limit : Nat) : List Statement → Run Unit
  | [] => return
  | s :: rest => do
    let _ ← s.run limit
    runAll limit rest
end

def Program.run (limit : Nat) (p : Program) : Run Unit := do
  runAll limit p.statements
  Run.flush

end CatLang
