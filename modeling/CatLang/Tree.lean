import CatLang.Token

/-! Programs as trees. Every node keeps the stretch of source it was read from. -/
namespace CatLang

inductive UnaryOp where
  | negate
  | absolute
deriving DecidableEq

inductive BinaryOp where
  | add
  | subtract
  | multiply
  | divide
  | modulo
  | power
  | equal
  | notEqual
  | less
  | lessEqual
  | greater
  | greaterEqual
deriving DecidableEq

def UnaryOp.token : UnaryOp → Token
  | negate => .minus
  | absolute => .tilde

namespace BinaryOp

def token : BinaryOp → Token
  | add => .plus
  | subtract => .minus
  | multiply => .star
  | divide => .slash
  | modulo => .percent
  | power => .power
  | equal => .equal
  | notEqual => .notEqual
  | less => .less
  | lessEqual => .lessEqual
  | greater => .greater
  | greaterEqual => .greaterEqual

def ofToken? : Token → Option BinaryOp
  | .plus => some add
  | .minus => some subtract
  | .star => some multiply
  | .slash => some divide
  | .percent => some modulo
  | .power => some power
  | .equal => some equal
  | .notEqual => some notEqual
  | .less => some less
  | .lessEqual => some lessEqual
  | .greater => some greater
  | .greaterEqual => some greaterEqual
  | _ => none

theorem ofToken?_eq_some_iff {t : Token} {op : BinaryOp} : ofToken? t = some op ↔ t = op.token := by
  constructor
  · intro h
    cases t <;> simp [ofToken?] at h <;> subst h <;> rfl
  · rintro rfl
    cases op <;> rfl

end BinaryOp

/-- A name where it stands, as the target of an assignment. -/
abbrev Name := Located String

inductive Expr where
  | name (text : String) (span : Span)
  | number (raw : String) (span : Span)
  | unary (op : UnaryOp) (operand : Expr) (span : Span)
  | binary (left : Expr) (op : BinaryOp) (right : Expr) (span : Span)
  | group (inner : Expr) (span : Span)
deriving DecidableEq

namespace Expr

def span : Expr → Span
  | name _ span => span
  | number _ span => span
  | unary _ _ span => span
  | binary _ _ _ span => span
  | group _ span => span

def isConstant : Expr → Bool
  | name _ _ => false
  | number _ _ => true
  | unary _ operand _ => operand.isConstant
  | binary left _ right _ => left.isConstant && right.isConstant
  | group inner _ => inner.isConstant

end Expr

mutual
inductive Statement where
  | assign (target : Name) (value : Expr) (span : Span)
  | print (value : Expr) (span : Span)
  | branch (condition : Expr) (body : Block) (otherwise : Option Block) (span : Span)
  | loop (count : Expr) (body : Block) (span : Span)

/-- One or more statements under a condition or a count. -/
structure Block where
  statements : List Statement
  span : Span
end

def Statement.span : Statement → Span
  | assign _ _ span => span
  | print _ span => span
  | branch _ _ _ span => span
  | loop _ _ span => span

structure Program where
  statements : List Statement
  span : Span

end CatLang
