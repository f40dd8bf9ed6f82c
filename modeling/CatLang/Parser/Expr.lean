import CatLang.Parser.Reading
import CatLang.Tree

/-! Reading expressions by precedence. The readers that call one another take a bound on how deep
they may nest; the public ones below take it from the window, where it is never reached. -/
namespace CatLang.Parser

/-- A missing operand is reported together with its operator. -/
def includeOperator (operator : Span) (e : ParseError) : ParseError :=
  if e.cause = .expectedExpression then { e with span := operator.merge e.span } else e

/-- The level that the right operand has to exceed: `**` groups to the right, all else to the left. -/
def rightLevel : BinaryOp → Level
  | .power => .product
  | op => op.token.level

section Within
variable {S : Type} [Reading S]

mutual
def expressionWithin : Nat → Level → ReadOn S Expr
  | 0, _ => tooDeep
  | depth + 1, level => do
    let first ← operandWithin depth
    binariesWithin depth level first

def operandWithin : Nat → ReadOn S Expr
  | 0 => tooDeep
  | depth + 1 => do
    match (← window).current with
    | none => failAtEnd
    | some ⟨.name text, span⟩ =>
      advance
      return .name text span
    | some ⟨.number raw, span⟩ =>
      advance
      return .number raw span
    | some ⟨.leftParen, span⟩ =>
      advance
      let inner ← expressionWithin depth .lowest
      let close ← expectOr .rightParen fun _ => .missingParen
      return .group inner ⟨span.start, close.stop⟩
    | some found =>
      if found.value.isUnaryOperator then unaryWithin depth
      else fail .expectedExpression found.span

/-- An operator before its operand binds looser than `**` and tighter than `*`. -/
def unaryWithin : Nat → ReadOn S Expr
  | 0 => tooDeep
  | depth + 1 => do
    match ← take with
    | some ⟨.minus, span⟩ => unaryOperandWithin depth .negate span
    | some ⟨.tilde, span⟩ => unaryOperandWithin depth .absolute span
    | some ⟨found, span⟩ => fail (.unexpectedToken found ["`-`", "`~`"]) span
    | none => failAtEnd

def unaryOperandWithin : Nat → UnaryOp → Span → ReadOn S Expr
  | 0, _, _ => tooDeep
  | depth + 1, op, span => do
    let operand ← mapError (includeOperator span) (expressionWithin depth .product)
    return .unary op operand ⟨span.start, operand.span.stop⟩

/-- Goes on as long as the operator ahead binds tighter than `level`. -/
def binariesWithin : Nat → Level → Expr → ReadOn S Expr
  | 0, _, _ => tooDeep
  | depth + 1, level, left => do
    if level < (← window).currentLevel then
      let joined ← binaryWithin depth left
      binariesWithin depth level joined
    else return left

def binaryWithin : Nat → Expr → ReadOn S Expr
  | 0, _ => tooDeep
  | depth + 1, left => do
    match (← window).current with
    | none => failAtEnd
    | some found =>
      match BinaryOp.ofToken? found.value with
      | none => fail .expectedOperator found.span
      | some op =>
        advance
        let right ← expressionWithin depth (rightLevel op)
        return .binary left op right ⟨left.span.start, right.span.stop⟩
end

end Within

variable {σ : Type} [TokenSource σ]

/-- The longest expression whose operators bind tighter than `level`. -/
def expression (level : Level) : ReadOn (ParserOn σ) Expr := fun p => expressionWithin p.fuel level p

def unary : ReadOn (ParserOn σ) Expr := fun p => unaryWithin p.fuel p

def binary (left : Expr) : ReadOn (ParserOn σ) Expr := fun p => binaryWithin p.fuel left p

end CatLang.Parser
