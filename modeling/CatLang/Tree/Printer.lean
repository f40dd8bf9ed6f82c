import CatLang.Tree

/-! Programs as text again: one statement a line, blocks in one line, and only the parentheses the
tree holds. -/
namespace CatLang

def Expr.text : Expr → String
  | name text _ => text
  | number raw _ => raw
  | unary op operand _ => op.token.literal ++ operand.text
  | binary left op right _ => left.text ++ " " ++ op.token.literal ++ " " ++ right.text
  | group inner _ => "(" ++ inner.text ++ ")"

mutual
def Statement.text : Statement → String
  | .assign target value _ => target.value ++ " = " ++ value.text
  | .print value _ => "::" ++ value.text
  | .branch condition ⟨body, _⟩ none _ =>
    condition.text ++ " ? " ++ String.intercalate " " (statementTexts body)
  | .branch condition ⟨body, _⟩ (some ⟨otherwise, _⟩) _ =>
    condition.text ++ " ? " ++ String.intercalate " " (statementTexts body) ++ " : "
      ++ String.intercalate " " (statementTexts otherwise)
  | .loop count ⟨body, _⟩ _ =>
    "@" ++ count.text ++ ": " ++ String.intercalate " " (statementTexts body)

/-- Each statement with its closing semicolon. -/
def statementTexts : List Statement → List String
  | [] => []
  | s :: rest => (s.text ++ ";") :: statementTexts rest
end

def Program.text (p : Program) : String :=
  String.intercalate "\n" (statementTexts p.statements)

end CatLang
