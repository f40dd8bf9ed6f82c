/-! How long text is when written as UTF-8. -/
namespace CatLang.Text

def byteLength : List Char → Nat
  | [] => 0
  | c :: rest => c.utf8Size + byteLength rest

end CatLang.Text
