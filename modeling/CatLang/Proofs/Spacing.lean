import CatLang.Proofs.Numerals

/-! Tokens written down with white space between them. White space extends no token, and the lexer
passes over it, so the text lexes to the tokens it was made of (`Token.lex_written`). -/
namespace CatLang

open Numeral (encode)

/-- The text is white space, or empty. -/
def Text.AllBlank (text : String) : Prop := ∀ c ∈ text.toList, isBlank c = true

namespace Token

/-- What a token of a program can be: any but a comment and the end of file, its names and numbers
spelled as the language spells them. -/
def Printable : Token → Prop
  | name text =>
    (∃ c, text.toList.head? = some c ∧ (c.isAlpha ∨ c = '_')) ∧
      (∀ c ∈ text.toList, c.isAlphanum ∨ c = '_') ∧ ∀ n, text.toList ≠ encode n
  | number raw =>
    (∃ a, 1 ≤ a ∧ raw.toList = encode a) ∨
      ∃ a b, 1 ≤ b ∧ raw.toList = encode a ++ '.' :: encode b
  | comment | endOfFile => False
  | _ => True

/-- Tokens one after the other, each behind the text given with it, and some text at the end. -/
def written : List (String × Token) → String → String
  | [], last => last
  | (gap, t) :: rest, last => gap ++ t.literal ++ written rest last

theorem printable_iff_spelled {t : Token} : t.Printable ↔ t.Spelled := by
  cases t with
  | name text => exact isName_iff.symm
  | number raw => exact isNumeral_iff.symm
  | _ => exact Iff.rfl

end Token

namespace Lexes

theorem blanks {gap : List Char} (rest : List Char) (h : ∀ c ∈ gap, Text.isBlank c = true) :
    Lexes (gap ++ rest) [] rest := by
  induction gap with
  | nil => exact .refl rest
  | cons c gap ih =>
    obtain ⟨hc, hgap⟩ := List.forall_mem_cons.1 h
    exact (Lexes.blank (gap ++ rest) hc).trans (ih hgap)

/-- A text that lexes to its end gives its tokens and the end of file. -/
theorem lex_eq {source : String} {ts : List Token} (h : Lexes source.toList ts []) :
    (lex source).map (List.map Located.value) = .ok (ts ++ [.endOfFile]) := by
  obtain ⟨located, place, hts, hresults⟩ := h.results_eq
  rw [lex_eq_ok_iff.2 hresults, ← hts]
  simp [Except.map]

end Lexes

namespace Token
variable {pieces : List (String × Token)} {last : String}

theorem toList_written_cons (gap : String) (t : Token) (rest : List (String × Token))
    (last : String) : (written ((gap, t) :: rest) last).toList =
      gap.toList ++ (t.literal.toList ++ (written rest last).toList) := by
  rw [written, String.toList_append, String.toList_append, List.append_assoc]

/-- Behind a token stands white space or nothing. -/
theorem blank_of_head_written (hgaps : ∀ piece ∈ pieces, Text.AllBlank piece.1)
    (hlast : Text.AllBlank last) (hapart : ∀ piece ∈ pieces, piece.1 ≠ "") :
    ∀ c ∈ (written pieces last).toList.head?, Text.isBlank c = true := by
  intro c hc
  cases pieces with
  | nil => exact hlast c (List.mem_of_head? hc)
  | cons piece rest =>
    obtain ⟨gap, t⟩ := piece
    have hgap := (List.forall_mem_cons.1 hgaps).1
    have hne : gap.toList ≠ [] := fun hnil =>
      (List.forall_mem_cons.1 hapart).1 (String.toList_eq_nil_iff.1 hnil)
    obtain ⟨d, ds, hd⟩ := List.exists_cons_of_ne_nil hne
    rw [toList_written_cons, hd] at hc
    obtain rfl : d = c := Option.some.inj hc
    apply hgap
    rw [hd]
    exact List.mem_cons_self

theorem lexes_written (htokens : ∀ piece ∈ pieces, piece.2.Spelled)
    (hgaps : ∀ piece ∈ pieces, Text.AllBlank piece.1) (hlast : Text.AllBlank last)
    (hapart : ∀ piece ∈ pieces.tail, piece.1 ≠ "") :
    Lexes (written pieces last).toList (pieces.map Prod.snd) [] := by
  induction pieces with
  | nil =>
    have hlexes := Lexes.blanks [] hlast
    rwa [List.append_nil] at hlexes
  | cons piece rest ih =>
    obtain ⟨gap, t⟩ := piece
    obtain ⟨ht, htokens⟩ := List.forall_mem_cons.1 htokens
    obtain ⟨hgap, hgaps⟩ := List.forall_mem_cons.1 hgaps
    -- Only the first gap may be empty, so every gap of the rest keeps its token from this one.
    have hrest := ih htokens hgaps fun piece hpiece => hapart piece (List.mem_of_mem_tail hpiece)
    have hnext := t.apart_of_blank (blank_of_head_written hgaps hlast hapart)
    rw [toList_written_cons]
    exact (Lexes.blanks _ hgap).trans ((Lexes.token ht hnext).trans hrest)

/-- Tokens written down with white space between any two of them, and any white space around them,
lex to the same tokens. -/
theorem lex_written (htokens : ∀ piece ∈ pieces, piece.2.Printable)
    (hgaps : ∀ piece ∈ pieces, Text.AllBlank piece.1) (hlast : Text.AllBlank last)
    (hapart : ∀ piece ∈ pieces.tail, piece.1 ≠ "") :
    (lex (written pieces last)).map (List.map Located.value) =
      .ok (pieces.map Prod.snd ++ [.endOfFile]) := by
  apply Lexes.lex_eq
  apply lexes_written _ hgaps hlast hapart
  intro piece hpiece
  exact printable_iff_spelled.1 (htokens piece hpiece)

/-- Two colons apart are not `::`, and two slashes apart open no comment. The wide space of U+3000
separates like any other, and a word that only begins with a syllable is a name. -/
theorem lex_written_colons :
    let pieces : List (String × Token) := [("", .colon), (" ", .colon), ("\u3000", .number ".mewmew"),
      ("\t", .slash), ("\u0085", .slash), ("\r\n ", .name "mewing"), (" ", .assign)]
    (∀ piece ∈ pieces, piece.2.Printable) ∧
      written pieces "\n" = ": :\u3000.mewmew\t/\u0085/\r\n mewing =\n" ∧
      (lex ": :\u3000.mewmew\t/\u0085/\r\n mewing =\n").map (List.map Located.value) =
        .ok [.colon, .colon, .number ".mewmew", .slash, .slash, .name "mewing", .assign,
          .endOfFile] := by
  intro pieces
  have hname : (Token.name "mewing").Spelled :=
    ⟨⟨'m', rfl, .inl (by decide)⟩, List.all_eq_true.1 (by decide), by decide⟩
  have hnumber : (Token.number ".mewmew").Printable := .inr ⟨0, 2, by decide, by decide⟩
  have htokens : ∀ piece ∈ pieces, piece.2.Printable := by
    simp only [pieces, List.forall_mem_cons, List.not_mem_nil, false_implies, implies_true]
    exact ⟨trivial, trivial, hnumber, trivial, trivial, printable_iff_spelled.2 hname, trivial,
      trivial⟩
  have htext : written pieces "\n" = ": :\u3000.mewmew\t/\u0085/\r\n mewing =\n" := by decide
  refine ⟨htokens, htext, ?_⟩
  rw [← htext]
  apply lex_written htokens
  · have hblank : pieces.all (fun piece => piece.1.toList.all Text.isBlank) = true := by decide
    intro piece hpiece
    exact List.all_eq_true.1 (List.all_eq_true.1 hblank piece hpiece)
  · exact List.all_eq_true.1 (by decide)
  · decide

end Token

end CatLang
