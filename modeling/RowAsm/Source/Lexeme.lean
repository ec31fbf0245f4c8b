/-!
# Lexemes

The first cut of a text: comments, words and single characters. Nothing is dropped and nothing is
refused here, so the lexemes of a text make up the text (`flatMap_chars_lexemes`).

* a comment runs from `#` up to the next newline, which is not part of it;
* a word is a maximal run of ASCII letters, digits, `_` and `.`;
* every other character stands alone.
-/

namespace RowAsm

/-- A stretch of a text. -/
inductive Lexeme
  | comment (cs : List Char)
  | word (cs : List Char)
  | single (c : Char)
  deriving DecidableEq, Repr

namespace Lexeme

/-- The characters of a lexeme. -/
def chars : Lexeme → List Char
  | .comment cs => cs
  | .word cs => cs
  | .single c => [c]

/-- The characters of words. -/
def isWordChar (c : Char) : Bool := c.isAlphanum || c == '_' || c == '.'

end Lexeme

open Lexeme in
/-- The lexemes of a text, in order. -/
def lexemes : List Char → List Lexeme
  | [] => []
  | c :: cs =>
    if c = '#' then
      .comment (c :: cs.takeWhile (· != '\n')) :: lexemes (cs.dropWhile (· != '\n'))
    else if isWordChar c then
      .word (c :: cs.takeWhile isWordChar) :: lexemes (cs.dropWhile isWordChar)
    else .single c :: lexemes cs
termination_by cs => cs.length
decreasing_by
  all_goals simp only [List.length_cons]
  · exact Nat.lt_succ_of_le (List.dropWhile_sublist _).length_le
  · exact Nat.lt_succ_of_le (List.dropWhile_sublist _).length_le
  · exact Nat.lt_succ_self _

/-- The lexemes of a text make up the text. -/
theorem flatMap_chars_lexemes (cs : List Char) : (lexemes cs).flatMap Lexeme.chars = cs := by
  fun_induction lexemes cs with
  | case1 => rfl
  | case2 cs ih => simp [Lexeme.chars, ih]
  | case3 c cs _ _ ih => simp [Lexeme.chars, ih]
  | case4 c cs _ _ ih => simp [Lexeme.chars, ih]

end RowAsm
