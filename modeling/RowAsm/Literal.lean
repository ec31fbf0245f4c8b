import RowAsm.Text.Digit
import RowAsm.Word

/-!
# Number literals

A literal is a run of decimal digits, or `0x`, `0b` or `0o` (the letter in either case) and a run of
digits of that radix. Its value has at most 64 bits; a sign is never part of a literal.
-/

namespace RowAsm
namespace Literal

/-- The radix that the first characters announce, and the digits after them. -/
def split : List Char → Nat × List Char
  | '0' :: 'x' :: ds => (16, ds)
  | '0' :: 'X' :: ds => (16, ds)
  | '0' :: 'b' :: ds => (2, ds)
  | '0' :: 'B' :: ds => (2, ds)
  | '0' :: 'o' :: ds => (8, ds)
  | '0' :: 'O' :: ds => (8, ds)
  | ds => (10, ds)

/-- The value of a literal, if `s` is one. -/
def value? (s : String) : Option Nat :=
  let (radix, digits) := split s.toList
  (Text.numeral radix digits).filter (· < Word.count 64)

theorem lt_of_value? {s : String} {n : Nat} (h : value? s = some n) : n < Word.count 64 := by
  simp only [value?] at h
  exact of_decide_eq_true (Option.filter_eq_some_iff.1 h).2

end Literal
end RowAsm
