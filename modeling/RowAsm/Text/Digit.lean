/-!
# Digits and numerals

* `Text.digit radix c` is the value of a digit of either case in a radix up to sixteen;
* `Text.numeral radix cs` is the value of a non-empty run of digits;
* `Text.hexByte b` writes a byte as two upper-case digits.
-/

namespace RowAsm
namespace Text

/-- The value of a hexadecimal digit of either case. -/
def hexValue (c : Char) : Option Nat :=
  if '0' ≤ c && c ≤ '9' then some (c.toNat - '0'.toNat)
  else if 'a' ≤ c && c ≤ 'f' then some (c.toNat - 'a'.toNat + 10)
  else if 'A' ≤ c && c ≤ 'F' then some (c.toNat - 'A'.toNat + 10)
  else none

/-- The value of a digit in a radix of at most sixteen. -/
def digit (radix : Nat) (c : Char) : Option Nat := (hexValue c).filter (· < radix)

/-- The value of the digits `cs` written after digits of value `n`. -/
def numeralFrom (radix : Nat) : Nat → List Char → Option Nat
  | n, [] => some n
  | n, c :: cs =>
    match digit radix c with
    | some d => numeralFrom radix (n * radix + d) cs
    | none => none

/-- The value of a non-empty run of digits. -/
def numeral (radix : Nat) : List Char → Option Nat
  | [] => none
  | cs => numeralFrom radix 0 cs

/-- The upper-case digit of a value below sixteen. -/
def upperDigit (n : Nat) : Char := (Nat.digitChar n).toUpper

/-- A byte as two upper-case hexadecimal digits. -/
def hexByte (b : UInt8) : String :=
  String.ofList [upperDigit (b.toNat / 16), upperDigit (b.toNat % 16)]

end Text
end RowAsm
