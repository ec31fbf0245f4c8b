import RowAsm.Proofs.Spelling

/-!
# The grammar of literals

`Literal.Denotes cs n` says which texts are literals and which numbers they denote: a run of decimal
digits, or `0x`, `0b` or `0o`, the letter in either case, and a run of digits of that radix. A digit
is the character at the place of its value in the alphabet of digits, of either case
(`Text.IsDigit`), and a run of digits denotes the sum of the digits times the powers of the radix
(`Text.Denotes`).

Reading accepts the literals whose number has 64 bits and nothing else (`Literal.value?_exact`). It
makes no difference to read the digits as libraries read unsigned numbers, with an optional plus
sign before them (`Text.unsigned?`), as long as no sign can stand where the digits start
(`Literal.guarded?`).
-/

namespace RowAsm

namespace Text

/-! ### Digits -/

/-- The digits in the order of their values, with small letters. -/
def smallDigits : List Char :=
  ['0', '1', '2', '3', '4', '5', '6', '7', '8', '9', 'a', 'b', 'c', 'd', 'e', 'f']

/-- The digits in the order of their values, with capital letters. -/
def capitalDigits : List Char :=
  ['0', '1', '2', '3', '4', '5', '6', '7', '8', '9', 'A', 'B', 'C', 'D', 'E', 'F']

/-- The character is the digit of value `d` in a radix of at most sixteen. -/
def IsDigit (radix : Nat) (c : Char) (d : Nat) : Prop :=
  d < radix ∧ (smallDigits[d]? = some c ∨ capitalDigits[d]? = some c)

/-- The characters are digits, at least one, and denote the number `n`. -/
def Denotes (radix : Nat) (cs : List Char) (n : Nat) : Prop :=
  cs ≠ [] ∧ ∃ ds, List.Forall₂ (IsDigit radix) cs ds ∧ n = Nat.ofDigits radix ds.reverse

theorem toNat_lt_of_hexValue {c : Char} {d : Nat} (h : hexValue c = some d) : c.toNat < 103 := by
  unfold hexValue at h
  simp only [Bool.and_eq_true, decide_eq_true_eq] at h
  split_ifs at h with hdigit hsmall hcapital
  · exact Nat.lt_of_le_of_lt hdigit.2 (by decide)
  · exact Nat.lt_of_le_of_lt hsmall.2 (by decide)
  · exact Nat.lt_of_le_of_lt hcapital.2 (by decide)

theorem hexValue_eq_some_iff {c : Char} {d : Nat} :
    hexValue c = some d ↔ smallDigits[d]? = some c ∨ capitalDigits[d]? = some c := by
  constructor
  · intro h
    have hchars : ∀ n < 103, ∀ e ∈ hexValue (Char.ofNat n),
        smallDigits[e]? = some (Char.ofNat n) ∨ capitalDigits[e]? = some (Char.ofNat n) := by
      decide
    have hc := hchars c.toNat (toNat_lt_of_hexValue h)
    rw [Char.ofNat_toNat] at hc
    exact hc d h
  · have hsmall : ∀ i : Fin 16, hexValue smallDigits[i] = some i.val := by decide
    have hcapital : ∀ i : Fin 16, hexValue capitalDigits[i] = some i.val := by decide
    rintro (h | h)
    · obtain ⟨hd, rfl⟩ := List.getElem?_eq_some_iff.1 h
      exact hsmall ⟨d, hd⟩
    · obtain ⟨hd, rfl⟩ := List.getElem?_eq_some_iff.1 h
      exact hcapital ⟨d, hd⟩

theorem digit_eq_some_iff {radix d : Nat} {c : Char} :
    digit radix c = some d ↔ IsDigit radix c d := by
  rw [digit, Option.filter_eq_some_iff, hexValue_eq_some_iff, decide_eq_true_eq, IsDigit, and_comm]

/-! ### Runs of digits -/

theorem numeralFrom_eq_some_iff {radix m n : Nat} {cs : List Char} :
    numeralFrom radix m cs = some n ↔ ∃ ds, List.Forall₂ (IsDigit radix) cs ds ∧
      n = m * radix ^ ds.length + Nat.ofDigits radix ds.reverse := by
  induction cs generalizing m with
  | nil => simp [numeralFrom, eq_comm]
  | cons c cs ih =>
    have hvalue : ∀ (d : Nat) (ds : List Nat),
        (m * radix + d) * radix ^ ds.length + Nat.ofDigits radix ds.reverse =
          m * radix ^ (d :: ds).length + Nat.ofDigits radix (d :: ds).reverse := by
      intro d ds
      rw [Nat.ofDigits_reverse_cons, List.length_cons, pow_succ]
      ring
    rw [numeralFrom]
    constructor
    · intro h
      split at h
      · rename_i d hd
        obtain ⟨ds, hds, rfl⟩ := ih.1 h
        exact ⟨d :: ds, .cons (digit_eq_some_iff.1 hd) hds, hvalue d ds⟩
      · cases h
    · rintro ⟨ds, hds, rfl⟩
      cases hds with
      | @cons _ d _ ds hd hds =>
        rw [digit_eq_some_iff.2 hd]
        exact ih.2 ⟨ds, hds, (hvalue d ds).symm⟩

/-- **Reading a run of digits gives the number that it denotes.** -/
theorem numeral_eq_some_iff {radix n : Nat} {cs : List Char} :
    numeral radix cs = some n ↔ Denotes radix cs n := by
  cases cs with
  | nil => simp [numeral, Denotes]
  | cons c cs => simp [numeral, Denotes, numeralFrom_eq_some_iff]

/-- A sign is no digit, in whatever radix. -/
theorem numeral_plus (radix : Nat) (cs : List Char) : numeral radix ('+' :: cs) = none := rfl

/-- Reads an unsigned number of 64 bits, before which a plus sign may stand. -/
def unsigned? (radix : Nat) (cs : List Char) : Option Nat :=
  (numeral radix (if cs.head? = some '+' then cs.tail else cs)).filter (· < Word.count 64)

end Text

/-! ### Literals -/

namespace Literal

/-- The characters are a literal for the number `n`. -/
inductive Denotes : List Char → Nat → Prop
  | decimal {cs : List Char} {n : Nat} (h : Text.Denotes 10 cs n) : Denotes cs n
  | hexadecimal {x : Char} {cs : List Char} {n : Nat} (hx : x = 'x' ∨ x = 'X')
      (h : Text.Denotes 16 cs n) : Denotes ('0' :: x :: cs) n
  | binary {x : Char} {cs : List Char} {n : Nat} (hx : x = 'b' ∨ x = 'B')
      (h : Text.Denotes 2 cs n) : Denotes ('0' :: x :: cs) n
  | octal {x : Char} {cs : List Char} {n : Nat} (hx : x = 'o' ∨ x = 'O')
      (h : Text.Denotes 8 cs n) : Denotes ('0' :: x :: cs) n

/-- A letter is no decimal digit, so a literal that announces a radix is no decimal one. -/
theorem not_denotes_ten {x : Char} {cs : List Char} {n : Nat} (hx : Text.digit 10 x = none) :
    ¬ Text.Denotes 10 ('0' :: x :: cs) n := by
  intro h
  obtain ⟨d, hd⟩ := (Text.digit_of_numeral (Text.numeral_eq_some_iff.2 h)).2 x (by simp)
  rw [hx] at hd
  cases hd

/-- A literal denotes the number of its digits in its radix. -/
theorem denotes_iff {cs : List Char} {n : Nat} :
    Denotes cs n ↔ Text.Denotes (split cs).1 (split cs).2 n := by
  constructor
  · intro h
    cases h with
    | decimal h =>
      unfold split
      split
      case h_7 => exact h
      all_goals exact absurd h (not_denotes_ten rfl)
    | hexadecimal hx h | binary hx h | octal hx h => rcases hx with rfl | rfl <;> exact h
  · intro h
    unfold split at h
    split at h
    · exact .hexadecimal (Or.inl rfl) h
    · exact .hexadecimal (Or.inr rfl) h
    · exact .binary (Or.inl rfl) h
    · exact .binary (Or.inr rfl) h
    · exact .octal (Or.inl rfl) h
    · exact .octal (Or.inr rfl) h
    · exact .decimal h

/-- Reads a literal by a reader that admits a plus sign: the text starts with a digit, and its
digits do not start with a sign. -/
def guarded? (s : String) : Option Nat :=
  let (radix, digits) := split s.toList
  if s.toList.head?.any Char.isDigit && digits.head? != some '+' then Text.unsigned? radix digits
  else none

theorem value?_eq_guarded? (s : String) : value? s = guarded? s := by
  simp only [guarded?, value?, Text.unsigned?]
  by_cases hplus : (split s.toList).2.head? = some '+'
  · -- digits that start with a sign are no digits
    obtain ⟨cs, hcs⟩ := List.head?_eq_some_iff.1 hplus
    rw [hcs, Text.numeral_plus]
    simp
  · by_cases hfirst : s.toList.head?.any Char.isDigit = true
    · simp [hplus, hfirst]
    · -- a literal starts with a digit, whatever its radix
      have hnone : value? s = none := by
        rw [Option.eq_none_iff_forall_ne_some]
        intro n hn
        obtain ⟨c, cs, hs, hc, -⟩ := isWord_of_value? hn
        simp [hs, hc] at hfirst
      simp only [value?] at hnone
      simp [hnone, hfirst]

/-- **Reading accepts exactly the literals of 64 bits.** A text is read as a number if and only if
it is a literal for that number and the number is less than 2 ^ 64; every other text is refused.
Reading the digits with a reader that admits a plus sign comes to the same, because the text must
start with a digit and the digits after a radix must not start with a sign. -/
theorem value?_exact (s : String) :
    (∀ n, value? s = some n ↔ Denotes s.toList n ∧ n < 2 ^ 64) ∧ value? s = guarded? s := by
  refine ⟨fun n => ?_, value?_eq_guarded? s⟩
  have hcount : Word.count 64 = 2 ^ 64 := rfl
  rw [value?, Option.filter_eq_some_iff, Text.numeral_eq_some_iff, ← denotes_iff, hcount,
    decide_eq_true_eq]

/-- The largest number that a literal denotes, the number after it, and a sign among the digits. -/
example : value? "0XFFFFFFFFFFFFFFFF" = some (2 ^ 64 - 1) ∧ value? "18446744073709551616" = none ∧
    value? "0x+5" = none := by decide +kernel

end Literal
end RowAsm
