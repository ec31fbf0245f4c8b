import Mathlib
import RowAsm.Literal
import RowAsm.Text.Case

/-!
# What does not depend on letter case

Only the 26 capital letters change when a text is put in lower case, so a function of characters
that treats each of them like its small letter treats every character like its lower-case form
(`apply_toLower`). Digits are such functions, hence numerals and literals (`value?_of_same`); and a
text without letters agrees up to case with itself only (`same_iff_eq`).
-/

namespace RowAsm
namespace Text

/-! ### Characters -/

/-- The capital letters. -/
def capitals : List Char :=
  ['A', 'B', 'C', 'D', 'E', 'F', 'G', 'H', 'I', 'J', 'K', 'L', 'M', 'N', 'O', 'P', 'Q', 'R', 'S',
    'T', 'U', 'V', 'W', 'X', 'Y', 'Z']

theorem mem_capitals {c : Char} (h : c.toLower ≠ c) : c ∈ capitals := by
  unfold Char.toLower at h
  split_ifs at h with hc
  · have hlo : 65 ≤ c.toNat := hc.1
    have hhi : c.toNat ≤ 90 := hc.2
    rw [← Char.ofNat_toNat c]
    generalize c.toNat = n at hlo hhi
    interval_cases n <;> decide
  · exact absurd rfl h

/-- What treats every capital letter like its small letter does not depend on case. -/
theorem apply_toLower {β : Type} (f : Char → β)
    (h : capitals.map (fun c => f c.toLower) = capitals.map f) (c : Char) : f c.toLower = f c := by
  by_cases hc : c.toLower = c
  · rw [hc]
  · exact List.map_inj_left.1 h c (mem_capitals hc)

/-- A character that is no letter is the lower-case form of itself and of nothing else. -/
theorem toLower_eq_iff {d : Char} (hd : d.isAlpha = false) (c : Char) : c.toLower = d ↔ c = d := by
  have halpha : c.toLower.isAlpha = c.isAlpha := apply_toLower Char.isAlpha (by decide) c
  by_cases hc : c.toLower = c
  · rw [hc]
  · -- a capital letter is a letter, and so is its small letter
    have hcap : c.isAlpha = true :=
      List.all_eq_true.1 (show capitals.all Char.isAlpha = true by decide) c (mem_capitals hc)
    constructor
    · rintro rfl
      rw [halpha, hcap] at hd
      cases hd
    · rintro rfl
      rw [hcap] at hd
      cases hd

/-! ### Texts -/

theorem map_toLower_eq_iff {ds : List Char} (hds : ds.all (fun d => !d.isAlpha) = true)
    (cs : List Char) : cs.map Char.toLower = ds ↔ cs = ds := by
  induction cs generalizing ds with
  | nil => simp
  | cons c cs ih =>
    cases ds with
    | nil => simp
    | cons d ds =>
      rw [List.all_cons, Bool.and_eq_true, Bool.not_eq_true'] at hds
      rw [List.map_cons, List.cons.injEq, List.cons.injEq, toLower_eq_iff hds.1, ih hds.2]

/-- A text without letters agrees up to case with itself only. -/
theorem same_iff_eq {s t : String} (ht : t.toList.all (fun d => !d.isAlpha) = true) :
    same s t = true ↔ s = t := by
  have hself : t.toList.map Char.toLower = t.toList := (map_toLower_eq_iff ht _).2 rfl
  rw [same_iff, ← String.toList_inj, toList_lower, toList_lower, hself, map_toLower_eq_iff ht,
    String.toList_inj]

theorem same_comm {s t : String} : same s t = true ↔ same t s = true := by
  rw [same_iff, same_iff]
  exact eq_comm

theorem same_trans {s t u : String} (h : same s t = true) (h' : same t u = true) :
    same s u = true :=
  same_iff.2 ((same_iff.1 h).trans (same_iff.1 h'))

/-! ### Numerals -/

theorem digit_toLower (radix : Nat) (c : Char) : digit radix c.toLower = digit radix c := by
  rw [digit, digit, apply_toLower hexValue (by decide)]

theorem numeralFrom_map_toLower (radix n : Nat) (cs : List Char) :
    numeralFrom radix n (cs.map Char.toLower) = numeralFrom radix n cs := by
  induction cs generalizing n with
  | nil => rfl
  | cons c cs ih => simp only [List.map_cons, numeralFrom, digit_toLower, ih]

theorem numeral_map_toLower (radix : Nat) (cs : List Char) :
    numeral radix (cs.map Char.toLower) = numeral radix cs := by
  cases cs with
  | nil => rfl
  | cons c cs => exact numeralFrom_map_toLower radix 0 (c :: cs)

end Text

namespace Literal

open Text

/-- The radix that a letter after the digit zero announces. -/
def radix? (c : Char) : Option Nat :=
  if c = 'x' ∨ c = 'X' then some 16
  else if c = 'b' ∨ c = 'B' then some 2
  else if c = 'o' ∨ c = 'O' then some 8
  else none

theorem split_zero (c : Char) (cs : List Char) :
    split ('0' :: c :: cs) =
      ((radix? c).map fun r => (r, cs)).getD (10, '0' :: c :: cs) := by
  unfold split radix?
  split <;> simp_all

theorem split_of_ne {c : Char} (h : c ≠ '0') (cs : List Char) :
    split (c :: cs) = (10, c :: cs) := by
  unfold split
  split <;> simp_all

/-- The radix does not depend on case, and the digits are those in lower case. -/
theorem split_map_toLower (cs : List Char) :
    split (cs.map Char.toLower) = ((split cs).1, (split cs).2.map Char.toLower) := by
  rcases cs with _ | ⟨c, _ | ⟨d, cs⟩⟩
  · rfl
  · by_cases hc : c = '0'
    · subst hc
      rfl
    · have hc' : c.toLower ≠ '0' := fun h => hc ((toLower_eq_iff rfl c).1 h)
      rw [split_of_ne hc, List.map_cons, split_of_ne hc', List.map_nil]
  · by_cases hc : c = '0'
    · subst hc
      have hd : radix? d.toLower = radix? d := apply_toLower radix? (by decide) d
      have hzero : Char.toLower '0' = '0' := rfl
      rw [List.map_cons, List.map_cons, hzero, split_zero, split_zero, hd]
      cases radix? d <;> rfl
    · have hc' : c.toLower ≠ '0' := fun h => hc ((toLower_eq_iff rfl c).1 h)
      rw [split_of_ne hc, List.map_cons, split_of_ne hc', List.map_cons]

theorem value?_lower (s : String) : value? (lower s) = value? s := by
  simp only [value?, toList_lower, split_map_toLower, numeral_map_toLower]

/-- **The value of a literal does not depend on case.** -/
theorem value?_of_same {s t : String} (h : same s t = true) : value? s = value? t := by
  rw [← value?_lower s, same_iff.1 h, value?_lower]

end Literal
end RowAsm
