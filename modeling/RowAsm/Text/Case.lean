/-!
# Letter case

Mnemonics, register names, keywords and fixed operands are compared without regard to the case of
their ASCII letters; every other character, accented letters included, stands for itself.

* `Text.lower s` puts the ASCII letters of `s` in lower case;
* `Text.same s t` says that `s` and `t` agree up to ASCII case;
* `Text.capital s` puts the first letter of `s` in upper case.
-/

namespace RowAsm
namespace Text

/-- The text with its ASCII letters in lower case. -/
def lower (s : String) : String := String.ofList (s.toList.map Char.toLower)

@[simp] theorem toList_lower (s : String) : (lower s).toList = s.toList.map Char.toLower :=
  String.toList_ofList

/-- Agreement up to the case of ASCII letters. -/
def same (s t : String) : Bool := lower s == lower t

theorem same_iff {s t : String} : same s t = true ↔ lower s = lower t := beq_iff_eq

@[simp] theorem same_self (s : String) : same s s = true := same_iff.2 rfl

/-- The text with its first letter in upper case. -/
def capital (s : String) : String :=
  match s.toList with
  | [] => s
  | c :: cs => String.ofList (c.toUpper :: cs)

end Text
end RowAsm
