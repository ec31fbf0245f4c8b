/-!
# Finding and replacing

* `Text.replace pat new s` replaces the occurrences of `pat` from left to right; an occurrence that
  overlaps an earlier one stays;
* `Text.contains pat s` says that `pat` occurs in `s`;
* `Text.cut pat s` divides `s` around the first occurrence of `pat`.
-/

namespace RowAsm
namespace Text

/-- Replacement in a list of which the first `skip` characters belong to an occurrence already
replaced. -/
def replaceFrom (pat new : List Char) : Nat → List Char → List Char
  | _, [] => []
  | skip + 1, _ :: cs => replaceFrom pat new skip cs
  | 0, c :: cs =>
    if pat.isPrefixOf (c :: cs) then new ++ replaceFrom pat new (pat.length - 1) cs
    else c :: replaceFrom pat new 0 cs

/-- Every occurrence of the non-empty `pat`, taken from the left, becomes `new`. -/
def replace (pat new : String) (cs : List Char) : List Char :=
  replaceFrom pat.toList new.toList 0 cs

/-- Whether `pat` occurs. -/
def contains (pat : List Char) : List Char → Bool
  | [] => pat.isEmpty
  | c :: cs => pat.isPrefixOf (c :: cs) || contains pat cs

/-- What stands before and after the first occurrence of `pat`. -/
def cut (pat : List Char) : List Char → Option (List Char × List Char)
  | [] => if pat.isEmpty then some ([], []) else none
  | c :: cs =>
    if pat.isPrefixOf (c :: cs) then some ([], (c :: cs).drop pat.length)
    else (cut pat cs).map fun (before, after) => (c :: before, after)

/-- The two parts and the pattern between them make up the list. -/
theorem append_of_cut {pat cs before after : List Char} (h : cut pat cs = some (before, after)) :
    before ++ pat ++ after = cs := by
  induction cs generalizing before after with
  | nil =>
    simp only [cut] at h
    split at h
    · simp_all
    · simp at h
  | cons c cs ih =>
    rw [cut] at h
    split at h
    · next hp =>
      obtain ⟨t, ht⟩ := List.isPrefixOf_iff_prefix.1 hp
      simp only [Option.some.injEq, Prod.mk.injEq] at h
      obtain ⟨rfl, rfl⟩ := h
      rw [← ht]
      simp
    · obtain ⟨⟨b, a⟩, hb, he⟩ := Option.map_eq_some_iff.1 h
      simp only [Prod.mk.injEq] at he
      obtain ⟨rfl, rfl⟩ := he
      simp [← ih hb]

end Text
end RowAsm
