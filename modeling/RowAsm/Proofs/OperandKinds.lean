import RowAsm.Proofs.Compile

/-!
# The operand kinds of signatures

`Operand.kinds` lists the kinds that the fields of signatures name. What holds of each of them by
evaluation holds of the operands of every template (`Row.mem_kinds_of_compile`).

A field is classified in lower case, but the fields to be skipped are looked up as they are written.
That makes a difference for one field only: every other entry of the list names no kind anyway
(`Operand.ofField?_eq`). So classification depends on letter case for the variants of `rel16`
alone, of which the one in lower case is skipped and the others are branch offsets of 16 bits
(`Row.classify_up_to_case`).
-/

namespace RowAsm
namespace Operand

/-! ### All kinds -/

/-- The kinds that fields name. -/
def kinds : List Operand :=
  [8, 16, 32, 64].map immediate ++ [8, 16, 32, 64].map relative ++
    fixedWords.map (fun word => fixed (String.ofList word)) ++ [0, 8, 16, 32, 64].map register ++
    [8, 16, 32, 64].map place ++ [memory]

theorem mem_kinds_of_isWidth {n : Nat} (h : IsWidth n) :
    .immediate n ∈ kinds ∧ .relative n ∈ kinds ∧ .register n ∈ kinds ∧ .place n ∈ kinds := by
  rcases h with rfl | rfl | rfl | rfl <;> simp [kinds]

theorem mem_kinds_of_ofLower? {word : List Char} {o : Operand} (h : ofLower? word = some o) :
    o ∈ kinds := by
  unfold ofLower? at h
  split at h
  · obtain ⟨n, hn, rfl⟩ := Option.map_eq_some_iff.1 h
    exact (mem_kinds_of_isWidth (isWidth_of_width? hn)).1
  · obtain ⟨n, hn, rfl⟩ := Option.map_eq_some_iff.1 h
    exact (mem_kinds_of_isWidth (isWidth_of_width? hn)).2.1
  · split_ifs at h with hfixed
    · cases h
      have hmem := List.mem_map_of_mem (f := fun word => Operand.fixed (String.ofList word))
        (List.contains_iff_mem.1 hfixed)
      simp only [kinds, List.mem_append, hmem, true_or, or_true]
    · split at h
      · obtain ⟨n, hn, rfl⟩ := Option.map_eq_some_iff.1 h
        exact (mem_kinds_of_isWidth (isWidth_of_width? hn)).2.2.2
      · cases h
        simp [kinds]
      · obtain ⟨n, hn, rfl⟩ := Option.map_eq_some_iff.1 h
        exact (mem_kinds_of_isWidth (isWidth_of_width? hn)).2.2.1
      · cases h
        simp [kinds]
      · cases h

theorem mem_kinds_of_ofField? {field : List Char} {o : Operand} (h : ofField? field = some o) :
    o ∈ kinds := by
  unfold ofField? at h
  split_ifs at h
  exact mem_kinds_of_ofLower? h

/-! ### Letter case -/

/-- The one skipped field that names a kind. -/
def shortBranch : List Char := ['r', 'e', 'l', '1', '6']

/-- The other skipped fields name no kind in any case. -/
theorem ofLower?_of_skipped {s : List Char} (hs : s ∈ skipped) (hne : s ≠ shortBranch) :
    ofLower? (s.map Char.toLower) = none := by
  have hall : skipped.all (fun s => s = shortBranch ∨ ofLower? (s.map Char.toLower) = none) =
      true := by
    decide +kernel
  simpa [hne] using List.all_eq_true.1 hall s hs

/-- **One skipped field matters**: without the list the others would be refused as well. -/
theorem ofField?_eq (field : List Char) : ofField? field =
    if field = shortBranch then none else ofLower? (field.map Char.toLower) := by
  unfold ofField?
  by_cases hfield : field = shortBranch
  · rw [if_pos hfield, if_pos (by rw [hfield]; decide +kernel)]
  · rw [if_neg hfield]
    split_ifs with hskipped
    · exact (ofLower?_of_skipped (List.contains_iff_mem.1 hskipped) hfield).symm
    · rfl

theorem ofLower?_eq_short_iff {word : List Char} :
    ofLower? word = some (.relative 16) ↔ word = shortBranch := by
  constructor
  · intro h
    unfold ofLower? at h
    split at h
    · obtain ⟨n, -, hn⟩ := Option.map_eq_some_iff.1 h
      cases hn
    · rename_i ds
      obtain ⟨n, hn, hbits⟩ := Option.map_eq_some_iff.1 h
      cases hbits
      unfold width? at hn
      split at hn <;> cases hn
      rfl
    · split_ifs at h
      · cases h
      · split at h
        · obtain ⟨n, -, hn⟩ := Option.map_eq_some_iff.1 h
          cases hn
        · cases h
        · obtain ⟨n, -, hn⟩ := Option.map_eq_some_iff.1 h
          cases hn
        · cases h
        · cases h
  · rintro rfl
    rfl

/-- Variants of a field in letter case name the same kind, unless one of them and not the other is
`rel16`. -/
theorem ofField?_eq_iff_of_lower_eq {f g : List Char}
    (h : f.map Char.toLower = g.map Char.toLower) :
    ofField? f = ofField? g ↔ (f = shortBranch ↔ g = shortBranch) := by
  have hlower : shortBranch.map Char.toLower = shortBranch := by decide
  have hshort : ofLower? shortBranch = some (.relative 16) := rfl
  rw [ofField?_eq, ofField?_eq, h]
  by_cases hf : f = shortBranch <;> by_cases hg : g = shortBranch
  · simp [hf, hg]
  · have hother : g.map Char.toLower = shortBranch := by rw [← h, hf, hlower]
    simp [hf, hg, hother, hshort]
  · have hother : g.map Char.toLower = shortBranch := by rw [hg, hlower]
    simp [hf, hg, hlower, hshort]
  · simp [hf, hg]

end Operand

/-! ### Rows -/

namespace Row

theorem exists_field_of_operands {fs : List (List Char)} {ops : List Operand}
    (h : operands fs = .ok ops) {o : Operand} (ho : o ∈ ops) :
    ∃ f ∈ fs, Operand.ofField? f = some o := by
  induction fs generalizing ops with
  | nil =>
    cases h
    cases ho
  | cons f fs ih =>
    unfold operands at h
    split at h
    · cases h
    · rename_i p hp
      split at h
      · cases h
      · rename_i ps hps
        cases h
        rcases List.mem_cons.1 ho with rfl | ho
        · exact ⟨f, by simp, hp⟩
        · obtain ⟨g, hg, hgo⟩ := ih hps ho
          exact ⟨g, by simp [hg], hgo⟩

/-- An operand of a template is named by a field of the signature. -/
theorem exists_field_of_compile {row : Row} {t : Template} (h : row.compile = .ok t) {o : Operand}
    (ho : o ∈ t.operands) : ∃ f ∈ fields row.signature, Operand.ofField? f = some o := by
  obtain ⟨rest, hhead, hops, -⟩ := compile_cases h
  obtain ⟨-, hrest, -⟩ := headed_cases hhead
  obtain ⟨f, hf, hfo⟩ := exists_field_of_operands hops ho
  exact ⟨f, hrest hf, hfo⟩

theorem mem_kinds_of_compile {row : Row} {t : Template} (h : row.compile = .ok t) {o : Operand}
    (ho : o ∈ t.operands) : o ∈ Operand.kinds := by
  obtain ⟨f, -, hf⟩ := exists_field_of_compile h ho
  exact Operand.mem_kinds_of_ofField? hf

open Operand in
/-- **Classification and letter case.** Two variants of a field in the case of ASCII letters name
the same kind or both name none, unless one of them and not the other is `rel16` as it stands in the
list of skipped fields. A variant of any other skipped field is refused. And a row gives a template
with a branch offset of 16 bits only if a field of its signature is a variant of `rel16` other than
that. -/
theorem classify_up_to_case (f g : List Char) (row : Row) :
    (f.map Char.toLower = g.map Char.toLower →
      (ofField? f = ofField? g ↔ (f = shortBranch ↔ g = shortBranch)) ∧
        (f ∈ skipped → f ≠ shortBranch → ofField? g = none)) ∧
    ∀ t, row.compile = .ok t → .relative 16 ∈ t.operands →
      ∃ f ∈ fields row.signature, f.map Char.toLower = shortBranch ∧ f ≠ shortBranch := by
  refine ⟨fun h => ⟨ofField?_eq_iff_of_lower_eq h, ?_⟩, ?_⟩
  · intro hskipped hne
    rw [ofField?_eq, ← h, ofLower?_of_skipped hskipped hne, ite_self]
  · intro t ht hmem
    obtain ⟨f, hf, hshort⟩ := exists_field_of_compile ht hmem
    rw [ofField?_eq] at hshort
    split_ifs at hshort with hne
    exact ⟨f, hf, ofLower?_eq_short_iff.1 hshort, hne⟩

/-- The variants `R/M32` and `r/m32` are one kind, `SREG` is refused like `Sreg`, and a template
with a branch offset of 16 bits has it from `REL16`. -/
theorem classify_up_to_case_jmp :
    let row : Row := ⟨"JMP REL16", "E9 cw"⟩
    let t : Template := ⟨"jmp", [.relative 16], [.byte 0xE9, .relative 16], false⟩
    Operand.ofField? "R/M32".toList = Operand.ofField? "r/m32".toList ∧
      Operand.ofField? "SREG".toList = none ∧
      row.compile = .ok t ∧ .relative 16 ∈ t.operands ∧
        ∃ f ∈ fields row.signature, f.map Char.toLower = Operand.shortBranch ∧
          f ≠ Operand.shortBranch := by
  intro row t
  have hrow : row.compile = .ok t := by decide +kernel
  obtain ⟨hcase, hshort⟩ := classify_up_to_case "R/M32".toList "r/m32".toList row
  obtain ⟨hskip, -⟩ := classify_up_to_case "Sreg".toList "SREG".toList row
  have hkind := (hcase (by decide)).1.2 (by decide)
  have hrefused := (hskip (by decide)).2 (by decide +kernel) (by decide)
  exact ⟨hkind, hrefused, hrow, by simp [t], hshort t hrow (by simp [t])⟩

/-- **The list of skipped fields is evaded by letter case**: a branch offset of 16 bits is refused
as `rel16` and accepted as `REL16`. -/
theorem compile_short_branch :
    (⟨"JMP rel16", "E9 cw"⟩ : Row).compile = .error (.operand "rel16") ∧
      (⟨"JMP REL16", "E9 cw"⟩ : Row).compile =
        .ok ⟨"jmp", [.relative 16], [.byte 0xE9, .relative 16], false⟩ := by
  constructor <;> decide +kernel

end Row
end RowAsm
