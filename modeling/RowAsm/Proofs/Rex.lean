import RowAsm.Proofs.Addressing

/-!
# The REX byte

`Template.rex? t c` is the REX byte of the layout of captured operands, taken apart. Its bits are
the W bit of the program and the fourth bits of the registers, and without a REX byte none of them
is set (`any_rex?`). It is there beside the registers that need it (`isSome_rex?_of_needsRex`), and
not beside those that rule it out (`isSome_rex?_of_isHighByte`).
-/

namespace RowAsm
namespace Template

open Fields

variable {t : Template} {c : Captures}

/-- The fourth bit of the reg field. -/
def rexR (t : Template) (c : Captures) : Bool :=
  t.digit?.isNone && (if t.hasFill then none else c.register).any Register.isExtended

/-- The fourth bit of the r/m field or of the opcode byte. -/
def rexB (t : Template) (c : Captures) : Bool :=
  ((resolve t c).place.any fun p => p.base.isExtended) ||
    (resolve t c).fill.any Register.isExtended

/-- The REX byte of a layout, if it has one. -/
def rex? (t : Template) (c : Captures) : Option Rex :=
  if t.hasRex || (resolve t c).forceRex then
    some ⟨t.program.contains (.rex true), t.rexR c, false, t.rexB c⟩
  else none

theorem resolve_rex (t : Template) (c : Captures) :
    (resolve t c).rex = rexByte (t.program.contains (.rex true)) (t.rexR c) (t.rexB c) := rfl

theorem resolve_forceRex (t : Template) (c : Captures) :
    (resolve t c).forceRex =
      (!t.hasRex && (t.rexR c || t.rexB c || c.registers.any Register.needsRex)) := rfl

theorem resolve_place_of_some {p : Place} (h : c.place = some p) :
    (resolve t c).place = some p := by simp [resolve, h]

theorem resolve_place_of_none (h : c.place = none) : (resolve t c).place =
    if t.digit?.isSome then (if t.hasFill then none else c.register).map .register else none := by
  simp [resolve, h]

theorem contains_rex (h : t.hasRex = false) : t.program.contains (.rex true) = false := by
  by_contra hn
  rw [Bool.not_eq_false, List.contains_iff_mem] at hn
  rw [hasRex, List.any_eq_false] at h
  exact h _ hn rfl

/-- The bits of the REX byte are those that were asked for: without one, none was. -/
theorem any_rex? (t : Template) (c : Captures) :
    (t.rex? c).any Rex.w = t.program.contains (.rex true) ∧ (t.rex? c).any Rex.r = t.rexR c ∧
      (t.rex? c).any Rex.x = false ∧ (t.rex? c).any Rex.b = t.rexB c := by
  unfold rex?
  split_ifs with h
  · simp
  · obtain ⟨hrex, hforce⟩ : t.hasRex = false ∧ (resolve t c).forceRex = false := by simpa using h
    rw [resolve_forceRex, hrex] at hforce
    simp only [Bool.not_false, Bool.true_and, Bool.or_eq_false_iff] at hforce
    exact ⟨(contains_rex hrex).symm, hforce.1.1.symm, rfl, hforce.1.2.symm⟩

theorem isSome_rex? (t : Template) (c : Captures) :
    (t.rex? c).isSome = (t.hasRex || (resolve t c).forceRex) := by
  unfold rex?
  split_ifs with h <;> simp_all

/-- The register in the r/m field is among the captured ones. -/
theorem mem_registers_of_place {p : Place} (h : (resolve t c).place = some p) :
    p.base ∈ c.registers := by
  cases hp : c.place with
  | some q =>
    obtain rfl : q = p := by simpa [resolve_place_of_some hp] using h
    simp [Captures.registers, hp]
  | none =>
    rw [resolve_place_of_none hp] at h
    split_ifs at h
    · cases h
    · obtain ⟨r, hr, rfl⟩ := Option.map_eq_some_iff.1 h
      simp [Captures.registers, hr, Place.base]

theorem mem_registers_of_fill {r : Register} (h : (resolve t c).fill = some r) :
    r ∈ c.registers := by
  simp only [resolve] at h
  split_ifs at h
  simp [Captures.registers, h]

/-- A fourth bit belongs to a captured register. -/
theorem exists_extended (h : t.rexR c = true ∨ t.rexB c = true) :
    ∃ r ∈ c.registers, r.isExtended = true := by
  rcases h with h | h
  · simp only [rexR, Bool.and_eq_true, Option.any_eq_true] at h
    obtain ⟨-, r, hr, hext⟩ := h
    split_ifs at hr
    exact ⟨r, by simp [Captures.registers, hr], hext⟩
  · simp only [rexB, Bool.or_eq_true, Option.any_eq_true] at h
    rcases h with ⟨p, hp, hext⟩ | ⟨r, hr, hext⟩
    · exact ⟨p.base, mem_registers_of_place hp, hext⟩
    · exact ⟨r, mem_registers_of_fill hr, hext⟩

/-- A register that exists only beside a REX byte has one. -/
theorem isSome_rex?_of_needsRex {r : Register} (hr : r ∈ c.registers) (h : r.needsRex = true) :
    (t.rex? c).isSome = true := by
  have hany : c.registers.any Register.needsRex = true := List.any_eq_true.2 ⟨r, hr, h⟩
  rw [isSome_rex?, resolve_forceRex, hany]
  cases t.hasRex <;> simp

/-- A high byte has no REX byte beside it. -/
theorem isSome_rex?_of_isHighByte (hc : t.conflicts c = false) {r : Register}
    (hr : r ∈ c.registers) (h : r.isHighByte = true) : (t.rex? c).isSome = false := by
  have hhigh : c.hasHighByte = true := List.any_eq_true.2 ⟨r, hr, h⟩
  rw [conflicts, hhigh, Bool.true_and, Bool.or_eq_false_iff] at hc
  obtain ⟨hrex, hneeds⟩ := hc
  have hnone : ∀ q ∈ c.registers, q.isExtended = false ∧ q.needsRex = false := by
    simpa [Captures.needsRex] using hneeds
  rw [isSome_rex?, resolve_forceRex, hrex]
  by_contra hn
  simp only [Bool.not_false, Bool.true_and, Bool.false_or, Bool.not_eq_false, Bool.or_eq_true] at hn
  rcases hn with hn | hn
  · obtain ⟨q, hq, hext⟩ := exists_extended hn
    simp [hnone q hq] at hext
  · obtain ⟨q, hq, hneed⟩ := List.any_eq_true.1 hn
    simp [hnone q hq] at hneed

/-- A REX byte reads back, and where there is none, the opcode is not taken for one. -/
theorem read_rex (t : Template) (c : Captures) {b : UInt8} (hb : b.toNat / 16 ≠ 4)
    (bs : List UInt8) :
    Rex.read ((if t.hasRex || (resolve t c).forceRex then [(resolve t c).rex] else []) ++ b :: bs) =
      (t.rex? c, b :: bs) := by
  unfold rex?
  split_ifs with h
  · rw [List.cons_append, List.nil_append, Rex.read, resolve_rex, rex_rexByte]
  · rw [List.nil_append, Rex.read, Rex.ofByte?, if_neg hb]

end Template
end RowAsm
