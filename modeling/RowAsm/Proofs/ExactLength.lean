import RowAsm.Proofs.RexPlacement
import RowAsm.Proofs.ShortestAddress

/-!
# The exact length of an instruction

`Template.codeLength t c` adds up the bytes that a template and captures ask for: the size bytes,
the opcode bytes and REX markers, a forced REX byte if a part brings it, the number fields, and the
ModR/M byte with its SIB byte and displacement. It is the number of bytes of the layout
(`Template.length_layout_eq`).

Nothing is asked of the template but that no number field has more than 64 bits: it need not come
from a row, and the captures need not come from the same row. Then putting the pieces together can
fail for want of room only (`Piece.isOverflow_of_foldlM`), so there is code if and only if the
length is at most 15 (`Template.emit_exact`). Whatever the order of the parts, the ModR/M byte is
laid out once if there is one (`Fields.countP_modrm_walk`).
-/

namespace RowAsm

/-! ### Lengths -/

namespace Place

/-- The number of SIB bytes: one for memory at a base `100`. -/
def sibLength : Place → Nat
  | .register _ => 0
  | .memory b _ => if b.index % 8 = 4 then 1 else 0

/-- The number of displacement bytes: four at the instruction pointer, else none for a displacement
of zero unless the base is `101`, one if the displacement is a signed byte, and four if not. -/
def displacementLength : Place → Nat
  | .register _ => 0
  | .memory b d =>
    if b = .rip then 4
    else if d.getD 0 = 0 ∧ b.index % 8 ≠ 5 then 0
    else if -128 ≤ d.getD 0 ∧ d.getD 0 < 128 then 1
    else 4

theorem size_target (p : Place) : p.target.size = 1 + p.sibLength + p.displacementLength := by
  cases p with
  | register r => rfl
  | memory b d =>
    by_cases hb : b = .rip
    · subst hb
      rfl
    · rw [target_memory hb, Target.size, Target.leastDisplacement, sibLength, displacementLength,
        if_neg hb]
      simp only [Word.isSigned_eight_iff]

end Place

namespace Template

open Fields

/-- The number of bytes that a template and captures ask for. -/
def codeLength (t : Template) (c : Captures) : Nat :=
  let f := resolve t c
  t.operandSize.toNat + (f.place.any fun p => p.isMemory && p.base.bits == 32).toNat +
    t.program.countP (fun p => p.isOpcode || p.isRex) +
    (f.forceRex && t.program.any Part.bringsRex).toNat +
    ((t.program.filterMap Part.slot?).map fun s => s.bits / 8).sum +
    if f.place.isSome || t.digit?.isSome then
      1 + (f.place.map Place.sibLength).getD 0 + (f.place.map Place.displacementLength).getD 0
    else 0

/-- A part takes one byte, or those of its number field. -/
theorem partsLength_eq (prog : List Part) :
    Row.partsLength prog = prog.countP (fun p => p.isOpcode || p.isRex) +
      ((prog.filterMap Part.slot?).map fun s => s.bits / 8).sum := by
  induction prog with
  | nil => rfl
  | cons p prog ih =>
    rw [Row.partsLength, ih]
    cases p with
    | byte b | fill b | rex w =>
      rw [List.countP_cons_of_pos rfl, List.filterMap_cons_none rfl, Row.partLength]
      omega
    | digit d =>
      rw [List.countP_cons_of_neg (by simp [Part.isOpcode, Part.isRex]),
        List.filterMap_cons_none rfl, Row.partLength]
      omega
    | immediate n | relative n =>
      rw [List.countP_cons_of_neg (by simp [Part.isOpcode, Part.isRex]), Row.partLength]
      simp only [List.filterMap_cons, Part.slot?, List.map_cons, List.sum_cons]
      omega

theorem modrmLength_eq (f : Fields) :
    f.modrmLength =
      1 + (f.place.map Place.sibLength).getD 0 + (f.place.map Place.displacementLength).getD 0 := by
  cases hp : f.place with
  | none => simp [modrmLength, modrmPieces, hp, Piece.bytes]
  | some p =>
    rw [modrmLength, length_modrmPieces hp, Place.size_target]
    rfl

/-- **The length of a layout**, whatever the template and the captures. -/
theorem length_layout_eq (t : Template) (c : Captures) :
    ((t.layout c).flatMap Piece.bytes).length = t.codeLength c := by
  have hmodrm : (resolve t c).hasModrm = ((resolve t c).place.isSome || t.digit?.isSome) := rfl
  rw [length_layout, codeLength, partsLength_eq, hmodrm, modrmLength_eq]
  omega

end Template

/-! ### Room -/

/-- The fault is that of bytes added to code that has no room for them. -/
def Fault.IsOverflow : Fault → Prop
  | .full => True
  | .overrun len added => len ≤ 15 ∧ 15 < len + added
  | _ => False

namespace Piece

theorem isOverflow_of_appendTo {code : Code} {p : Piece} {f : Fault} (hp : p.Short)
    (h : appendTo code p = .error f) : f.IsOverflow := by
  cases p with
  | byte r b =>
    rw [appendTo, Code.push] at h
    split_ifs at h
    cases h
    trivial
  | word r size v =>
    rw [appendTo, if_pos (show size ≤ 8 from hp), Code.extend] at h
    split_ifs at h with hroom
    cases h
    exact ⟨code.length_le, not_le.1 hroom⟩

/-- **Short pieces fail to fit for want of room only.** -/
theorem isOverflow_of_foldlM {ps : List Piece} {code : Code} {f : Fault} (hp : ∀ p ∈ ps, p.Short)
    (h : ps.foldlM appendTo code = .error f) : f.IsOverflow := by
  induction ps generalizing code with
  | nil => cases h
  | cons p ps ih =>
    rw [List.foldlM_cons] at h
    cases hcode : appendTo code p with
    | error g =>
      rw [hcode] at h
      cases h
      exact isOverflow_of_appendTo (hp p (by simp)) hcode
    | ok code' =>
      rw [hcode] at h
      exact ih (fun q hq => hp q (by simp [hq])) h

end Piece

/-! ### The ModR/M byte of a walk -/

namespace Fields

variable (f : Fields)

theorem countP_modrm_modrmPieces : f.modrmPieces.countP (fun p => p.role = .modrm) = 1 := by
  have hdisp : ∀ mode d, (displacementPieces mode d).countP (fun p => p.role = .modrm) = 0 := by
    intro mode d
    cases mode <;> rfl
  unfold modrmPieces memoryPieces
  split
  · rfl
  · rfl
  · split_ifs
    · rfl
    · simp [hdisp]
    · simp [hdisp]

/-- **The ModR/M byte of a walk** comes once if it is to come, before the first number or at the
end. -/
theorem countP_modrm_walk (rex modrm : Bool) (vs : List Int) (prog : List Part) :
    (f.walk rex modrm vs prog).countP (fun p => p.role = .modrm) = modrm.toNat := by
  have hmod : ∀ modrm : Bool,
      (if modrm then f.modrmPieces else []).countP (fun p => p.role = .modrm) = modrm.toNat := by
    intro modrm
    cases modrm with
    | true => exact countP_modrm_modrmPieces f
    | false => rfl
  induction prog generalizing rex modrm vs with
  | nil => simpa [walk] using hmod modrm
  | cons p prog ih =>
    cases p with
    | byte b =>
      rw [walk]
      split_ifs <;> simp [ih]
    | fill b => cases rex <;> simp [walk, ih]
    | digit d => simp [walk, ih]
    | rex w => simp [walk, ih]
    | immediate n | relative n => simp [walk, ih, hmod]

end Fields

namespace Template

open Fields

variable {t : Template} {c : Captures}

theorem countP_modrm_layout (t : Template) (c : Captures) :
    (t.layout c).countP (fun p => p.role = .modrm) =
      ((resolve t c).place.isSome || t.digit?.isSome).toNat := by
  have hsize : ((resolve t c).sizePieces t.operandSize).countP (fun p => p.role = .modrm) = 0 := by
    unfold sizePieces
    split_ifs <;> rfl
  rw [layout, List.countP_append, hsize, Nat.zero_add, countP_modrm_walk]
  rfl

theorem countP_rex_layout (t : Template) (c : Captures) :
    (t.layout c).countP (fun p => p.role = .rex) = t.program.countP Part.isRex +
      ((resolve t c).forceRex && t.program.any Part.bringsRex).toNat := by
  rw [layout, List.countP_eq_length_filter, List.filter_append, filter_rex_sizePieces,
    filter_rex_walk, List.nil_append, List.length_replicate]

/-- **The exact length of an instruction.** Take any template without number fields of more than 64
bits and any captures. There is code if and only if the bytes that they ask for are at most 15, and
then it has exactly so many; otherwise adding the bytes fails for want of room. The layout has one
ModR/M byte if there is an operand in the r/m field or a digit, and none otherwise. It has the REX
bytes that the program places, or if it places none, at most one, which comes if it is forced and a
part brings it. -/
theorem emit_exact (t : Template) (c : Captures) (h : ∀ p ∈ t.program, p.Narrow) :
    ((∃ code, t.emit c = .ok code) ↔ t.codeLength c ≤ 15) ∧
    (∀ code, t.emit c = .ok code → code.bytes = (t.layout c).flatMap Piece.bytes ∧
      code.size = t.codeLength c) ∧
    (15 < t.codeLength c → ∃ f, t.emit c = .error f ∧ f.IsOverflow) ∧
    (t.layout c).countP (fun p => p.role = .modrm) =
      ((resolve t c).place.isSome || t.digit?.isSome).toNat ∧
    (t.layout c).countP (fun p => p.role = .rex) = t.program.countP Part.isRex +
      ((resolve t c).forceRex && t.program.any Part.bringsRex).toNat ∧
    ((resolve t c).forceRex = true → t.program.countP Part.isRex = 0) := by
  have hshort := short_layout (c := c) h
  have hsize : ∀ code, t.emit c = .ok code → code.size = t.codeLength c := by
    intro code hcode
    rw [Code.size, bytes_of_emit hcode, length_layout_eq]
  refine ⟨⟨?_, fun hle => ?_⟩, fun code hcode => ⟨bytes_of_emit hcode, hsize code hcode⟩,
    fun hlt => ?_, countP_modrm_layout t c, countP_rex_layout t c, fun hforce => ?_⟩
  · rintro ⟨code, hcode⟩
    rw [← hsize code hcode]
    exact code.length_le
  · refine Piece.exists_foldlM hshort ?_
    rw [length_layout_eq]
    simpa [Code.empty] using hle
  · cases hemit : t.emit c with
    | ok code =>
      have hle := code.length_le
      have heq := hsize code hemit
      rw [Code.size] at heq
      omega
    | error f => exact ⟨f, rfl, Piece.isOverflow_of_foldlM hshort hemit⟩
  · have hnone := (of_forceRex hforce).1
    rw [hasRex, List.any_eq_false] at hnone
    exact List.countP_eq_zero.2 hnone

/-- The captures of one row with two templates that no row has: a number before the opcode, with two
digits and a fill, and numbers of 16 bytes after a REX byte. -/
theorem emit_exact_of_other_row :
    let c : Captures := ⟨some (.r32 9), some (.memory (.r32 12) (some 8)), [], 10⟩
    let t : Template := ⟨"foo", [],
      [.byte 0xF0, .immediate 16, .byte 0x0F, .digit 3, .fill 0xB8, .digit 5], true⟩
    let u : Template := ⟨"foo", [], [.rex true, .immediate 64, .relative 64], false⟩
    (∃ s, Row.compile ⟨"BAR r/m32, r32", "01 /r"⟩ = .ok s ∧
      s.capture ["bar", "dword", "ptr", "[", "r12d", "+", "8", "]", ",", "r9d"] = .ok c) ∧
    t.codeLength c = 11 ∧
    (∃ code, t.emit c = .ok code ∧ code.size = 11 ∧
      code.bytes = [0x66, 0x67, 0xF0, 0x5C, 0x24, 0x08, 0, 0, 0x41, 0x0F, 0xB9]) ∧
    u.codeLength c = 21 ∧ ∃ f, u.emit c = .error f ∧ f.IsOverflow := by
  intro c t u
  have ht := emit_exact t c (by decide)
  have hu := emit_exact u c (by decide)
  obtain ⟨code, hcode⟩ := ht.1.2 (by decide)
  obtain ⟨hbytes, hsize⟩ := ht.2.1 code hcode
  refine ⟨⟨⟨"bar", [.place 32, .register 32], [.byte 0x01], false⟩, by decide⟩, by decide,
    ⟨code, hcode, ?_, ?_⟩, by decide, hu.2.2.1 (by decide)⟩
  · rw [hsize]
    decide
  · rw [hbytes]
    decide

end Template
end RowAsm
