import RowAsm.Proofs.Denotation
import RowAsm.Proofs.OpcodeColumn
import RowAsm.Proofs.Separation
import RowAsm.Proofs.ShortestAddress

/-!
# The length limit is exact

A row is refused for its length on account of `Row.maxLength`, a number that is computed from its
operands and its program. This number is not only a bound of the layouts (`length_layout_le`), it is
the length of one of them. The statement that has it takes for each operand what costs most
(`Grammar.Value.Longest`): one of the upper eight registers, which brings a REX byte, and memory at
`r12d` with a displacement of four bytes, which brings `67`, a REX byte and a SIB byte. No high byte
is among them, so the statement matches (`exists_longest`), and its layout has every byte that was
counted (`length_layout_of_longest`), if there is an opcode byte to bring the REX byte.

Hence `Row.maxLength` is the greatest length (`isGreatest_maxLength`), and a row whose columns agree
is refused exactly if a statement of it takes more than 15 bytes (`Row.compile_tooLong_iff`).
-/

namespace RowAsm

open Grammar

/-! ### Rows of any length -/

namespace Row

/-- The template of a row whose columns agree, whatever the length of its encodings. -/
def draft (row : Row) : Except Rejection Template := do
  let text := spaced row.opcode
  let (mnemonic, rest) ← headed (opcodeMnemonic? text) (fields row.signature)
  let ops ← operands rest
  let prog ← program text
  match inconsistency? ops prog with
  | some why => .error (.inconsistent why)
  | none => .ok ⟨mnemonic, ops, prog, wantsOperandSize ops && prog.head? != some (.byte 0x66)⟩

variable {row : Row} {t : Template}

/-- The checks that a draft has passed. -/
theorem draft_cases (h : row.draft = .ok t) :
    ∃ rest, headed (opcodeMnemonic? (spaced row.opcode)) (fields row.signature) =
        .ok (t.mnemonic, rest) ∧
      operands rest = .ok t.operands ∧ program (spaced row.opcode) = .ok t.program ∧
      inconsistency? t.operands t.program = none ∧
      t.operandSize =
        (wantsOperandSize t.operands && t.program.head? != some (.byte 0x66)) := by
  obtain ⟨⟨m, rest⟩, hhead, h⟩ := bind_eq_ok h
  obtain ⟨ops, hops, h⟩ := bind_eq_ok h
  obtain ⟨prog, hprog, h⟩ := bind_eq_ok h
  split at h
  · cases h
  · rename_i hnone
    cases h
    exact ⟨rest, hhead, hops, hprog, hnone, rfl⟩

theorem of_draft (h : row.draft = .ok t) :
    (∀ o ∈ t.operands, o.Sized) ∧ t.operands.length ≤ 2 ∧ Agree t.operands t.program := by
  obtain ⟨rest, hhead, hops, -, hnone, -⟩ := draft_cases h
  obtain ⟨-, hrest⟩ := of_headed (fun k hk => lower_of_opcodeMnemonic? hk) hhead
  obtain ⟨hlen, hsized⟩ := sized_of_operands hops
  exact ⟨hsized, by omega, inconsistency?_eq_none_iff.1 hnone⟩

/-- What is left to check of a draft is its length. -/
theorem compile_of_draft (h : row.draft = .ok t) :
    row.compile = if lengthLimit < maxLength t.operands t.program t.operandSize then
      .error (.inconsistent .tooLong) else .ok t := by
  obtain ⟨rest, hhead, hops, hprog, hnone, hsize⟩ := draft_cases h
  simp only [compile_eq_template hhead hops hprog, template, hnone, ← hsize]

end Row

/-! ### The longest statement -/

/-- The places with the longest layout: memory at a base of 32 bits that is among the upper eight,
with a SIB byte and four bytes of displacement. -/
structure Place.Longest (p : Place) : Prop where
  isMemory : p.isMemory = true
  bits : p.base.bits = 32
  isExtended : p.base.isExtended = true
  size : p.target.size = 6

/-- What operands denote in a longest statement. -/
def Grammar.Value.Longest : Value → Prop
  | .register r => r.isExtended = true ∧ r.isHighByte = false
  | .place p => p.Longest
  | .nothing | .number _ => True

theorem Register.named_ofWidth {bits : Nat} (h : bits = 0 ∨ IsWidth bits) (i : Fin 16) :
    (ofWidth bits i).Named bits (ofWidth bits i).name := by
  refine ⟨?_, h.imp_right ?_, Text.same_self _⟩
  · unfold ofWidth
    split <;> simp
  · rintro (rfl | rfl | rfl | rfl) <;> rfl

theorem Register.isExtended_ofWidth_eight (bits : Nat) : (ofWidth bits 8).isExtended = true := by
  rw [isExtended, index_ofWidth]
  rfl

namespace Grammar

/-- Memory at `r12d`, whose low bits are those of the SIB escape. -/
theorem exists_memory_longest : ∃ w p, Memory w p ∧ p.Longest :=
  ⟨["[", "r12d", "+", "128", "]"], .memory (.r32 12) (some 128),
    .intro (b := .r32 12) (Or.inl rfl) (by decide) (.plus (n := 128) (by decide) (by decide)),
    ⟨rfl, rfl, rfl, rfl⟩⟩

theorem exists_phrase_longest {o : Operand} (h : o.Sized) : ∃ w v, Phrase o w v ∧ v.Longest := by
  obtain ⟨w, p, hp, hlongest⟩ := exists_memory_longest
  cases o with
  | immediate bits => exact ⟨_, _, .immediate (number_zero bits), trivial⟩
  | relative bits => exact ⟨_, _, .relative (number_zero bits), trivial⟩
  | fixed word => exact ⟨_, _, .fixed (Text.same_self word), trivial⟩
  | register bits =>
    exact ⟨_, _, .register (Register.named_ofWidth h 8), Register.isExtended_ofWidth_eight bits,
      Register.isHighByte_ofWidth bits 8⟩
  | place bits =>
    exact ⟨_, _, .sized ⟨Text.same_self _, Text.same_self "ptr"⟩ hp, hlongest⟩
  | memory => exact ⟨_, _, .unsized hp, hlongest⟩

end Grammar

/-- The captures of a longest statement. -/
structure Captures.Longest (c : Captures) : Prop where
  register : ∀ r, c.register = some r → r.isExtended = true
  place : ∀ p, c.place = some p → p.Longest

theorem Fields.modrmLength_of_not_memory {f : Fields}
    (h : f.place.any Place.isMemory = false) : f.modrmLength = 1 := by
  unfold modrmLength modrmPieces
  cases hp : f.place with
  | none => rfl
  | some p =>
    cases p with
    | register r => rfl
    | memory b d => simp [hp, Place.isMemory] at h

namespace Template

open Fields

variable {t : Template} {c : Captures}

/-- A template has a longest statement, and it matches. -/
theorem exists_longest (hops : ∀ o ∈ t.operands, o.Sized) (hlen : t.operands.length ≤ 2)
    (ha : Row.Agree t.operands t.program) :
    ∃ tokens c, t.capture tokens = .ok c ∧ c.Longest := by
  obtain ⟨w, vs, hw, hlongest⟩ := exists_phrases_of fun o ho => exists_phrase_longest (hops o ho)
  obtain ⟨hr, hp⟩ := hw.countP_eq
  have hholds := Captures.holds_foldl_add (hr.trans_le ha.registers_le) (hp.trans_le ha.places_le)
  have hcompatible : t.Compatible vs := by
    rintro ⟨⟨r, hr | ⟨p, hp, rfl⟩, hhigh⟩, -⟩
    · obtain ⟨-, hlow⟩ : r.isExtended = true ∧ r.isHighByte = false := hlongest _ hr
      rw [hlow] at hhigh
      cases hhigh
    · have hlow := Register.IsBase.isHighByte (Or.inl (hlongest _ hp).bits)
      rw [hlow] at hhigh
      cases hhigh
  have hcapture := (capture_eq_ok_iff_of_sized hops hlen).2
    ⟨vs, ⟨t.mnemonic, w, rfl, Text.same_self _, hw⟩,
      (conflicts_eq_false_iff hholds).2 hcompatible, rfl⟩
  exact ⟨_, _, hcapture, fun r hr => (hlongest _ ((hholds.register r).1 hr)).1,
    fun p hp => hlongest _ ((hholds.place p).1 hp)⟩

/-! ### Its layout -/

/-- The upper eight registers bring a REX byte wherever they go. -/
theorem forceRex_of_longest (h : c.Longest) : (resolve t c).forceRex =
    (!t.hasRex && (c.place.isSome || c.register.isSome)) := by
  cases hp : c.place with
  | some p =>
    have hb : t.rexB c = true := by
      rw [rexB, resolve_place_of_some hp, Option.any_some, (h.place p hp).isExtended, Bool.true_or]
    simp [resolve_forceRex, hb]
  | none =>
    cases hr : c.register with
    | none =>
      have hregisters : c.registers = [] := by simp [Captures.registers, hp, hr]
      have hnone : ¬ (t.rexR c = true ∨ t.rexB c = true) := by
        intro hrex
        obtain ⟨r, hmem, -⟩ := exists_extended hrex
        rw [hregisters] at hmem
        cases hmem
      simpa [resolve_forceRex, hregisters] using fun _ => hnone
    | some r =>
      have hext := h.register r hr
      -- the register goes into the opcode byte, the r/m field or the reg field
      have hrex : (t.rexR c || t.rexB c) = true := by
        have hplace := resolve_place_of_none (t := t) hp
        cases hf : t.hasFill with
        | true =>
          have hfill : (resolve t c).fill = some r := by simp [resolve, hf, hr]
          simp [rexB, hfill, hext]
        | false =>
          cases hd : t.digit? with
          | some d => simp [rexB, hplace, hd, hf, hr, Place.base, hext]
          | none => simp [rexR, hd, hf, hr, hext]
      simp [resolve_forceRex, hrex]

/-- **The layout of a longest statement has every byte that the bound counts.** -/
theorem length_layout_of_longest (hc : c.Fit t.operands) (h : c.Longest)
    (hbrings : t.program.any Part.bringsRex = true) :
    ((t.layout c).flatMap Piece.bytes).length =
      Row.maxLength t.operands t.program t.operandSize := by
  have hrex : (resolve t c).forceRex.toNat =
      if (t.operands.any Operand.isPlace || t.operands.any Operand.isRegister) &&
        !t.program.any Part.isRex then 1 else 0 := by
    rw [forceRex_of_longest h, hc.place_isSome, hc.register_isSome, Bool.and_comm]
    exact Bool.cond_eq_ite _ 1 0
  rw [length_layout, Row.maxLength, hbrings, Bool.and_true, hrex, resolve_hasModrm,
    hc.place_isSome, digit?_isSome]
  cases hplace : c.place with
  | some p =>
    -- `67`, the ModR/M byte, a SIB byte and four bytes of displacement
    obtain ⟨hmemory, hbits, -, hsize⟩ := h.place p hplace
    have hp : t.operands.any Operand.isPlace = true := by rw [← hc.place_isSome, hplace]; rfl
    have hmodrm : (resolve t c).modrmLength = 6 :=
      (length_modrmPieces (resolve_place_of_some hplace)).trans hsize
    rw [resolve_place_of_some hplace, hp, hmodrm, Option.any_some, hmemory, hbits]
    simp
    omega
  | none =>
    -- a ModR/M byte is a digit's and stands alone
    have hp : t.operands.any Operand.isPlace = false := by rw [← hc.place_isSome, hplace]; rfl
    have hmem := isMemory_of_place_none (t := t) hplace
    rw [hp, addressSize_of_not_memory hmem, modrmLength_of_not_memory hmem]
    cases t.program.any Part.isDigit <;> simp <;> omega

/-- **The bound of a row is the greatest length** of the layouts of its statements. -/
theorem isGreatest_maxLength (hops : ∀ o ∈ t.operands, o.Sized) (hlen : t.operands.length ≤ 2)
    (ha : Row.Agree t.operands t.program) (hbrings : t.program.any Part.bringsRex = true) :
    IsGreatest {n | ∃ tokens c, t.capture tokens = .ok c ∧
        ((t.layout c).flatMap Piece.bytes).length = n}
      (Row.maxLength t.operands t.program t.operandSize) := by
  constructor
  · obtain ⟨tokens, c, hc, hlongest⟩ := exists_longest hops hlen ha
    have hfit := (fit_of_capture_of_sized hops hlen hc).1
    exact ⟨tokens, c, hc, length_layout_of_longest hfit hlongest hbrings⟩
  · rintro n ⟨tokens, c, hc, rfl⟩
    exact length_layout_le (fit_of_capture_of_sized hops hlen hc).1

end Template

/-! ### Rows that are refused for their length -/

namespace Row

/-- **A row is refused for its length exactly if one of its statements is too long.** Take a row
whose fields are operand kinds, whose opcode column is a program and whose columns agree, and let
some opcode byte of it take a register or be no prefix byte. It gives its template or is refused for
its length. It is refused if and only if some statement matches the template and takes more than 15
bytes when it is laid out; and the number that decides it is the greatest length of all statements
that match. -/
theorem compile_tooLong_iff (row : Row) (t : Template) (hdraft : row.draft = .ok t)
    (hbrings : t.program.any Part.bringsRex = true) :
    (row.compile = .ok t ∨ row.compile = .error (.inconsistent .tooLong)) ∧
    (row.compile = .error (.inconsistent .tooLong) ↔ ∃ tokens c, t.capture tokens = .ok c ∧
      15 < ((t.layout c).flatMap Piece.bytes).length) ∧
    IsGreatest {n | ∃ tokens c, t.capture tokens = .ok c ∧
        ((t.layout c).flatMap Piece.bytes).length = n}
      (maxLength t.operands t.program t.operandSize) := by
  obtain ⟨hops, hlen, ha⟩ := of_draft hdraft
  have hgreatest := Template.isGreatest_maxLength hops hlen ha hbrings
  rw [compile_of_draft hdraft]
  refine ⟨?_, ⟨fun h => ?_, ?_⟩, hgreatest⟩
  · split_ifs
    · exact Or.inr rfl
    · exact Or.inl rfl
  · obtain ⟨tokens, c, hc, hlength⟩ := hgreatest.1
    refine ⟨tokens, c, hc, ?_⟩
    split_ifs at h with hlimit
    rwa [hlength]
  · rintro ⟨tokens, c, hc, hlong⟩
    exact if_pos (hlong.trans_le (hgreatest.2 ⟨tokens, c, hc, rfl⟩))

/-- A row of 16 bytes: `67`, REX, four opcode bytes, ModR/M, SIB and eight bytes of numbers. -/
theorem compile_tooLong_iff_foo :
    let row : Row := ⟨"FOO r/m64, imm32", "REX.W 0F 38 90 90 id"⟩
    let t : Template := ⟨"foo", [.place 64, .immediate 32],
      [.rex true, .byte 0x0F, .byte 0x38, .byte 0x90, .byte 0x90, .immediate 32], false⟩
    row.draft = .ok t ∧ maxLength t.operands t.program t.operandSize = 16 ∧
      row.compile = .error (.inconsistent .tooLong) ∧
      ∃ tokens c, t.capture tokens = .ok c ∧ ((t.layout c).flatMap Piece.bytes).length = 16 := by
  intro row t
  have hdraft : row.draft = .ok t := by decide
  have hmax : maxLength t.operands t.program t.operandSize = 16 := by decide
  obtain ⟨-, hiff, hgreatest⟩ := compile_tooLong_iff row t hdraft (by decide)
  rw [hmax] at hgreatest
  obtain ⟨tokens, c, hc, hlength⟩ := hgreatest.1
  exact ⟨hdraft, hmax, hiff.2 ⟨tokens, c, hc, by omega⟩, tokens, c, hc, hlength⟩

end Row
end RowAsm
