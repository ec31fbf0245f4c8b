import RowAsm.Proofs.Order
import RowAsm.Proofs.RoundTrip

/-!
# Where a REX byte stands

A captured register goes into one of three places of an instruction: the reg field, the r/m field
or the opcode byte (`regRegister?`, `rmRegister?`, `opcodeRegister?`), and in the template of a row
every captured register has one (`mem_registers_iff`). Hence a layout forces a REX byte exactly if
the program places none and a captured register needs one (`forceRex_eq`).

The REX bytes of a walk are counted (`filter_rex_walk`): those that the program places, and a forced
one if there is a part that brings it, an opcode byte that is no prefix byte. Where all opcode bytes
of a program are prefix bytes, a forced REX byte is lost.

Matching asks for a REX byte on other grounds than the layout, which knows where each register goes.
The two ask for one together (`capture_and_layout_agree_on_rex`), so a match with one of `ah`, `ch`,
`dh`, `bh` is laid out without a REX byte.
-/

namespace RowAsm

/-! ### The REX bytes of a walk -/

namespace Fields

variable (f : Fields)

theorem filter_rex_modrmPieces : f.modrmPieces.filter (fun p => p.role = .rex) = [] := by
  refine List.filter_eq_nil_iff.2 fun p hp h => ?_
  rcases role_modrmPieces f hp with hr | hr | hr <;> simp [hr] at h

theorem filter_rex_sizePieces (operandSize : Bool) :
    (f.sizePieces operandSize).filter (fun p => p.role = .rex) = [] := by
  unfold sizePieces
  split_ifs <;> rfl

/-- **The REX bytes of a walk** are those that the program places, and the pending one if a part
brings it. -/
theorem filter_rex_walk (rex modrm : Bool) (vs : List Int) (prog : List Part) :
    (f.walk rex modrm vs prog).filter (fun p => p.role = .rex) =
      List.replicate (prog.countP Part.isRex + (rex && prog.any Part.bringsRex).toNat)
        (.byte .rex f.rex) := by
  have hmod : ∀ modrm : Bool,
      (if modrm then f.modrmPieces else []).filter (fun p => p.role = .rex) = [] := by
    intro modrm
    cases modrm with
    | true => exact filter_rex_modrmPieces f
    | false => rfl
  induction prog generalizing rex modrm vs with
  | nil => simpa [walk] using hmod modrm
  | cons p prog ih =>
    cases p with
    | byte b =>
      -- a pending REX byte stays pending at a prefix byte
      cases hb : isPrefixByte b <;> cases rex <;>
        simp [walk, hb, ih, Part.bringsRex, Part.isRex, List.replicate_succ]
    | fill b =>
      cases rex <;>
        simp [walk, ih, Part.bringsRex, Part.isRex, List.replicate_succ]
    | digit d => simp [walk, ih, Part.bringsRex, Part.isRex]
    | rex w =>
      have hbrings : (Part.rex w).bringsRex = false := rfl
      rw [walk, List.filter_cons_of_pos (by simp), ih, List.countP_cons_of_pos rfl, List.any_cons,
        hbrings, Bool.false_or, Nat.add_right_comm, List.replicate_succ]
    | immediate n => simp [walk, ih, hmod, Part.bringsRex, Part.isRex]
    | relative n => simp [walk, ih, hmod, Part.bringsRex, Part.isRex]

end Fields

/-! ### The places of registers -/

namespace Template

open Fields

variable {t : Template} {c : Captures}

/-- The register in the opcode byte. -/
def opcodeRegister? (t : Template) (c : Captures) : Option Register :=
  if t.hasFill then c.register else none

/-- The register in the reg field. -/
def regRegister? (t : Template) (c : Captures) : Option Register :=
  if t.hasFill || t.digit?.isSome then none else c.register

/-- The register in the r/m field, or the base of memory there. -/
def rmRegister? (t : Template) (c : Captures) : Option Register :=
  c.place.map Place.base <|> if !t.hasFill && t.digit?.isSome then c.register else none

theorem rexR_eq (t : Template) (c : Captures) :
    t.rexR c = (t.regRegister? c).any Register.isExtended := by
  unfold rexR regRegister?
  cases t.hasFill <;> cases t.digit? <;> simp

theorem rexB_eq (t : Template) (c : Captures) :
    t.rexB c = ((t.rmRegister? c).any Register.isExtended ||
      (t.opcodeRegister? c).any Register.isExtended) := by
  have hfill : (resolve t c).fill = t.opcodeRegister? c := rfl
  have hplace : (resolve t c).place.map Place.base = t.rmRegister? c := by
    cases hp : c.place with
    | some p => simp [resolve_place_of_some hp, rmRegister?, hp]
    | none =>
      rw [resolve_place_of_none hp, rmRegister?, hp]
      cases t.hasFill <;> cases t.digit? <;> simp [Function.comp_def, Place.base]
  rw [rexB, hfill, ← hplace, Option.any_map]

/-- **Every captured register has its place** in the instruction, and no other register has one. -/
theorem mem_registers_iff (ht : t.WellFormed) (hc : c.Fit t.operands) {r : Register} :
    r ∈ c.registers ↔ t.regRegister? c = some r ∨ t.rmRegister? c = some r ∨
      t.opcodeRegister? c = some r := by
  have hmem : r ∈ c.registers ↔ c.register = some r ∨ c.place.map Place.base = some r := by
    simp [Captures.registers, Option.mem_toList]
  rw [hmem]
  cases hf : t.hasFill with
  | true => simp [regRegister?, rmRegister?, opcodeRegister?, hf, or_comm]
  | false =>
    cases hd : t.digit? with
    | none => simp [regRegister?, rmRegister?, opcodeRegister?, hf, hd]
    | some d =>
      -- the digit leaves the r/m field to the register, if there is one
      cases hr : c.register with
      | none => simp [regRegister?, rmRegister?, opcodeRegister?, hf, hd, hr]
      | some q =>
        have hany : t.operands.any Operand.isRegister = true := by
          rw [← hc.register_isSome, hr]
          rfl
        have hnone := place_of_hasPlace hc (ht.hasPlace_of_digit hany (by rw [hd]; rfl))
        simp [regRegister?, rmRegister?, opcodeRegister?, hf, hd, hr, hnone]

/-- A layout forces a REX byte if the program places none and a captured register needs one. -/
theorem forceRex_eq (ht : t.WellFormed) (hc : c.Fit t.operands) :
    (resolve t c).forceRex = (!t.hasRex && c.needsRex) := by
  have hneeds : c.needsRex = (c.registers.any Register.isExtended ||
      c.registers.any Register.needsRex) := by
    rw [Captures.needsRex, Bool.eq_iff_iff]
    simp [and_or_left, exists_or]
  have hext : (t.rexR c || t.rexB c) = c.registers.any Register.isExtended := by
    rw [rexR_eq, rexB_eq, Bool.eq_iff_iff]
    simp only [Bool.or_eq_true, Option.any_eq_true, List.any_eq_true, mem_registers_iff ht hc]
    simp only [or_and_right, exists_or]
  rw [resolve_forceRex, hext, hneeds]

/-- **The REX bytes of a layout**: one if the program places it, or if a captured register needs it
and a part brings it. -/
theorem filter_rex_layout (ht : t.WellFormed) (hc : c.Fit t.operands) :
    (t.layout c).filter (fun p => p.role = .rex) =
      if t.hasRex || (c.needsRex && t.program.any Part.bringsRex) then
        [.byte .rex (resolve t c).rex] else [] := by
  have hle := ht.agree.rex_le
  rw [layout, List.filter_append, filter_rex_sizePieces, List.nil_append, filter_rex_walk,
    forceRex_eq ht hc]
  cases hrex : t.hasRex with
  | true =>
    have hpos := countP_pos_iff_any.2 hrex
    have hone : t.program.countP Part.isRex = 1 := by omega
    simp [hone]
  | false =>
    have hzero : t.program.countP Part.isRex = 0 := by
      by_contra hne
      have := countP_pos_iff_any.1 (Nat.pos_of_ne_zero hne)
      rw [← hasRex, hrex] at this
      cases this
    rw [hzero]
    cases c.needsRex <;> cases t.program.any Part.bringsRex <;> rfl

/-- **When an instruction has a REX byte.** A statement that matches the template of a row has code,
and each of its registers has a place in it. The layout has one REX byte if the program has a REX
marker, or if a captured register is among the upper eight or one of `spl`, `bpl`, `sil`, `dil` and
some opcode byte is no prefix byte; otherwise it has none. The W bit is that of the marker, and each
of the other bits is set exactly if the register in its place is among the upper eight. -/
theorem emit_rex (row : Row) (t : Template) (hrow : row.compile = .ok t)
    (tokens : List String) (c : Captures) (hcap : t.capture tokens = .ok c) :
    (∃ code, t.emit c = .ok code ∧ code.bytes = (t.layout c).flatMap Piece.bytes) ∧
    (∀ r, r ∈ c.registers ↔ t.regRegister? c = some r ∨ t.rmRegister? c = some r ∨
      t.opcodeRegister? c = some r) ∧
    ∃ b, (t.layout c).filter (fun p => p.role = .rex) =
        (if t.hasRex || (c.needsRex && t.program.any Part.bringsRex) then [.byte .rex b] else []) ∧
      Rex.ofByte? b = some
        { w := t.program.contains (.rex true)
          r := (t.regRegister? c).any Register.isExtended
          x := false
          b := (t.rmRegister? c).any Register.isExtended ||
            (t.opcodeRegister? c).any Register.isExtended } := by
  have ht := Row.wellFormed_of_compile hrow
  have hfit := (fit_of_capture ht hcap).1
  obtain ⟨code, hemit, -⟩ := emit_of_fit ht hfit
  refine ⟨⟨code, hemit, bytes_of_emit hemit⟩, fun r => mem_registers_iff ht hfit,
    (resolve t c).rex, filter_rex_layout ht hfit, ?_⟩
  rw [resolve_rex, rex_rexByte, rexR_eq, rexB_eq]

/-- `sil` needs a REX byte, which follows the prefix byte and carries the fourth bit of `r9b`. -/
theorem emit_rex_sil :
    let t : Template := ⟨"foo", [.place 8, .register 8], [.byte 0xF0, .byte 0x88], false⟩
    let c : Captures := ⟨some (.low8 9), some (.register (.low8 6)), [], 4⟩
    Row.compile ⟨"FOO r/m8, r8", "F0 88 /r"⟩ = .ok t ∧
      t.capture ["foo", "sil", ",", "r9b"] = .ok c ∧
      ∃ b, (t.layout c).filter (fun p => p.role = .rex) = [.byte .rex b] ∧
        Rex.ofByte? b = some ⟨false, true, false, false⟩ := by
  intro t c
  have hrow : Row.compile ⟨"FOO r/m8, r8", "F0 88 /r"⟩ = .ok t := by decide +kernel
  have hcap : t.capture ["foo", "sil", ",", "r9b"] = .ok c := by decide +kernel
  obtain ⟨-, -, b, hfilter, hbits⟩ := emit_rex _ t hrow _ c hcap
  exact ⟨hrow, hcap, b, hfilter, hbits⟩

/-- A row may have prefix bytes for its whole opcode. Then no part brings the REX byte that `r8d`
needs, and the code is that of `eax`. -/
theorem layout_without_needed_rex :
    let t : Template := ⟨"foo", [.place 32], [.byte 0xF0], false⟩
    let c : Captures := ⟨none, some (.register (.r32 8)), [], 2⟩
    let d : Captures := ⟨none, some (.register (.r32 0)), [], 2⟩
    Row.compile ⟨"FOO r/m32", "F0"⟩ = .ok t ∧
      t.capture ["foo", "r8d"] = .ok c ∧ t.capture ["foo", "eax"] = .ok d ∧ c.needsRex = true ∧
      t.layout c = [.byte .opcode 0xF0, .byte .modrm 0xC0] ∧ t.layout d = t.layout c := by
  decide +kernel

/-! ### High bytes -/

/-- Matching and layout need a REX byte for the same captures. -/
theorem hasRex_or_needsRex (ht : t.WellFormed) (hc : c.Fit t.operands) :
    (t.hasRex || c.needsRex) = (t.hasRex || (resolve t c).forceRex) := by
  rw [forceRex_eq ht hc]
  cases t.hasRex <;> rfl

/-- **The layout of a high byte has no REX byte.** -/
theorem role_ne_rex_of_isHighByte (ht : t.WellFormed) (hc : c.Fit t.operands)
    (hconf : t.conflicts c = false) {r : Register} (hr : r ∈ c.registers)
    (h : r.isHighByte = true) : ∀ p ∈ t.layout c, p.role ≠ .rex := by
  have hnone : (t.hasRex || c.needsRex) = false := by
    rw [hasRex_or_needsRex ht hc, ← isSome_rex?]
    exact isSome_rex?_of_isHighByte hconf hr h
  obtain ⟨hrex, hneeds⟩ := Bool.or_eq_false_iff.1 hnone
  have hfilter := filter_rex_layout ht hc
  rw [hrex, hneeds] at hfilter
  intro p hp hrole
  exact List.filter_eq_nil_iff.1 hfilter p hp (by simpa using hrole)

/-- **Matching and layout agree on the REX byte.** Take a statement that matches the template of a
row. Matching sees a need for a REX byte, in the program or in a captured register, exactly if the
program places one or the layout forces one; and the statement has code, with no REX byte in it if
one of `ah`, `ch`, `dh`, `bh` was captured. -/
theorem capture_and_layout_agree_on_rex (row : Row) (t : Template) (hrow : row.compile = .ok t)
    (tokens : List String) (c : Captures) (hcap : t.capture tokens = .ok c) :
    ((t.hasRex = true ∨ ∃ r ∈ c.registers, r.isExtended = true ∨ r.needsRex = true) ↔
      (t.hasRex = true ∨ (resolve t c).forceRex = true)) ∧
    ∃ code, t.emit c = .ok code ∧ code.bytes = (t.layout c).flatMap Piece.bytes ∧
      ∀ i, .high8 i ∈ c.registers → ∀ p ∈ t.layout c, p.role ≠ .rex := by
  have ht := Row.wellFormed_of_compile hrow
  obtain ⟨hfit, hconf⟩ := fit_of_capture ht hcap
  obtain ⟨code, hemit, -⟩ := emit_of_fit ht hfit
  refine ⟨?_, code, hemit, bytes_of_emit hemit, fun i hi =>
    role_ne_rex_of_isHighByte ht hfit hconf hi rfl⟩
  have hagree := hasRex_or_needsRex ht hfit
  rw [Bool.eq_iff_iff] at hagree
  simpa [Captures.needsRex] using hagree

/-- Two high bytes, in the reg field and in the r/m field. -/
theorem capture_and_layout_agree_on_rex_mov :
    let t : Template := ⟨"mov", [.place 8, .register 8], [.byte 0x88], false⟩
    let c : Captures := ⟨some (.high8 3), some (.register (.high8 0)), [], 4⟩
    Row.compile ⟨"MOV r/m8, r8", "88 /r"⟩ = .ok t ∧
      t.capture ["mov", "ah", ",", "bh"] = .ok c ∧ (resolve t c).forceRex = false ∧
      (t.layout c).flatMap Piece.bytes = [0x88, 0xFC] ∧ ∀ p ∈ t.layout c, p.role ≠ .rex := by
  intro t c
  have hrow : Row.compile ⟨"MOV r/m8, r8", "88 /r"⟩ = .ok t := by decide
  have hcap : t.capture ["mov", "ah", ",", "bh"] = .ok c := by decide
  obtain ⟨-, -, -, -, hnone⟩ := capture_and_layout_agree_on_rex _ t hrow _ c hcap
  exact ⟨hrow, hcap, by decide, by decide, hnone 3 (by decide)⟩

end Template
end RowAsm
