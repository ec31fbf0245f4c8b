import RowAsm.Proofs.General
import RowAsm.Proofs.Reading

/-!
# Reading undoes encoding

The code of a canonical template reads back (`read_layout`): the operands in it are those that were
captured. Of the stages of the reader, the ones left to describe are those that put the register
operand and the place together again (`registerOf_eq`, `placeOf_eq`) from the fields of the bytes
and the bits of the REX byte.
-/

namespace RowAsm
namespace Template

open Fields

variable {t : Template} {c : Captures}

/-! ### The operands -/

theorem findSome?_of_countP_le {α β : Type} {g : α → Option β} {q : α → Bool}
    (hq : ∀ a, (g a).isSome = true → q a = true) {l : List α} (hl : l.countP q ≤ 1) {a : α} {b : β}
    (ha : a ∈ l) (hg : g a = some b) : l.findSome? g = some b := by
  induction l with
  | nil => cases ha
  | cons x l ih =>
    rcases List.mem_cons.1 ha with rfl | hal
    · rw [List.findSome?_cons, hg]
    · have hpos : 0 < l.countP q := List.countP_pos_iff.2 ⟨a, hal, hq a (by simp [hg])⟩
      have hx : g x = none := by
        by_contra hn
        have := hq x (Option.isSome_iff_ne_none.2 hn)
        rw [List.countP_cons_of_pos this] at hl
        omega
      rw [List.findSome?_cons, hx]
      exact ih ((List.sublist_cons_self x l).countP_le.trans hl) hal

theorem registerBits?_eq (ht : t.WellFormed) (hwidth : .register 0 ∉ t.operands)
    (hc : c.Fit t.operands) {r : Register} (h : c.register = some r) :
    t.registerBits? = some r.bits := by
  obtain ⟨bits, hmem, -, hbits⟩ := hc.register r h
  have hne : bits ≠ 0 := by
    rintro rfl
    exact hwidth hmem
  rw [hbits.resolve_left hne]
  refine findSome?_of_countP_le (q := Operand.isRegister) ?_ ht.agree.registers_le hmem rfl
  intro o ho
  cases o <;> simp_all [Operand.isRegister]

theorem placeBits?_eq (ht : t.WellFormed) (hc : c.Fit t.operands) {r : Register}
    (h : c.place = some (.register r)) : t.placeBits? = some r.bits := by
  obtain ⟨o, hmem, ho⟩ := hc.place _ h
  have hmemory : ¬ Reader.IsMemory (.register r) := by rintro ⟨b, d, hb, -⟩; cases hb
  cases o with
  | place bits =>
    rcases ho with ⟨r', hr', -, hbits⟩ | ho
    · cases hr'
      refine findSome?_of_countP_le (q := Operand.isPlace) ?_ ht.agree.places_le hmem
        (by rw [hbits])
      intro o ho
      cases o <;> simp_all [Operand.isPlace]
    · exact absurd ho hmemory
  | memory => exact absurd ho hmemory
  | immediate n => exact ho.elim
  | relative n => exact ho.elim
  | fixed w => exact ho.elim
  | register n => exact ho.elim

theorem countP_pos_iff_any {α : Type} {q : α → Bool} {l : List α} :
    0 < l.countP q ↔ l.any q = true := by
  rw [List.countP_pos_iff, List.any_eq_true]

/-- A register operand has a field of its own. -/
theorem WellFormed.register_field (ht : t.WellFormed)
    (hr : t.operands.any Operand.isRegister = true) :
    t.hasFill = true ∨ t.digit?.isSome = true ∨ t.hasPlace = true := by
  have hpos := countP_pos_iff_any.2 hr
  have hle := ht.agree.registers_le
  rw [hasFill, digit?_isSome, hasPlace, ← countP_pos_iff_any, ← countP_pos_iff_any,
    ← countP_pos_iff_any]
  have := ht.agree.register_field (by omega)
  omega

/-- A digit takes the reg field, so it leaves no room for a place beside a register. -/
theorem WellFormed.hasPlace_of_digit (ht : t.WellFormed)
    (hr : t.operands.any Operand.isRegister = true) (hd : t.digit?.isSome = true) :
    t.hasPlace = false := by
  have hpos := countP_pos_iff_any.2 hr
  have hle := ht.agree.registers_le
  rw [digit?_isSome, ← countP_pos_iff_any] at hd
  have hzero := ht.agree.digit_place (by omega) hd
  by_contra hp
  have := countP_pos_iff_any.2 (eq_true_of_ne_false hp)
  omega

theorem place_of_hasPlace (hc : c.Fit t.operands) (h : t.hasPlace = false) : c.place = none := by
  rw [hasPlace, ← hc.place_isSome] at h
  simpa using h

section Register

variable {r : Register} (h : c.register = some r)

include h

theorem registerNumber?_of_fill (hfp : ¬ (t.hasFill = true ∧ t.hasPlace = true))
    (hc : c.Fit t.operands) (hf : t.hasFill = true) :
    t.registerNumber? (t.rex? c) (t.fillBits c) (t.field c) = some r.index := by
  obtain ⟨-, -, -, hB⟩ := t.any_rex? c
  -- there is no place beside the register, so the fourth bit is its own
  have hnone : c.place = none := by
    refine place_of_hasPlace hc ?_
    by_contra hp
    exact hfp ⟨hf, eq_true_of_ne_false hp⟩
  have hfill : (resolve t c).fill = some r := by simp [resolve, hf, h]
  have hp : (resolve t c).place = none := by simp [resolve_place_of_none hnone, hf]
  have hbit : t.rexB c = r.isExtended := by simp [rexB, hfill, hp]
  have hbits : t.fillBits c = some (r.index % 8) := by simp [fillBits, hf, hfill, toNat_low]
  simp [registerNumber?, hf, hbits, hB, hbit, r.isExtended_add_index]

theorem registerNumber?_of_digit (ht : t.WellFormed) (hc : c.Fit t.operands)
    (hf : t.hasFill = false) {d : UInt8} (hd : t.digit? = some d) :
    t.registerNumber? (t.rex? c) (t.fillBits c) (t.field c) = some r.index := by
  obtain ⟨-, -, -, hB⟩ := t.any_rex? c
  have hr : t.operands.any Operand.isRegister = true := by rw [← hc.register_isSome, h]; rfl
  have hnone := place_of_hasPlace hc (ht.hasPlace_of_digit hr (by rw [hd]; rfl))
  have hfill : (resolve t c).fill = none := by simp [resolve, hf]
  have hp : (resolve t c).place = some (.register r) := by
    simp [resolve_place_of_none hnone, hd, hf, h]
  have hbit : t.rexB c = r.isExtended := by simp [rexB, hfill, hp, Place.base]
  obtain ⟨reg, hfield⟩ : ∃ reg, t.field c = some (reg, .register (r.index % 8)) := by
    simp [field, hd, hp, Place.target]
  simp [registerNumber?, hfield, hf, hd, hB, hbit, r.isExtended_add_index]

theorem registerNumber?_of_place (hf : t.hasFill = false) (hd : t.digit? = none)
    (hp : t.hasPlace = true) :
    t.registerNumber? (t.rex? c) (t.fillBits c) (t.field c) = some r.index := by
  obtain ⟨-, hR, -, -⟩ := t.any_rex? c
  have hbit : t.rexR c = r.isExtended := by simp [rexR, hd, hf, h]
  have hreg : (resolve t c).reg = UInt8.ofNat r.index := by simp [resolve, hd, hf, h]
  have hnum : (resolve t c).reg.toNat % 8 = r.index % 8 := by
    rw [hreg, UInt8.toNat_ofNat']
    omega
  obtain ⟨target, hfield⟩ : ∃ target, t.field c = some (r.index % 8, target) := by
    simp [field, hp, hnum]
  simp [registerNumber?, hfield, hf, hd, hR, hbit, r.isExtended_add_index]

/-- **The number of the register operand is found**, wherever it is. -/
theorem registerNumber?_eq (ht : t.WellFormed) (hfp : ¬ (t.hasFill = true ∧ t.hasPlace = true))
    (hc : c.Fit t.operands) :
    t.registerNumber? (t.rex? c) (t.fillBits c) (t.field c) = some r.index := by
  have hr : t.operands.any Operand.isRegister = true := by rw [← hc.register_isSome, h]; rfl
  cases hf : t.hasFill with
  | true => exact registerNumber?_of_fill h hfp hc hf
  | false =>
    cases hd : t.digit? with
    | some d => exact registerNumber?_of_digit h ht hc hf hd
    | none =>
      have hp := ht.register_field hr
      simp only [hf, hd, Bool.false_eq_true, Option.isSome_none, false_or] at hp
      exact registerNumber?_of_place h hf hd hp

end Register

theorem registerOf_eq (ht : t.WellFormed) (hfp : ¬ (t.hasFill = true ∧ t.hasPlace = true))
    (hwidth : .register 0 ∉ t.operands) (hc : c.Fit t.operands) (hconf : t.conflicts c = false) :
    t.registerOf (t.rex? c) (t.fillBits c) (t.field c) = c.register := by
  cases h : c.register with
  | none =>
    have hbits : t.registerBits? = none := by
      have hany := hc.register_isSome
      rw [h, Option.isSome_none, eq_comm, List.any_eq_false] at hany
      rw [registerBits?, List.findSome?_eq_none_iff]
      intro o ho
      have := hany o ho
      cases o <;> simp_all [Operand.isRegister]
    rw [registerOf, hbits]
    rfl
  | some r =>
    obtain ⟨-, -, hne, -⟩ := hc.register r h
    have hmem : r ∈ c.registers := by simp [Captures.registers, h]
    rw [registerOf, registerBits?_eq ht hwidth hc h, registerNumber?_eq h ht hfp hc]
    exact Register.ofNumber?_index hne (isSome_rex?_of_isHighByte hconf hmem)
      (isSome_rex?_of_needsRex hmem)

theorem placeOf_eq (ht : t.WellFormed) (hfp : ¬ (t.hasFill = true ∧ t.hasPlace = true))
    (hc : c.Fit t.operands) (hconf : t.conflicts c = false) :
    t.placeOf (t.short c) (t.rex? c) (t.field c) = c.place.map Place.explicit := by
  have hplace : t.hasPlace = c.place.isSome := hc.place_isSome.symm
  cases h : c.place with
  | none => simp [placeOf, hplace, h]
  | some p =>
    have hnofill : t.hasFill = false := by
      simpa [hplace, h] using hfp
    have hp : (resolve t c).place = some p := resolve_place_of_some h
    have hfill : (resolve t c).fill = none := by simp [resolve, hnofill]
    have hmem : p.base ∈ c.registers := mem_registers_of_place hp
    have hbit : (t.rex? c).any Rex.b = p.base.isExtended := by
      rw [(t.any_rex? c).2.2.2, rexB, hp, hfill]
      simp
    have hbits : ∀ r, p = .register r → r.bits = t.placeBits?.getD 0 := by
      rintro r rfl
      rw [placeBits?_eq ht hc h]
      rfl
    have hshort : t.short c = (p.isMemory && p.base.bits == 32) := by simp [short, hp]
    have htarget := Place.place?_target (addressable_of_fit hc h) hbits hbit
      (isSome_rex?_of_isHighByte hconf hmem) (isSome_rex?_of_needsRex hmem)
    simp only [placeOf, field, hplace, h, hp, hshort, Option.isSome_some, Bool.true_or, if_true,
      Option.map_some, Option.getD_some, Option.bind_eq_bind, Option.bind_some, htarget]

/-- The layout of a template has what the template accepts. -/
theorem accepts_eq (ht : t.WellFormed) : t.accepts (t.rex? c) (t.field c) = true := by
  have hrex : ((t.rex? c).isSome || !t.hasRex) = true := by
    rw [isSome_rex?]
    cases t.hasRex <;> simp
  have hdigit : (t.digit?.all fun d => (t.field c).any (·.1 == d.toNat)) = true := by
    cases hd : t.digit? with
    | none => rfl
    | some d =>
      obtain ⟨p, hp, hpd⟩ := List.exists_of_findSome?_eq_some hd
      have hlt : d.toNat < 8 := by
        have := ht.program_sized p hp
        cases p <;> cases hpd
        exact UInt8.lt_iff_toNat_lt.1 this
      have hreg : (resolve t c).reg = d := by simp [resolve, hd]
      simp [field, hd, hreg, Nat.mod_eq_of_lt hlt]
  rw [accepts, (t.any_rex? c).1, hrex, hdigit]
  simp

/-! ### The whole instruction -/

/-- The bytes of the layout of a canonical template. -/
theorem bytes_layout (ht : t.WellFormed) (hc : c.Fit t.operands) {s : Shape} (hs : s.Usual)
    (hparts : s.parts = t.program) :
    (t.layout c).flatMap Piece.bytes =
      (if t.operandSize then [0x66] else []) ++ ((if t.short c then [0x67] else []) ++
        (t.prefixes ++ ((if t.hasRex || (resolve t c).forceRex then [(resolve t c).rex] else []) ++
          (t.opcode.map (resolve t c).opcodeByte ++
            ((resolve t c).modrmBytes (resolve t c).hasModrm ++
              numberBytes t.slots c.immediates))))) := by
  have hforce : (resolve t c).forceRex = true → s.rex = none := by
    intro h
    have := (of_forceRex h).1
    rw [hs.hasRex_eq hparts] at this
    simpa using this
  have hlen : c.immediates.length = (s.numbers.filterMap Part.slot?).length := by
    rw [← hs.slots_eq hparts, slots, ← ht.agree.slots]
    exact hc.length_immediates
  have hwalk := bytes_walk (resolve t c) hs hforce (resolve t c).hasModrm hlen
  rw [hparts, ← hs.prefixes_eq hparts, ← hs.hasRex_eq hparts, ← hs.opcode_eq hparts,
    ← hs.slots_eq hparts] at hwalk
  rw [layout, List.flatMap_append, hwalk, bytes_sizePieces, List.append_assoc]

/-- **The code of a canonical template reads back.** -/
theorem read_layout (ht : t.WellFormed) (hcan : t.Canonical) (hc : c.Fit t.operands)
    (hconf : t.conflicts c = false) (rest : List UInt8) :
    t.read ((t.layout c).flatMap Piece.bytes ++ rest) = some (c.operands, rest) := by
  obtain ⟨s, hs, hparts⟩ := hcan.shape
  obtain ⟨p, os, ho, hlead, hnofill⟩ := hcan.exists_lead
  -- what each stage leaves is where the next one starts, so they are described from the last one on
  have hnumbers := readNumbers_slots ht hc rest
  have hmodrm := readModrm_modrmBytes hc (numberBytes t.slots c.immediates ++ rest)
  have hopcode := readOpcode_opcode (c := c) hs hparts
    ((resolve t c).modrmBytes (resolve t c).hasModrm ++ (numberBytes t.slots c.immediates ++ rest))
  rw [ho, List.map_cons, List.cons_append] at hopcode
  have hrex := read_rex t c (opcodeByte_of_leads (resolve t c) hlead).1
    (os.map (resolve t c).opcodeByte ++ ((resolve t c).modrmBytes (resolve t c).hasModrm ++
      (numberBytes t.slots c.immediates ++ rest)))
  obtain ⟨b, bs, hhead, hb⟩ := exists_head (c := c) hlead hnofill
    (os.map (resolve t c).opcodeByte ++ ((resolve t c).modrmBytes (resolve t c).hasModrm ++
      (numberBytes t.slots c.immediates ++ rest)))
  have hprefixes := readPrefixes_append hc hb bs
  rw [← hhead] at hprefixes
  rw [bytes_layout ht hc hs hparts, ho]
  simp only [List.append_assoc, List.map_cons, List.cons_append, read, dropPrefix?_append,
    Option.bind_eq_bind, Option.bind_some, hprefixes, hrex, ho, hopcode, (t.any_rex? c).2.2.1,
    hmodrm, hnumbers, accepts_eq ht, if_true,
    registerOf_eq ht hcan.fill_place hcan.register_width hc hconf,
    placeOf_eq ht hcan.fill_place hc hconf]
  rfl

/-- **Reading undoes encoding.** Every built-in template is canonical; and a statement that matches
a canonical template of a row has code, which reads back to the captured operands, whatever bytes
follow it. -/
theorem read_emit :
    (∀ t ∈ Table.general.templates, t.Canonical) ∧
    ∀ (row : Row) (t : Template), row.compile = .ok t → t.Canonical →
      ∀ (tokens : List String) (c : Captures), t.capture tokens = .ok c →
        ∃ code, t.emit c = .ok code ∧
          ∀ rest, t.read (code.bytes ++ rest) = some (c.operands, rest) := by
  refine ⟨fun t => Table.canonical_general, ?_⟩
  intro row t hrow hcan tokens c hcap
  have ht := Row.wellFormed_of_compile hrow
  obtain ⟨hfit, hconf⟩ := fit_of_capture ht hcap
  obtain ⟨code, hemit, -⟩ := emit_of_fit ht hfit
  refine ⟨code, hemit, fun rest => ?_⟩
  rw [bytes_of_emit hemit]
  exact read_layout ht hcan hfit hconf rest

/-- Memory at a 32-bit base that takes a SIB byte, a displacement of one byte, and a byte register
that exists only beside a REX byte. -/
theorem read_emit_mov :
    let t : Template := ⟨"mov", [.place 8, .register 8], [.byte 0x88], false⟩
    let c : Captures := ⟨some (.low8 6), some (.memory (.r32 12) (some (-128))), [], 10⟩
    Row.compile ⟨"MOV r/m8, r8", "88 /r"⟩ = .ok t ∧ t.Canonical ∧
      t.capture ["mov", "byte", "ptr", "[", "r12d", "-", "128", "]", ",", "sil"] = .ok c ∧
      ∃ code, t.emit c = .ok code ∧ ∀ rest, t.read (code.bytes ++ rest) =
        some (⟨some (.low8 6), some (.memory (.r32 12) (some (-128))), []⟩, rest) := by
  intro t c
  have hrow : Row.compile ⟨"MOV r/m8, r8", "88 /r"⟩ = .ok t := by decide +kernel
  have hcan : t.Canonical := canonical_of_isCanonical (by decide +kernel)
  have hcap : t.capture ["mov", "byte", "ptr", "[", "r12d", "-", "128", "]", ",", "sil"] =
      .ok c := by decide +kernel
  exact ⟨hrow, hcan, hcap, read_emit.2 _ t hrow hcan _ c hcap⟩

end Template
end RowAsm
