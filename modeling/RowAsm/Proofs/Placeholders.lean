import RowAsm.Proofs.Order
import RowAsm.Proofs.Reading

/-!
# Numbers and their placeholders

The number operands of a row are the placeholders of its program, a match captures a number for each
number operand, and the walk through the program uses the numbers up one by one, with zero for a
missing one. So there are three lists that have to stay in step.

`Fields.walk_append_number` stops the walk at a placeholder: before it stands what the earlier parts
give, and the number in it is the one whose index is the number of placeholders before. For the
captures of a match there is always such a number, of the width of the placeholder
(`exists_number_of_append`), so its field reads back to it (`emit_numbers`).
-/

namespace RowAsm

namespace Part

theorem length_slots (prog : List Part) :
    (prog.filterMap slot?).length = prog.countP isNumber := List.length_filterMap_eq_countP

/-- A placeholder is found at the number of placeholders before it. -/
theorem getElem?_slots {p : Part} {s : Slot} (hp : p.slot? = some s) (pre post : List Part) :
    ((pre ++ p :: post).filterMap slot?)[pre.countP isNumber]? = some s := by
  rw [List.filterMap_append, List.filterMap_cons_some hp, ← length_slots,
    List.getElem?_append_right le_rfl, Nat.sub_self, List.getElem?_cons_zero]

end Part

namespace Fields

variable (f : Fields)

/-- **The walk at a placeholder.** What the parts before it give comes first, the ModR/M byte
included, and then the number whose index is the number of placeholders before. -/
theorem walk_append_number {p : Part} {s : Slot} (hp : p.slot? = some s) (rex modrm : Bool)
    (vs : List Int) (pre post : List Part) :
    f.walk rex modrm vs (pre ++ p :: post) =
      f.walk rex modrm vs pre ++
        .word .number (s.bits / 8) (vs[pre.countP Part.isNumber]?.getD 0) ::
          f.walk (rex && !pre.any Part.bringsRex) false
            (vs.drop (pre.countP Part.isNumber + 1)) post := by
  induction pre generalizing rex modrm vs with
  | nil => cases p <;> cases hp <;> simp [walk, List.head?_eq_getElem?]
  | cons q pre ih =>
    cases q with
    | byte b =>
      -- a pending REX byte stays pending at a prefix byte
      cases hb : isPrefixByte b <;> cases rex <;>
        simp [walk, hb, ih, Part.bringsRex, Part.isNumber, Part.slot?]
    | fill b => cases rex <;> simp [walk, ih, Part.bringsRex, Part.isNumber, Part.slot?]
    | digit d => simp [walk, ih, Part.bringsRex, Part.isNumber, Part.slot?]
    | rex w => simp [walk, ih, Part.bringsRex, Part.isNumber, Part.slot?]
    | immediate bits | relative bits =>
      -- one number is used up, and no ModR/M byte is pending after it
      rw [List.countP_cons_of_pos rfl]
      cases vs <;> simp [walk, ih, Part.bringsRex]

end Fields

theorem exists_getElem?_of_forall₂ {α β : Type} {R : α → β → Prop} {l : List α} {k : List β}
    (h : List.Forall₂ R l k) {i : Nat} {a : α} (ha : l[i]? = some a) :
    ∃ b, k[i]? = some b ∧ R a b := by
  obtain ⟨hi, rfl⟩ := List.getElem?_eq_some_iff.1 ha
  have hk : i < k.length := h.length_eq ▸ hi
  exact ⟨k[i], List.getElem?_eq_getElem hk, h.get hi hk⟩

namespace Template

open Fields

variable {t : Template} {c : Captures}

/-- The layout up to a number that follows the parts `pre` of the program. -/
def layoutBefore (t : Template) (c : Captures) (pre : List Part) : List Piece :=
  let f := resolve t c
  f.sizePieces t.operandSize ++ f.walk f.forceRex f.hasModrm c.immediates pre

/-- Every placeholder of a program has a number of its width among the captures. -/
theorem exists_number_of_append (ht : t.WellFormed) (hc : c.Fit t.operands) {pre post : List Part}
    {p : Part} {s : Slot} (h : t.program = pre ++ p :: post) (hp : p.slot? = some s) :
    ∃ v, c.immediates[pre.countP Part.isNumber]? = some v ∧ Word.isSigned s.bits v = true := by
  have hfit := hc.immediates
  rw [ht.agree.slots, h] at hfit
  exact exists_getElem?_of_forall₂ hfit (Part.getElem?_slots hp pre post)

/-- The layout at a placeholder. -/
theorem layout_append_number {pre post : List Part} {p : Part} {s : Slot}
    (h : t.program = pre ++ p :: post) (hp : p.slot? = some s) {v : Int}
    (hv : c.immediates[pre.countP Part.isNumber]? = some v) :
    ∃ after, t.layout c = t.layoutBefore c pre ++ .word .number (s.bits / 8) v :: after := by
  have hwalk := walk_append_number (resolve t c) hp (resolve t c).forceRex (resolve t c).hasModrm
    c.immediates pre post
  rw [hv, Option.getD_some] at hwalk
  rw [layout, h, hwalk, layoutBefore]
  exact ⟨_, (List.append_assoc _ _ _).symm⟩

/-- **Numbers stand in their placeholders.** Take a statement that matches the template of a row.
There are as many captured numbers as placeholders in the program, and the placeholders are the
number operands in kind, width and order. The statement has code, and at each placeholder of the
program, after the bytes of the parts before it, there stands a field of the width of the
placeholder. Its signed value is the captured number of the same index, so none is missing. -/
theorem emit_numbers (row : Row) (t : Template) (hrow : row.compile = .ok t)
    (tokens : List String) (c : Captures) (hcap : t.capture tokens = .ok c) :
    c.immediates.length = t.program.countP Part.isNumber ∧
    t.operands.filterMap Operand.slot? = t.program.filterMap Part.slot? ∧
    ∃ code, t.emit c = .ok code ∧
      ∀ pre p post s, t.program = pre ++ p :: post → p.slot? = some s →
        (t.operands.filterMap Operand.slot?)[pre.countP Part.isNumber]? = some s ∧
        ∃ v, c.immediates[pre.countP Part.isNumber]? = some v ∧
        ∃ field after, code.bytes = (t.layoutBefore c pre).flatMap Piece.bytes ++ (field ++ after) ∧
          field.length = s.bits / 8 ∧ Word.signed field = v := by
  have ht := Row.wellFormed_of_compile hrow
  have hfit := (fit_of_capture ht hcap).1
  have hslots := ht.agree.slots
  obtain ⟨code, hemit, -⟩ := emit_of_fit ht hfit
  refine ⟨?_, hslots, code, hemit, ?_⟩
  · rw [hfit.length_immediates, hslots, Part.length_slots]
  · intro pre p post s hprog hp
    refine ⟨?_, ?_⟩
    · rw [hslots, hprog]
      exact Part.getElem?_slots hp pre post
    · obtain ⟨v, hv, hsigned⟩ := exists_number_of_append ht hfit hprog hp
      obtain ⟨after, hlayout⟩ := layout_append_number hprog hp hv
      have hmem : s ∈ t.slots := List.mem_filterMap.2 ⟨p, by simp [hprog], hp⟩
      obtain ⟨hpos, hbits⟩ := (ht.isWidth_of_mem_slots hmem).bytes
      refine ⟨v, hv, Word.littleEndian (s.bits / 8) v, after.flatMap Piece.bytes, ?_, ?_, ?_⟩
      · rw [bytes_of_emit hemit, hlayout, List.flatMap_append, List.flatMap_cons]
        rfl
      · exact Word.length_littleEndian _ v
      · rw [← hbits] at hsigned
        exact Word.signed_littleEndian hpos hsigned

/-- Two numbers of different widths with an opcode byte between them, and a ModR/M byte before the
first. -/
theorem emit_numbers_foo :
    let t : Template := ⟨"foo", [.immediate 16, .immediate 8],
      [.byte 0xC8, .digit 2, .immediate 16, .byte 0x90, .immediate 8], false⟩
    let c : Captures := ⟨none, none, [-2, 127], 5⟩
    Row.compile ⟨"FOO imm16, imm8", "C8 /2 iw 90 ib"⟩ = .ok t ∧
      t.capture ["foo", "-", "2", ",", "0x7F"] = .ok c ∧
      ∃ code, t.emit c = .ok code ∧ code.bytes = [0xC8, 0xD2, 0xFE, 0xFF, 0x90, 0x7F] ∧
        ∃ field after, code.bytes = [0xC8, 0xD2, 0xFE, 0xFF, 0x90] ++ (field ++ after) ∧
          field.length = 1 ∧ Word.signed field = 127 := by
  intro t c
  have hrow : Row.compile ⟨"FOO imm16, imm8", "C8 /2 iw 90 ib"⟩ = .ok t := by decide +kernel
  have hcap : t.capture ["foo", "-", "2", ",", "0x7F"] = .ok c := by decide +kernel
  obtain ⟨-, -, code, hemit, hfields⟩ := emit_numbers _ t hrow _ c hcap
  obtain ⟨-, v, hv, hfield⟩ :=
    hfields [.byte 0xC8, .digit 2, .immediate 16, .byte 0x90] (.immediate 8) [] ⟨false, 8⟩ rfl rfl
  cases hv
  have hbefore : (t.layoutBefore c [.byte 0xC8, .digit 2, .immediate 16, .byte 0x90]).flatMap
      Piece.bytes = [0xC8, 0xD2, 0xFE, 0xFF, 0x90] := by decide +kernel
  rw [hbefore] at hfield
  refine ⟨hrow, hcap, code, hemit, ?_, hfield⟩
  rw [bytes_of_emit hemit]
  decide +kernel

end Template
end RowAsm
