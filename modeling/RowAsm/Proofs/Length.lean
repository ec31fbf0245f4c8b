import RowAsm.Code.Layout
import RowAsm.Proofs.Capture

/-!
# The length of an instruction

The number of bytes of a layout is computed exactly (`length_layout`): the size bytes, the parts of
the program, a REX byte that the program does not place, and the ModR/M byte with what belongs to
it. For captures that fit the operands it is at most `Row.maxLength` (`length_layout_le`), so a well
formed template always lays out its instruction within 15 bytes, and in at least one
(`emit_of_fit`).
-/

namespace RowAsm

/-! ### Putting pieces together -/

namespace Piece

/-- A number that a field can hold: at most eight bytes. -/
def Short : Piece → Prop
  | .byte _ _ => True
  | .word _ size _ => size ≤ 8

theorem exists_appendTo {c : Code} {p : Piece} (hp : p.Short)
    (h : c.bytes.length + p.bytes.length ≤ 15) : ∃ d, appendTo c p = .ok d := by
  cases p with
  | byte r b =>
    have hlt : c.bytes.length < 15 := by simpa [bytes] using h
    exact ⟨_, by rw [appendTo, Code.push, dif_pos hlt]⟩
  | word r size v =>
    have hle : c.bytes.length + (Word.littleEndian size v).length ≤ 15 := h
    exact ⟨_, by rw [appendTo, if_pos (show size ≤ 8 from hp), Code.extend, dif_pos hle]⟩

/-- Pieces that fit together in 15 bytes can be put together. -/
theorem exists_foldlM {ps : List Piece} {c : Code} (hp : ∀ p ∈ ps, p.Short)
    (h : c.bytes.length + (ps.flatMap bytes).length ≤ 15) : ∃ d, ps.foldlM appendTo c = .ok d := by
  induction ps generalizing c with
  | nil => exact ⟨c, rfl⟩
  | cons p ps ih =>
    rw [List.flatMap_cons, List.length_append] at h
    obtain ⟨d, hd⟩ := exists_appendTo (c := c) (hp p (by simp)) (by omega)
    rw [List.foldlM_cons, hd]
    refine ih (fun q hq => hp q (by simp [hq])) ?_
    rw [bytes_of_appendTo hd, List.length_append]
    omega

end Piece

/-! ### The pieces of a program -/

/-- The parts before which a REX byte is put that the program does not place. -/
def Part.bringsRex : Part → Bool
  | .byte b => !Fields.isPrefixByte b
  | .fill _ => true
  | _ => false

/-- A number field of the part has at most 64 bits. -/
def Part.Narrow (p : Part) : Prop := ∀ s ∈ p.slot?, s.bits ≤ 64

instance (p : Part) : Decidable p.Narrow := inferInstanceAs (Decidable (∀ s ∈ p.slot?, s.bits ≤ 64))

theorem Part.Sized.narrow {p : Part} (h : p.Sized) : p.Narrow := by
  intro s hs
  cases p with
  | immediate bits | relative bits =>
    cases hs
    rcases h with rfl | rfl | rfl | rfl <;> decide
  | _ => cases hs

namespace Fields

variable (f : Fields)

/-- The number of bytes of the ModR/M byte and what belongs to it. -/
def modrmLength : Nat := (f.modrmPieces.flatMap Piece.bytes).length

/-- The number of bytes of the pieces of a program: every part has its own, a pending REX byte comes
before the first part that brings it, and the ModR/M byte comes once. -/
theorem length_walk (rex modrm : Bool) (vs : List Int) (prog : List Part) :
    ((f.walk rex modrm vs prog).flatMap Piece.bytes).length =
      Row.partsLength prog + (rex && prog.any Part.bringsRex).toNat +
        (if modrm then f.modrmLength else 0) := by
  induction prog generalizing rex modrm vs with
  | nil => cases modrm <;> simp [walk, Row.partsLength, modrmLength]
  | cons p prog ih =>
    cases p with
    | byte b =>
      -- a pending REX byte stays pending at a prefix byte
      cases hb : isPrefixByte b <;> cases rex <;>
        simp [walk, hb, ih, Piece.bytes, Part.bringsRex, Row.partsLength, Row.partLength] <;> omega
    | fill b =>
      cases rex <;>
        simp [walk, ih, Piece.bytes, Part.bringsRex, Row.partsLength, Row.partLength] <;> omega
    | digit d => simp [walk, ih, Part.bringsRex, Row.partsLength, Row.partLength]
    | rex w =>
      simp [walk, ih, Piece.bytes, Part.bringsRex, Row.partsLength, Row.partLength]
      omega
    | immediate bits | relative bits =>
      cases modrm <;>
        simp [walk, ih, Piece.bytes, Part.bringsRex, Row.partsLength, Row.partLength,
          modrmLength] <;> omega

theorem length_displacementPieces (mode : Mode) (d : Int) :
    ((displacementPieces mode d).flatMap Piece.bytes).length = mode.displacementLength := by
  cases mode <;> simp [displacementPieces, Piece.bytes, Mode.displacementLength]

theorem length_memoryPieces_le (reg : UInt8) (base : Register) (d : Int) :
    ((memoryPieces reg base d).flatMap Piece.bytes).length ≤ 6 := by
  have hmode : ∀ mode : Mode, mode.displacementLength ≤ 4 := by intro mode; cases mode <;> decide
  unfold memoryPieces
  split_ifs
  · simp [Piece.bytes]
  · have := hmode (memoryMode base d)
    rw [List.flatMap_cons, List.flatMap_append, List.length_append, List.length_append,
      length_displacementPieces]
    simp [Piece.bytes]
    omega
  · have := hmode (memoryMode base d)
    rw [List.flatMap_cons, List.flatMap_append, List.length_append, List.length_append,
      length_displacementPieces]
    simp [Piece.bytes]
    omega

/-- A ModR/M byte stands alone, but for a memory operand. -/
theorem modrmLength_le : f.modrmLength ≤ if f.place.any Place.isMemory then 6 else 1 := by
  unfold modrmLength modrmPieces
  split
  · rename_i h; simp [h, Piece.bytes]
  · rename_i h; simp [h, Piece.bytes, Place.isMemory]
  · rename_i h
    simp only [h, Option.any_some, Place.isMemory, if_true]
    exact length_memoryPieces_le _ _ _

/-! ### Where the operands go -/

variable {t : Template} {c : Captures}

/-- Memory in the r/m field was captured as such. -/
theorem isMemory_of_place_none (h : c.place = none) :
    (resolve t c).place.any Place.isMemory = false := by
  cases hr : (if t.hasFill = true then none else c.register) <;>
    cases hd : t.digit?.isSome <;> simp [resolve, h, hr, hd, Place.isMemory]

theorem addressSize_of_not_memory {f : Fields} (h : f.place.any Place.isMemory = false) :
    (f.place.any fun p => p.isMemory && p.base.bits == 32) = false := by
  cases hp : f.place <;> simp_all

/-- A REX byte is forced by a captured register only, and only where the program places none. -/
theorem of_forceRex (h : (resolve t c).forceRex = true) :
    t.hasRex = false ∧ (c.place.isSome = true ∨ c.register.isSome = true) := by
  simp only [resolve, Bool.and_eq_true, Bool.not_eq_true'] at h
  refine ⟨h.1, ?_⟩
  by_contra hn
  obtain ⟨hp, hr⟩ : c.place = none ∧ c.register = none := by simpa using hn
  simp [hp, hr, Captures.registers] at h

theorem resolve_hasModrm (t : Template) (c : Captures) :
    (resolve t c).hasModrm = (c.place.isSome || t.digit?.isSome) := by
  cases hp : c.place with
  | some p => simp [resolve, hp]
  | none => cases hd : t.digit? <;> simp [resolve, hp, hd]

theorem length_sizePieces (f : Fields) (operandSize : Bool) :
    ((f.sizePieces operandSize).flatMap Piece.bytes).length = operandSize.toNat +
      (f.place.any fun p => p.isMemory && p.base.bits == 32).toNat := by
  cases operandSize <;>
    cases h : f.place.any (fun p => p.isMemory && p.base.bits == 32) <;>
    simp [sizePieces, h, Piece.bytes]

/-! ### Widths of number fields -/

theorem short_modrmPieces (f : Fields) : ∀ p ∈ f.modrmPieces, p.Short := by
  have hdisp : ∀ mode d, ∀ p ∈ displacementPieces mode d, p.Short := by
    intro mode d p hp
    cases mode <;> simp [displacementPieces] at hp <;> simp [hp, Piece.Short]
  intro p hp
  unfold modrmPieces memoryPieces at hp
  split at hp
  · simp at hp
    simp [hp, Piece.Short]
  · simp at hp
    simp [hp, Piece.Short]
  · split_ifs at hp
    · simp at hp
      rcases hp with rfl | rfl <;> simp [Piece.Short]
    · simp at hp
      rcases hp with rfl | rfl | hp
      · trivial
      · trivial
      · exact hdisp _ _ p hp
    · simp at hp
      rcases hp with rfl | hp
      · trivial
      · exact hdisp _ _ p hp

theorem short_walk (f : Fields) {prog : List Part} (hprog : ∀ p ∈ prog, p.Narrow)
    (rex modrm : Bool) (vs : List Int) : ∀ q ∈ f.walk rex modrm vs prog, q.Short := by
  have hmod : ∀ q ∈ (if modrm then f.modrmPieces else []), q.Short := by
    split_ifs
    · exact short_modrmPieces f
    · simp
  induction prog generalizing rex modrm vs with
  | nil => simpa [walk] using hmod
  | cons p prog ih =>
    have ih' := fun r m v h => ih (fun q hq => hprog q (by simp [hq])) r m v h
    have hp := hprog p (by simp)
    intro q hq
    cases p with
    | byte b =>
      simp only [walk] at hq
      split_ifs at hq
      · simp at hq
        rcases hq with rfl | rfl | hq
        · trivial
        · trivial
        · exact ih' _ _ _ hmod q hq
      · simp at hq
        rcases hq with rfl | hq
        · trivial
        · exact ih' _ _ _ hmod q hq
    | fill b =>
      simp only [walk, List.mem_append, List.mem_cons] at hq
      rcases hq with hq | rfl | hq
      · split_ifs at hq
        · simp at hq
          simp [hq, Piece.Short]
        · simp at hq
      · trivial
      · exact ih' _ _ _ hmod q hq
    | digit d => exact ih' _ _ _ hmod q (by simpa [walk] using hq)
    | rex w =>
      simp only [walk, List.mem_cons] at hq
      rcases hq with rfl | hq
      · trivial
      · exact ih' _ _ _ hmod q hq
    | immediate bits | relative bits =>
      have hbits : bits ≤ 64 := hp _ rfl
      simp only [walk, List.mem_append, List.mem_cons] at hq
      rcases hq with hq | rfl | hq
      · exact hmod q hq
      · show bits / 8 ≤ 8
        omega
      · exact ih' _ _ _ (by simp) q hq

end Fields

theorem Row.partsLength_pos {prog : List Part} (h : prog.any Part.isOpcode = true) :
    0 < partsLength prog := by
  induction prog with
  | nil => cases h
  | cons p prog ih =>
    rw [List.any_cons, Bool.or_eq_true] at h
    rcases h with h | h
    · cases p <;> simp_all [Part.isOpcode, partsLength, partLength]
    · have := ih h
      rw [partsLength]
      omega

namespace Template

open Fields

variable {t : Template} {c : Captures}

theorem digit?_isSome (t : Template) : t.digit?.isSome = t.program.any Part.isDigit := by
  unfold digit?
  induction t.program with
  | nil => rfl
  | cons p ps ih => cases p <;> simp_all [Part.isDigit]

/-- The number of bytes of a layout. -/
theorem length_layout (t : Template) (c : Captures) :
    ((t.layout c).flatMap Piece.bytes).length =
      t.operandSize.toNat +
        ((resolve t c).place.any fun p => p.isMemory && p.base.bits == 32).toNat +
        (Row.partsLength t.program +
          ((resolve t c).forceRex && t.program.any Part.bringsRex).toNat +
          if (resolve t c).hasModrm then (resolve t c).modrmLength else 0) := by
  rw [layout, List.flatMap_append, List.length_append, length_sizePieces, length_walk]

/-- **The bound of a row bounds every layout**: no captures of its operands exceed it. -/
theorem length_layout_le (hc : c.Fit t.operands) :
    ((t.layout c).flatMap Piece.bytes).length ≤
      Row.maxLength t.operands t.program t.operandSize := by
  have hrex : ((resolve t c).forceRex && t.program.any Part.bringsRex).toNat ≤
      if (t.operands.any Operand.isPlace || t.operands.any Operand.isRegister) &&
        !t.program.any Part.isRex then 1 else 0 := by
    cases h : (resolve t c).forceRex with
    | false => simp
    | true =>
      obtain ⟨h1, h2⟩ := of_forceRex h
      rw [hc.place_isSome, hc.register_isSome] at h2
      rw [if_pos]
      · exact Bool.toNat_le _
      · rw [Bool.and_eq_true, Bool.or_eq_true, Bool.not_eq_true']
        exact ⟨h2, h1⟩
  rw [length_layout, Row.maxLength]
  cases hp : t.operands.any Operand.isPlace with
  | true =>
    -- the place accounts for `67`, the ModR/M byte, a SIB byte and four bytes of displacement
    have h67 := Bool.toNat_le ((resolve t c).place.any fun p => p.isMemory && p.base.bits == 32)
    have hmod : (if (resolve t c).hasModrm then (resolve t c).modrmLength else 0) ≤ 6 := by
      have := (resolve t c).modrmLength_le
      split_ifs at this ⊢ <;> omega
    simp only [hp, Bool.true_or, if_true, Bool.toNat_true] at hrex ⊢
    omega
  | false =>
    -- without a place there is no memory, so a ModR/M byte is a digit's and stands alone
    have hnone : c.place = none := by simpa [hp] using hc.place_isSome
    have hmem := isMemory_of_place_none (t := t) hnone
    have hmod : (if (resolve t c).hasModrm then (resolve t c).modrmLength else 0) ≤
        (t.program.any Part.isDigit).toNat := by
      have hle := (resolve t c).modrmLength_le
      rw [hmem] at hle
      rw [resolve_hasModrm, hnone, digit?_isSome]
      cases t.program.any Part.isDigit
      · simp
      · simpa using hle
    simp only [hp, addressSize_of_not_memory hmem, Bool.false_or, Bool.toNat_false] at hrex ⊢
    simp only [Bool.false_eq_true, if_false]
    omega

theorem short_layout (hprog : ∀ p ∈ t.program, p.Narrow) : ∀ q ∈ t.layout c, q.Short := by
  intro q hq
  simp only [layout, List.mem_append] at hq
  rcases hq with hq | hq
  · simp only [sizePieces, List.mem_append] at hq
    rcases hq with hq | hq <;> split_ifs at hq <;> simp at hq <;> simp [hq, Piece.Short]
  · exact short_walk _ hprog _ _ _ q hq

/-- **A well formed template lays out its instruction**: there is code, of one to fifteen bytes. -/
theorem emit_of_fit (ht : t.WellFormed) (hc : c.Fit t.operands) :
    ∃ code, t.emit c = .ok code ∧ 1 ≤ code.size := by
  have hle := (length_layout_le hc).trans ht.maxLength_le
  obtain ⟨code, hcode⟩ := Piece.exists_foldlM (c := .empty)
    (short_layout (c := c) fun p hp => (ht.program_sized p hp).narrow)
    (by simpa [Code.empty] using hle)
  refine ⟨code, hcode, ?_⟩
  have hpos := Row.partsLength_pos ht.agree.opcode
  rw [Code.size, bytes_of_emit hcode, length_layout]
  omega

theorem exists_emit (ht : t.WellFormed) {tokens : List String} (h : t.capture tokens = .ok c) :
    ∃ code, t.emit c = .ok code ∧ 1 ≤ code.size :=
  emit_of_fit ht (fit_of_capture ht h).1

end Template
end RowAsm
