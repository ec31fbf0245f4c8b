import RowAsm.Code.Layout
import RowAsm.Proofs.Capture
import RowAsm.Proofs.Decode

/-!
# Addressing

The ModR/M byte of a layout, with its SIB byte and its displacement, reads back: `read_modrmPieces`
gives the reg field and the target of the place, and `place?_target` the place, once the fourth bits
of the registers come from a REX byte.
-/

namespace RowAsm

/-! ### Bytes with fields -/

theorem Byte.and_seven (b : UInt8) : b &&& 7 = UInt8.ofNat (b.toNat % 8) := by
  apply UInt8.toNat_inj.1
  rw [UInt8.toNat_and, UInt8.toNat_ofNat']
  have h := Nat.and_two_pow_sub_one_eq_mod b.toNat 3
  simp at h ⊢
  omega

namespace Fields

theorem modrmByte_of_lt : ∀ (mode : Mode) (i j : Fin 8),
    let b := modrmByte mode (UInt8.ofNat i) (UInt8.ofNat j)
    Byte.top b = mode.bits.toNat ∧ Byte.middle b = i ∧ Byte.bottom b = j := by
  intro mode
  cases mode <;> decide

/-- The ModR/M byte has the mode in its top bits, the reg field in the middle and the r/m field at
the bottom. -/
theorem fields_modrmByte (mode : Mode) (reg rm : UInt8) :
    Byte.top (modrmByte mode reg rm) = mode.bits.toNat ∧
      Byte.middle (modrmByte mode reg rm) = reg.toNat % 8 ∧
      Byte.bottom (modrmByte mode reg rm) = rm.toNat % 8 := by
  -- the byte keeps three bits of each field, so the fields below eight are all there are
  have h := modrmByte_of_lt mode ⟨reg.toNat % 8, Nat.mod_lt _ (by decide)⟩
    ⟨rm.toNat % 8, Nat.mod_lt _ (by decide)⟩
  have hand : modrmByte mode (UInt8.ofNat (reg.toNat % 8)) (UInt8.ofNat (rm.toNat % 8)) =
      modrmByte mode reg rm := by
    rw [modrmByte, modrmByte, ← Byte.and_seven, ← Byte.and_seven, UInt8.and_assoc, UInt8.and_assoc,
      show (7 : UInt8) &&& 7 = 7 from rfl]
  simpa [hand] using h

theorem rex_rexByte (w r b : Bool) : Rex.ofByte? (rexByte w r b) = some ⟨w, r, false, b⟩ := by
  cases w <;> cases r <;> cases b <;> decide

theorem toNat_low (r : Register) : (low r).toNat = r.index % 8 := by
  rw [low, UInt8.toNat_ofNat']
  have := Nat.mod_lt r.index (show 0 < 8 by decide)
  omega

theorem low_eq_iff {r : Register} {x : UInt8} : low r = x ↔ r.index % 8 = x.toNat := by
  rw [← toNat_low, UInt8.toNat_inj]

end Fields

/-! ### Registers -/

namespace Register

theorem index_lt (r : Register) : r.index < 16 := by
  cases r with
  | high8 i => have := i.isLt; simp only [index]; omega
  | rip => decide
  | r64 i => exact i.isLt
  | r32 i => exact i.isLt
  | r16 i => exact i.isLt
  | low8 i => exact i.isLt

/-- The fourth bit and the low three bits make up the number of a register. -/
theorem isExtended_add_index (r : Register) :
    r.isExtended.toNat * 8 + r.index % 8 = r.index := by
  have := r.index_lt
  by_cases h : 8 ≤ r.index
  · simp [isExtended, h]
    omega
  · simp [isExtended, h]
    omega

/-- A register is found by its width and its number, if there is a REX byte where it needs one and
none where it rules one out. -/
theorem ofNumber?_index {r : Register} {rex : Bool} (hne : r ≠ rip)
    (hhigh : r.isHighByte = true → rex = false) (hlow : r.needsRex = true → rex = true) :
    ofNumber? r.bits rex r.index = some r := by
  cases r with
  | rip => exact absurd rfl hne
  | r64 i => simp [ofNumber?, bits, index]
  | r32 i => simp [ofNumber?, bits, index]
  | r16 i => simp [ofNumber?, bits, index]
  | low8 i =>
    have h : ¬ (rex = false ∧ 4 ≤ i.val ∧ i.val < 8) := by
      rintro ⟨hrex, hi⟩
      have := hlow (by simp [needsRex, hi])
      simp [hrex] at this
    exact (if_neg h).trans (by simp [index])
  | high8 i =>
    have h : rex = false ∧ 4 ≤ i.val + 4 ∧ i.val + 4 < 8 :=
      ⟨hhigh rfl, by omega, by omega⟩
    refine (if_pos h).trans (congrArg (some <| high8 ·) (Fin.ext ?_))
    simp [index]

end Register

/-! ### Targets -/

namespace Place

/-- What the ModR/M byte of a place points at; a missing displacement counts as zero. -/
def target : Place → Target
  | .register r => .register (r.index % 8)
  | .memory .rip d => .relative (d.getD 0)
  | .memory b d => .memory (b.index % 8) (d.getD 0)

/-- The place with its displacement written out. -/
def explicit : Place → Place
  | .register r => .register r
  | .memory b d => .memory b (some (d.getD 0))

/-- The places that a ModR/M byte can stand for: a general register, or memory at a register of 32
or 64 bits and a displacement of 32 bits. -/
def Addressable : Place → Prop
  | .register r => r ≠ .rip
  | .memory b d => b.IsBase ∧ Word.isSigned 32 (d.getD 0) = true

theorem target_memory {b : Register} (h : b ≠ .rip) (d : Option Int) :
    (Place.memory b d).target = .memory (b.index % 8) (d.getD 0) := by
  cases b <;> first | rfl | exact absurd rfl h

end Place

namespace Fields

/-- The modes in which memory is laid out. -/
theorem memoryMode_cases (b : Register) (d : Int) :
    (memoryMode b d = .base ∧ d = 0 ∧ b.index % 8 ≠ 5) ∨
      (memoryMode b d = .disp8 ∧ Word.isSigned 8 d = true) ∨ memoryMode b d = .disp32 := by
  have hlow : low b = 5 ↔ b.index % 8 = 5 := low_eq_iff
  unfold memoryMode Mode.ofDisplacement
  by_cases h0 : d = 0
  · subst h0
    by_cases h5 : low b = 5
    · exact Or.inr (Or.inl ⟨by simp [h5], by decide⟩)
    · exact Or.inl ⟨by simp [h5], rfl, fun h => h5 (hlow.2 h)⟩
  · by_cases hd : -128 ≤ d ∧ d < 128
    · refine Or.inr (Or.inl ⟨by simp [h0, hd], ?_⟩)
      simp only [Word.isSigned, Bool.and_eq_true, decide_eq_true_eq]
      exact hd
    · exact Or.inr (Or.inr (by simp [h0, hd]))

/-- The displacement of the mode that memory is laid out in reads back. -/
theorem read_displacementPieces {b : Register} {d : Int} (hd : Word.isSigned 32 d = true)
    (rest : List UInt8) :
    Word.read (Target.displacementSize (memoryMode b d).bits.toNat)
      ((displacementPieces (memoryMode b d) d).flatMap Piece.bytes ++ rest) = some (d, rest) := by
  rcases memoryMode_cases b d with ⟨h, rfl, -⟩ | ⟨h, h8⟩ | h
  · rw [h, show Target.displacementSize Mode.base.bits.toNat = 0 by decide]
    simp [Word.read, displacementPieces, Word.signed, Word.unsigned]
  · rw [h]
    exact Word.read_littleEndian 1 (by decide) h8 rest
  · rw [h, show Target.displacementSize Mode.disp32.bits.toNat = 4 by decide]
    simpa [displacementPieces, Piece.bytes] using
      Word.read_littleEndian 4 (by decide) hd rest

/-- **The ModR/M byte of memory reads back**, with its SIB byte and its displacement. -/
theorem read_memoryPieces (reg : UInt8) {b : Register} (hb : b ≠ .rip) {d : Int}
    (hd : Word.isSigned 32 d = true) (rest : List UInt8) :
    Target.read false ((memoryPieces reg b d).flatMap Piece.bytes ++ rest) =
      some ((reg.toNat % 8, .memory (b.index % 8) d), rest) := by
  obtain ⟨htop, hmiddle, hbottom⟩ := fields_modrmByte (memoryMode b d) reg (low b)
  rw [toNat_low, Nat.mod_mod] at hbottom
  have hdisp := read_displacementPieces (b := b) hd rest
  have hlow : low b = 4 ↔ b.index % 8 = 4 := low_eq_iff
  have hmode : (memoryMode b d).bits.toNat ≠ 3 ∧
      ¬ ((memoryMode b d).bits.toNat = 0 ∧ b.index % 8 = 5) := by
    rcases memoryMode_cases b d with ⟨h, -, h5⟩ | ⟨h, -⟩ | h
    · exact ⟨by rw [h]; decide, fun h' => h5 h'.2⟩
    · rw [h]
      exact ⟨by decide, fun h' => absurd h'.1 (by decide)⟩
    · rw [h]
      exact ⟨by decide, fun h' => absurd h'.1 (by decide)⟩
  simp only [memoryPieces, if_neg hb, List.flatMap_cons, Piece.bytes, List.cons_append,
    List.nil_append, Target.read, htop, hmiddle, hbottom, if_neg hmode.1, if_neg hmode.2]
  by_cases h4 : b.index % 8 = 4
  · -- the r/m field `100` asks for a SIB byte, which has the same bits as its base
    have hsib : Target.readSib (memoryMode b d).bits.toNat false
        (plainSib :: ((displacementPieces (memoryMode b d) d).flatMap Piece.bytes ++ rest)) =
        some (4, (displacementPieces (memoryMode b d) d).flatMap Piece.bytes ++ rest) := by
      have hs : Byte.middle plainSib = 4 ∧ Byte.bottom plainSib = 4 := by decide
      simp [Target.readSib, hs]
    simp [hlow.2 h4, h4, hsib, hdisp, Piece.bytes]
  · simp [hlow, h4, hdisp]

/-- **The ModR/M byte of a layout reads back**, with what belongs to it. -/
theorem read_modrmPieces {f : Fields} {p : Place} (hp : f.place = some p) (ha : p.Addressable)
    (rest : List UInt8) :
    Target.read false (f.modrmPieces.flatMap Piece.bytes ++ rest) =
      some ((f.reg.toNat % 8, p.target), rest) := by
  cases p with
  | register r =>
    obtain ⟨htop, hmiddle, hbottom⟩ := fields_modrmByte .direct f.reg (UInt8.ofNat r.index)
    have hr : (UInt8.ofNat r.index).toNat % 8 = r.index % 8 := by
      rw [UInt8.toNat_ofNat']
      omega
    rw [hr] at hbottom
    simp [modrmPieces, hp, Piece.bytes, Target.read, htop, hmiddle, hbottom, Place.target,
      Mode.bits]
  | memory b d =>
    by_cases hb : b = .rip
    · subst hb
      obtain ⟨htop, hmiddle, hbottom⟩ := fields_modrmByte .base f.reg 5
      have hd := Word.read_littleEndian 4 (by decide) ha.2 rest
      simp [modrmPieces, hp, memoryPieces, Piece.bytes, Target.read, htop, hmiddle, hbottom,
        Place.target, Mode.bits, hd]
    · rw [Place.target_memory hb, modrmPieces, hp]
      exact read_memoryPieces f.reg hb ha.2 rest

/-- Where a digit stands without an operand, the r/m field repeats it. -/
theorem read_modrmPieces_none {f : Fields} (hp : f.place = none) (rest : List UInt8) :
    Target.read false (f.modrmPieces.flatMap Piece.bytes ++ rest) =
      some ((f.reg.toNat % 8, .register (f.reg.toNat % 8)), rest) := by
  obtain ⟨htop, hmiddle, hbottom⟩ := fields_modrmByte .direct f.reg f.reg
  simp [modrmPieces, hp, Piece.bytes, Target.read, htop, hmiddle, hbottom, Mode.bits]

end Fields

/-- **The target of a place gives the place back**, with the fourth bit of its register in the REX
byte and the width of its base in the address size. -/
theorem Place.place?_target {p : Place} (ha : p.Addressable) {bits : Nat}
    (hbits : ∀ r, p = .register r → r.bits = bits) {rex : Option Rex}
    (hb : rex.any Rex.b = p.base.isExtended) (hhigh : p.base.isHighByte = true → rex.isSome = false)
    (hlow : p.base.needsRex = true → rex.isSome = true) :
    p.target.place? bits (p.isMemory && p.base.bits == 32) rex = some p.explicit := by
  cases p with
  | register r =>
    have hr : Register.ofNumber? bits rex.isSome (r.isExtended.toNat * 8 + r.index % 8) =
        some r := by
      rw [r.isExtended_add_index, ← hbits r rfl]
      exact Register.ofNumber?_index ha hhigh hlow
    simp only [base] at hb
    simp [target, Target.place?, hb, hr, explicit]
  | memory b d =>
    by_cases hne : b = .rip
    · subst hne
      rfl
    · have hwidth : (if (b.bits == 32) = true then 32 else 64) = b.bits := by
        rcases ha.1 with h | h <;> simp [h]
      have hr : Register.ofNumber? b.bits rex.isSome (b.isExtended.toNat * 8 + b.index % 8) =
          some b := by
        rw [b.isExtended_add_index]
        exact Register.ofNumber?_index hne hhigh hlow
      simp only [base] at hb
      rw [target_memory hne]
      simp only [Target.place?, isMemory, base, Bool.true_and, hwidth, hb, hr, explicit,
        Option.map_some]

end RowAsm
