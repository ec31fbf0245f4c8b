import RowAsm.Proofs.Length

/-!
# Programs in the usual order

Most programs have their parts in one order: prefix bytes, a REX marker, opcode bytes, a digit,
numbers. `Shape` is a program taken apart in this way, and `Shape.Usual` says that its parts are of
the right sorts and that the first opcode byte cannot be taken for a prefix byte or a REX byte.

The layout of such a program is the concatenation of its parts (`bytes_walk`): a REX byte that the
program does not place comes after the prefix bytes.
-/

namespace RowAsm

/-- A program taken apart. -/
structure Shape where
  prefixes : List UInt8
  rex : Option Bool
  opcode : List Part
  digit : Option UInt8
  numbers : List Part
  deriving DecidableEq, Repr

namespace Part

/-- Whether the part is a prefix byte. -/
def isPrefix : Part → Bool
  | .byte b => Fields.isPrefixByte b
  | _ => false

/-- Whether an opcode starts here: the byte is neither a prefix byte nor among `40` to `4F`. -/
def leads : Part → Bool
  | .byte b => !Fields.isPrefixByte b && b.toNat / 16 != 4
  | .fill b => b.toNat / 16 != 4
  | _ => false

theorem bringsRex_of_leads {p : Part} (h : p.leads = true) : p.bringsRex = true := by
  cases p <;> simp_all [leads, bringsRex]

end Part

namespace Shape

/-- The parts in order. -/
def parts (s : Shape) : List Part :=
  s.prefixes.map .byte ++ ((s.rex.map .rex).toList ++ (s.opcode ++
    ((s.digit.map .digit).toList ++ s.numbers)))

/-- The parts are of the right sorts, and the opcode cannot be taken for what comes before it. -/
structure Usual (s : Shape) : Prop where
  prefixes : ∀ b ∈ s.prefixes, Fields.isPrefixByte b = true
  opcode : ∀ p ∈ s.opcode, p.isOpcode = true
  leads : s.opcode.head?.any Part.leads = true
  numbers : ∀ p ∈ s.numbers, p.slot?.isSome = true

end Shape

/-- A template whose code can be read back: the program is in the usual order, a fill and a place do
not share the fourth bit of a register, and no register is of an unknown width. -/
structure Template.Canonical (t : Template) : Prop where
  shape : ∃ s : Shape, s.Usual ∧ s.parts = t.program
  fill_place : ¬ (t.hasFill = true ∧ t.hasPlace = true)
  register_width : .register 0 ∉ t.operands

namespace Fields

variable (f : Fields)

/-- The opcode byte of a part. -/
def opcodeByte : Part → UInt8
  | .byte b => b
  | .fill b => (b &&& 0xF8) ||| (f.fill.map low).getD 0
  | _ => 0

/-- The bytes of the ModR/M byte and what belongs to it, if there is one. -/
def modrmBytes (modrm : Bool) : List UInt8 :=
  (if modrm then f.modrmPieces else []).flatMap Piece.bytes

/-- The bytes of numbers, each in the slot of its part. -/
def numberBytes (slots : List Slot) (vs : List Int) : List UInt8 :=
  (slots.zip vs).flatMap fun (slot, v) => Word.littleEndian (slot.bits / 8) v

/-- The piece of an opcode part. -/
def opcodePiece (p : Part) : Piece := .byte .opcode (f.opcodeByte p)

/-- The pieces of numbers, each in the slot of its part. -/
def numberPieces (slots : List Slot) (vs : List Int) : List Piece :=
  slots.zipWith (fun slot v => .word .number (slot.bits / 8) v) vs

theorem bytes_opcodePiece (os : List Part) :
    (os.map f.opcodePiece).flatMap Piece.bytes = os.map f.opcodeByte := by
  induction os with
  | nil => rfl
  | cons p os ih => simp [opcodePiece, Piece.bytes, ih]

theorem bytes_numberPieces (slots : List Slot) (vs : List Int) :
    (numberPieces slots vs).flatMap Piece.bytes = numberBytes slots vs := by
  rw [numberPieces, numberBytes, ← List.map_uncurry_zip_eq_zipWith, List.flatMap_map]
  rfl

/-! ### Stretches of a program -/

/-- A pending REX byte stays pending at prefix bytes. -/
theorem walk_prefixes {ps : List Part} (hps : ∀ p ∈ ps, p.isPrefix = true) (rex modrm : Bool)
    (vs : List Int) (prog : List Part) :
    f.walk rex modrm vs (ps ++ prog) = ps.map f.opcodePiece ++ f.walk rex modrm vs prog := by
  induction ps with
  | nil => rfl
  | cons p ps ih =>
    have hp := hps p (by simp)
    have := ih fun q hq => hps q (by simp [hq])
    cases p <;> simp_all [walk, Part.isPrefix, opcodePiece, opcodeByte]

theorem walk_opcode {os : List Part} (hos : ∀ p ∈ os, p.isOpcode = true) (modrm : Bool)
    (vs : List Int) (prog : List Part) :
    f.walk false modrm vs (os ++ prog) = os.map f.opcodePiece ++ f.walk false modrm vs prog := by
  induction os with
  | nil => rfl
  | cons p os ih =>
    have hp := hos p (by simp)
    have := ih fun q hq => hos q (by simp [hq])
    cases p <;> simp_all [walk, opcodePiece, opcodeByte, Part.isOpcode]

/-- A pending REX byte comes before the first opcode byte that is no prefix byte. -/
theorem walk_bringsRex {p : Part} (hp : p.bringsRex = true) (rex modrm : Bool) (vs : List Int)
    (prog : List Part) :
    f.walk rex modrm vs (p :: prog) =
      (if rex then [.byte .rex f.rex] else []) ++ f.opcodePiece p ::
        f.walk false modrm vs prog := by
  cases p with
  | byte b =>
    have hb : isPrefixByte b = false := by simpa [Part.bringsRex] using hp
    cases rex <;> simp [walk, hb, opcodePiece, opcodeByte]
  | fill b => cases rex <;> simp [walk, opcodePiece, opcodeByte]
  | digit d => cases hp
  | rex w => cases hp
  | immediate bits => cases hp
  | relative bits => cases hp

/-- The numbers bring the ModR/M byte before them. -/
theorem walk_numbers {ns : List Part} (hns : ∀ p ∈ ns, p.slot?.isSome = true) (rex modrm : Bool)
    {vs : List Int} (hvs : vs.length = (ns.filterMap Part.slot?).length) :
    f.walk rex modrm vs ns =
      (if modrm then f.modrmPieces else []) ++ numberPieces (ns.filterMap Part.slot?) vs := by
  induction ns generalizing modrm vs with
  | nil => simp [walk, numberPieces]
  | cons p ns ih =>
    have hns' : ∀ q ∈ ns, q.slot?.isSome = true := fun q hq => hns q (by simp [hq])
    obtain ⟨slot, hslot⟩ := Option.isSome_iff_exists.1 (hns p (by simp))
    rw [List.filterMap_cons_some hslot, List.length_cons] at hvs
    cases vs with
    | nil => simp at hvs
    | cons v vs =>
      -- the first number brings the ModR/M byte, so none is pending after it
      have hlen : vs.length = (ns.filterMap Part.slot?).length := by simpa using hvs
      have := ih hns' false hlen
      rw [List.filterMap_cons_some hslot]
      cases p <;> cases hslot <;> simp [walk, this, numberPieces]

/-- The opcode of a shape, with what comes before it and after it. -/
theorem walk_opcode_numbers {s : Shape} (hs : s.Usual) (rex modrm : Bool) {vs : List Int}
    (hvs : vs.length = (s.numbers.filterMap Part.slot?).length) :
    f.walk rex modrm vs (s.opcode ++ ((s.digit.map .digit).toList ++ s.numbers)) =
      (if rex then [.byte .rex f.rex] else []) ++ (s.opcode.map f.opcodePiece ++
        ((if modrm then f.modrmPieces else []) ++
          numberPieces (s.numbers.filterMap Part.slot?) vs)) := by
  have hlead := hs.leads
  have hopcode := hs.opcode
  cases ho : s.opcode with
  | nil => simp [ho] at hlead
  | cons p os =>
    rw [ho] at hlead hopcode
    have hp : p.bringsRex = true := Part.bringsRex_of_leads (by simpa using hlead)
    rw [List.cons_append, walk_bringsRex f hp, walk_opcode f fun q hq => hopcode q (by simp [hq])]
    cases s.digit <;> simp [walk, walk_numbers f hs.numbers false modrm hvs]

/-- **The layout of a program in the usual order.** -/
theorem bytes_walk {s : Shape} (hs : s.Usual) {rex : Bool} (hrex : rex = true → s.rex = none)
    (modrm : Bool) {vs : List Int} (hvs : vs.length = (s.numbers.filterMap Part.slot?).length) :
    (f.walk rex modrm vs s.parts).flatMap Piece.bytes =
      s.prefixes ++ ((if s.rex.isSome || rex then [f.rex] else []) ++ (s.opcode.map f.opcodeByte ++
        (f.modrmBytes modrm ++ numberBytes (s.numbers.filterMap Part.slot?) vs))) := by
  have hpre : ∀ p ∈ s.prefixes.map Part.byte, p.isPrefix = true := by
    simpa [Part.isPrefix] using hs.prefixes
  have hlead : (s.prefixes.map Part.byte).map f.opcodeByte = s.prefixes := by
    rw [List.map_map]
    exact List.map_id _
  have htail : ∀ rex, (f.walk rex modrm vs
      (s.opcode ++ ((s.digit.map .digit).toList ++ s.numbers))).flatMap Piece.bytes =
      (if rex then [f.rex] else []) ++ (s.opcode.map f.opcodeByte ++
        (f.modrmBytes modrm ++ numberBytes (s.numbers.filterMap Part.slot?) vs)) := by
    intro rex
    rw [walk_opcode_numbers f hs rex modrm hvs, List.flatMap_append, List.flatMap_append,
      List.flatMap_append, bytes_opcodePiece, bytes_numberPieces]
    cases rex <;> rfl
  rw [Shape.parts, walk_prefixes f hpre, List.flatMap_append, bytes_opcodePiece, hlead]
  congr 1
  cases hr : s.rex with
  | none => simpa using htail rex
  | some w =>
    -- the program places the REX byte itself, so none is pending
    obtain rfl : rex = false := by
      by_contra h
      simp [hr] at hrex
      exact h hrex
    simpa [walk, Piece.bytes] using htail false

end Fields

/-! ### What a template knows of its shape -/

namespace Template

/-- The prefix bytes of the program. -/
def prefixes (t : Template) : List UInt8 :=
  (t.program.takeWhile Part.isPrefix).filterMap fun
    | .byte b => some b
    | _ => none

/-- The opcode bytes of the program, after its prefix bytes. -/
def opcode (t : Template) : List Part := (t.program.dropWhile Part.isPrefix).filter Part.isOpcode

/-- The number fields of the program. -/
def slots (t : Template) : List Slot := t.program.filterMap Part.slot?

end Template

namespace Shape

variable {s : Shape} {t : Template}

/-- The parts after the prefix bytes. -/
def core (s : Shape) : List Part :=
  (s.rex.map .rex).toList ++ (s.opcode ++ ((s.digit.map .digit).toList ++ s.numbers))

theorem Usual.isPrefix_head (hs : s.Usual) : ∃ p ps, s.core = p :: ps ∧ p.isPrefix = false := by
  have hlead := hs.leads
  unfold core
  cases s.rex with
  | some w => exact ⟨_, _, rfl, rfl⟩
  | none =>
    cases ho : s.opcode with
    | nil => simp [ho] at hlead
    | cons p os =>
      refine ⟨p, _, rfl, ?_⟩
      cases p <;> simp_all [Part.leads, Part.isPrefix]

theorem Usual.not_of_mem_opcode (hs : s.Usual) {q : Part → Bool} (hbyte : ∀ b, q (.byte b) = false)
    (hfill : ∀ b, q (.fill b) = false) : ∀ p ∈ s.opcode, ¬ q p = true := by
  intro p hp
  have := hs.opcode p hp
  cases p <;> simp_all [Part.isOpcode]

theorem Usual.not_of_mem_numbers (hs : s.Usual) {q : Part → Bool}
    (himm : ∀ n, q (.immediate n) = false) (hrel : ∀ n, q (.relative n) = false) :
    ∀ p ∈ s.numbers, ¬ q p = true := by
  intro p hp
  have := hs.numbers p hp
  cases p <;> simp_all [Part.slot?]

theorem Usual.prefixes_eq (hs : s.Usual) (ht : s.parts = t.program) : t.prefixes = s.prefixes := by
  obtain ⟨p, ps, hcore, hp⟩ := hs.isPrefix_head
  have hpre : ∀ q ∈ s.prefixes.map Part.byte, q.isPrefix = true := by
    simpa [Part.isPrefix] using hs.prefixes
  have htake : t.program.takeWhile Part.isPrefix = s.prefixes.map .byte := by
    rw [← ht, parts, ← core, List.takeWhile_append_of_pos hpre, hcore]
    simp [hp]
  rw [Template.prefixes, htake, List.filterMap_map]
  exact List.filterMap_some

theorem Usual.opcode_eq (hs : s.Usual) (ht : s.parts = t.program) : t.opcode = s.opcode := by
  obtain ⟨p, ps, hcore, hp⟩ := hs.isPrefix_head
  have hpre : ∀ q ∈ s.prefixes.map Part.byte, q.isPrefix = true := by
    simpa [Part.isPrefix] using hs.prefixes
  have hdrop : t.program.dropWhile Part.isPrefix = s.core := by
    rw [← ht, parts, ← core, List.dropWhile_append_of_pos hpre, hcore]
    simp [hp]
  have hnum : s.numbers.filter Part.isOpcode = [] :=
    List.filter_eq_nil_iff.2 (hs.not_of_mem_numbers (fun _ => rfl) fun _ => rfl)
  have hopc : s.opcode.filter Part.isOpcode = s.opcode := List.filter_eq_self.2 hs.opcode
  rw [Template.opcode, hdrop, core]
  cases s.rex <;> cases s.digit <;> simp [Part.isOpcode, hnum, hopc]

theorem Usual.slots_eq (hs : s.Usual) (ht : s.parts = t.program) :
    t.slots = s.numbers.filterMap Part.slot? := by
  have hopc : s.opcode.filterMap Part.slot? = [] := by
    rw [List.filterMap_eq_nil_iff]
    intro p hp
    have := hs.opcode p hp
    cases p <;> simp_all [Part.slot?, Part.isOpcode]
  have hpre : (s.prefixes.map Part.byte).filterMap Part.slot? = [] := by
    simp [List.filterMap_eq_nil_iff, Part.slot?]
  rw [Template.slots, ← ht, parts, List.filterMap_append, hpre]
  cases s.rex <;> cases s.digit <;> simp [List.filterMap_cons, hopc, Part.slot?]

theorem Usual.hasRex_eq (hs : s.Usual) (ht : s.parts = t.program) : t.hasRex = s.rex.isSome := by
  have hopc : s.opcode.any Part.isRex = false :=
    List.any_eq_false.2 (hs.not_of_mem_opcode (fun _ => rfl) fun _ => rfl)
  have hnum : s.numbers.any Part.isRex = false :=
    List.any_eq_false.2 (hs.not_of_mem_numbers (fun _ => rfl) fun _ => rfl)
  rw [Template.hasRex, ← ht, parts]
  cases s.rex <;> cases s.digit <;> simp [Part.isRex, hopc, hnum]

theorem Usual.hasFill_eq (hs : s.Usual) (ht : s.parts = t.program) :
    t.hasFill = s.opcode.any Part.isFill := by
  have hnum : s.numbers.any Part.isFill = false :=
    List.any_eq_false.2 (hs.not_of_mem_numbers (fun _ => rfl) fun _ => rfl)
  rw [Template.hasFill, ← ht, parts]
  cases s.rex <;> cases s.digit <;> simp [Part.isFill, hnum]

end Shape
end RowAsm
