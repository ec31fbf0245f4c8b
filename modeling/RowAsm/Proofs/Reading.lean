import RowAsm.Proofs.Rex
import RowAsm.Proofs.Shape

/-!
# Reading an instruction

`Template.read t code` reads the machine code of a template and gives the operands that it holds,
with the bytes after it. Of the template it uses which bytes to expect and which operands there are;
everything else comes from the bytes: the address size, the REX byte, the register in the opcode,
the ModR/M byte with its SIB byte and displacement, and the numbers.

Each stage of the reader undoes a stretch of the layout: `readPrefixes_append`, `readOpcode_map`,
`readModrm_modrmBytes`, `readNumbers_slots`.
-/

namespace RowAsm

/-- The operands in the code of an instruction. -/
structure Operands where
  register : Option Register
  place : Option Place
  numbers : List Int
  deriving DecidableEq, Repr

/-- The operands of a statement, a missing displacement written out as zero. -/
def Captures.operands (c : Captures) : Operands :=
  ⟨c.register, c.place.map Place.explicit, c.immediates⟩

namespace Template

/-! ### The reader -/

/-- Reads the prefix bytes of a template: whether `67` comes before them, which it may do only for a
memory operand. -/
def readPrefixes (t : Template) (bs : List UInt8) : Option (Bool × List UInt8) :=
  if t.hasPlace then
    match bs.dropPrefix? (0x67 :: t.prefixes) with
    | some bs => some (true, bs)
    | none => (bs.dropPrefix? t.prefixes).map fun bs => (false, bs)
  else (bs.dropPrefix? t.prefixes).map fun bs => (false, bs)

/-- Reads opcode bytes: the low bits of the register, if one of them holds it. -/
def readOpcode : List Part → List UInt8 → Option (Option Nat × List UInt8)
  | [], bs => some (none, bs)
  | .fill b :: ps, c :: bs =>
    if c.toNat / 8 = b.toNat / 8 then
      (readOpcode ps bs).map fun (_, bs) => (some (Byte.bottom c), bs)
    else none
  | .byte b :: ps, c :: bs => if c = b then readOpcode ps bs else none
  | _, _ => none

/-- Reads the ModR/M byte and what belongs to it, if there is one: the reg field and the target. -/
def readModrm (t : Template) (x : Bool) (bs : List UInt8) :
    Option (Option (Nat × Target) × List UInt8) :=
  if t.hasPlace || t.digit?.isSome then (Target.read x bs).map fun (a, bs) => (some a, bs)
  else some (none, bs)

/-- Reads a number for each slot. -/
def readNumbers : List Slot → List UInt8 → Option (List Int × List UInt8)
  | [], bs => some ([], bs)
  | s :: ss, bs => do
    let (v, bs) ← Word.read (s.bits / 8) bs
    let (vs, bs) ← readNumbers ss bs
    some (v :: vs, bs)

/-- The width of the register operand. -/
def registerBits? (t : Template) : Option Nat :=
  t.operands.findSome? fun
    | .register bits => some bits
    | _ => none

/-- The width of the registers that the r/m operand may be. -/
def placeBits? (t : Template) : Option Nat :=
  t.operands.findSome? fun
    | .place bits => some bits
    | _ => none

/-- The number of the register operand. It is in the opcode byte if a fill takes it, else in the reg
field, or in the r/m field if a digit takes the reg field. -/
def registerNumber? (t : Template) (rex : Option Rex) (fill : Option Nat)
    (field : Option (Nat × Target)) : Option Nat :=
  if t.hasFill then fill.map fun i => (rex.any Rex.b).toNat * 8 + i
  else
    match t.digit?, field with
    | none, some (reg, _) => some ((rex.any Rex.r).toNat * 8 + reg)
    | some _, some (_, .register rm) => some ((rex.any Rex.b).toNat * 8 + rm)
    | _, _ => none

/-- The register operand that was read. -/
def registerOf (t : Template) (rex : Option Rex) (fill : Option Nat)
    (field : Option (Nat × Target)) : Option Register := do
  let bits ← t.registerBits?
  let i ← t.registerNumber? rex fill field
  Register.ofNumber? bits rex.isSome i

/-- The operand of the r/m field that was read. -/
def placeOf (t : Template) (short : Bool) (rex : Option Rex) (field : Option (Nat × Target)) :
    Option Place :=
  if t.hasPlace then do
    let (_, target) ← field
    target.place? (t.placeBits?.getD 0) short rex
  else none

/-- Whether REX byte and reg field are those of the template: its REX byte is there, with its W bit,
and its digit stands in the reg field. -/
def accepts (t : Template) (rex : Option Rex) (field : Option (Nat × Target)) : Bool :=
  (rex.isSome || !t.hasRex) && rex.any Rex.w == t.program.contains (.rex true) &&
    t.digit?.all fun d => field.any (·.1 == d.toNat)

/-- Reads the code of a template: its operands, and the bytes after it. -/
def read (t : Template) (code : List UInt8) : Option (Operands × List UInt8) := do
  let bs ← code.dropPrefix? (if t.operandSize then [0x66] else [])
  let (short, bs) ← t.readPrefixes bs
  let (rex, bs) := Rex.read bs
  let (fill, bs) ← readOpcode t.opcode bs
  let (field, bs) ← t.readModrm (rex.any Rex.x) bs
  let (numbers, bs) ← readNumbers t.slots bs
  if t.accepts rex field then
    some (⟨t.registerOf rex fill field, t.placeOf short rex field, numbers⟩, bs)
  else none

end Template

/-! ### Numbers and opcode bytes -/

theorem IsWidth.bytes {bits : Nat} (h : IsWidth bits) : 0 < bits / 8 ∧ 8 * (bits / 8) = bits := by
  rcases h with rfl | rfl | rfl | rfl <;> decide

theorem Byte.and_top (b : UInt8) : (b &&& 0xF8).toNat = 8 * (b.toNat / 8) := by
  have h : ∀ i : Fin 256, (UInt8.ofNat i &&& 0xF8).toNat = 8 * (i.val / 8) := by decide +kernel
  simpa using h ⟨b.toNat, b.toNat_lt⟩

/-- A byte whose low bits were filled in. -/
theorem Byte.fill (b : UInt8) {x : UInt8} (hx : x.toNat < 8) :
    ((b &&& 0xF8) ||| x).toNat / 8 = b.toNat / 8 ∧ Byte.bottom ((b &&& 0xF8) ||| x) = x.toNat := by
  have h : ((b &&& 0xF8) ||| x).toNat = 8 * (b.toNat / 8) + x.toNat := by
    rw [UInt8.toNat_or, Byte.and_top]
    exact (Nat.two_pow_add_eq_or_of_lt (i := 3) hx _).symm
  rw [Byte.bottom, h]
  omega

namespace Template

open Fields

theorem readNumbers_numberBytes {ss : List Slot} {vs : List Int} (hw : ∀ s ∈ ss, IsWidth s.bits)
    (h : List.Forall₂ (fun (s : Slot) v => Word.isSigned s.bits v = true) ss vs)
    (rest : List UInt8) : readNumbers ss (numberBytes ss vs ++ rest) = some (vs, rest) := by
  induction h with
  | nil => rfl
  | @cons s v ss vs hv _ ih =>
    obtain ⟨hpos, hbits⟩ := (hw s (by simp)).bytes
    rw [← hbits] at hv
    have hread := Word.read_littleEndian _ hpos hv (numberBytes ss vs ++ rest)
    have ih := ih fun s hs => hw s (by simp [hs])
    simp only [numberBytes] at hread ih
    simp [readNumbers, numberBytes, hread, ih]

theorem WellFormed.isWidth_of_mem_slots {t : Template} (ht : t.WellFormed) {s : Slot}
    (hs : s ∈ t.slots) : IsWidth s.bits := by
  obtain ⟨p, hp, hslot⟩ := List.mem_filterMap.1 hs
  have := ht.program_sized p hp
  cases p <;> cases hslot <;> exact this

theorem readNumbers_slots {t : Template} {c : Captures} (ht : t.WellFormed) (hc : c.Fit t.operands)
    (rest : List UInt8) :
    readNumbers t.slots (numberBytes t.slots c.immediates ++ rest) = some (c.immediates, rest) := by
  have hfit := hc.immediates
  rw [ht.agree.slots] at hfit
  exact readNumbers_numberBytes (fun s => ht.isWidth_of_mem_slots) hfit rest

theorem low_lt (o : Option Register) : ((o.map low).getD 0).toNat < 8 := by
  cases o with
  | none => decide
  | some r =>
    rw [Option.map_some, Option.getD_some, toNat_low]
    exact Nat.mod_lt _ (by decide)

/-- The opcode bytes read back, with the low bits of the register that one of them holds. -/
theorem readOpcode_map (f : Fields) {ps : List Part} (hps : ∀ p ∈ ps, p.isOpcode = true)
    (rest : List UInt8) :
    readOpcode ps (ps.map f.opcodeByte ++ rest) =
      some (if ps.any Part.isFill then some ((f.fill.map low).getD 0).toNat else none, rest) := by
  induction ps with
  | nil => rfl
  | cons p ps ih =>
    have hp := hps p (by simp)
    have ih := ih fun q hq => hps q (by simp [hq])
    cases p with
    | byte b => simp [readOpcode, opcodeByte, ih, Part.isFill]
    | fill b =>
      obtain ⟨htop, hbottom⟩ := Byte.fill b (low_lt f.fill)
      rw [List.map_cons, List.cons_append, opcodeByte, readOpcode, if_pos htop, ih, hbottom]
      simp [Part.isFill]
    | digit d => cases hp
    | rex w => cases hp
    | immediate n => cases hp
    | relative n => cases hp

/-- The low bits in the opcode byte that takes the register. -/
def fillBits (t : Template) (c : Captures) : Option Nat :=
  if t.hasFill then some (((resolve t c).fill.map low).getD 0).toNat else none

theorem readOpcode_opcode {t : Template} {c : Captures} {s : Shape} (hs : s.Usual)
    (hparts : s.parts = t.program) (rest : List UInt8) :
    readOpcode t.opcode (t.opcode.map (resolve t c).opcodeByte ++ rest) =
      some (t.fillBits c, rest) := by
  rw [fillBits, hs.hasFill_eq hparts, hs.opcode_eq hparts]
  exact readOpcode_map (resolve t c) hs.opcode rest

/-- The first opcode byte is not among `40` to `4F`, and no prefix byte unless it holds a
register. -/
theorem opcodeByte_of_leads (f : Fields) {p : Part} (hp : p.leads = true) :
    (f.opcodeByte p).toNat / 16 ≠ 4 ∧
      (p.isFill = false → isPrefixByte (f.opcodeByte p) = false) := by
  cases p with
  | byte b => simpa [Part.leads, opcodeByte, and_comm, Part.isFill] using hp
  | fill b =>
    have htop := (Byte.fill b (low_lt f.fill)).1
    have hb : b.toNat / 16 ≠ 4 := by simpa [Part.leads] using hp
    refine ⟨?_, fun h => by cases h⟩
    rw [opcodeByte]
    omega
  | digit d => cases hp
  | rex w => cases hp
  | immediate n => cases hp
  | relative n => cases hp

theorem isPrefixByte_rexByte (w r b : Bool) : isPrefixByte (rexByte w r b) = false := by
  cases w <;> cases r <;> cases b <;> decide

theorem Canonical.exists_lead {t : Template} (hcan : t.Canonical) :
    ∃ p os, t.opcode = p :: os ∧ p.leads = true ∧ (t.hasPlace = true → p.isFill = false) := by
  obtain ⟨s, hs, hparts⟩ := hcan.shape
  have hlead := hs.leads
  rw [hs.opcode_eq hparts]
  cases ho : s.opcode with
  | nil => simp [ho] at hlead
  | cons p os =>
    rw [ho] at hlead
    refine ⟨p, os, rfl, hlead, fun hplace => ?_⟩
    by_contra h
    refine hcan.fill_place ⟨?_, hplace⟩
    rw [hs.hasFill_eq hparts, ho, List.any_cons, eq_true_of_ne_false h, Bool.true_or]

/-- A REX byte or the first opcode byte ends the prefix bytes of a template with a place. -/
theorem exists_head {t : Template} {c : Captures} {p : Part} (hp : p.leads = true)
    (hfill : t.hasPlace = true → p.isFill = false) (bs : List UInt8) :
    ∃ b bs', (if t.hasRex || (resolve t c).forceRex then [(resolve t c).rex] else []) ++
        (resolve t c).opcodeByte p :: bs = b :: bs' ∧
      (t.hasPlace = true → isPrefixByte b = false) := by
  split_ifs
  · exact ⟨_, _, rfl, fun _ => isPrefixByte_rexByte _ _ _⟩
  · exact ⟨_, _, rfl, fun h => (opcodeByte_of_leads _ hp).2 (hfill h)⟩

/-! ### Prefix bytes -/

theorem dropPrefix?_append (l r : List UInt8) : (l ++ r).dropPrefix? l = some r :=
  List.dropPrefix?_eq_some_iff.2 ⟨l, rfl, by simp⟩

/-- A byte before prefix bytes is told from none by the byte after them, which is no prefix byte. -/
theorem dropPrefix?_eq_none {ps : List UInt8} (hps : ∀ b ∈ ps, isPrefixByte b = true)
    {b : UInt8} (hb : isPrefixByte b = false) (bs : List UInt8) :
    (ps ++ b :: bs).dropPrefix? (0x67 :: ps) = none := by
  rw [Option.eq_none_iff_forall_not_mem]
  intro rest h
  obtain ⟨qs, heq, hqs⟩ := List.dropPrefix?_eq_some_iff.1 h
  obtain rfl : qs = 0x67 :: ps := by simpa using hqs
  -- the last of the longer run of prefix bytes stands where `b` does
  have hget : (ps ++ b :: bs)[ps.length]? = (0x67 :: ps ++ rest)[ps.length]? := by rw [heq]
  have hmem : b ∈ (0x67 : UInt8) :: ps := by
    rw [List.getElem?_append_right le_rfl, List.getElem?_append_left (by simp), Nat.sub_self,
      List.getElem?_cons_zero] at hget
    exact List.mem_of_getElem? hget.symm
  have hall : ∀ q ∈ (0x67 : UInt8) :: ps, isPrefixByte q = true := by
    simpa using ⟨by decide, hps⟩
  simp [hall b hmem] at hb

variable {t : Template} {c : Captures}

/-- The address size that a layout asks for. -/
def short (t : Template) (c : Captures) : Bool :=
  (resolve t c).place.any fun p => p.isMemory && p.base.bits == 32

theorem hasPlace_of_short (hc : c.Fit t.operands) (h : t.short c = true) : t.hasPlace = true := by
  rw [hasPlace, ← hc.place_isSome]
  cases hp : c.place with
  | some p => rfl
  | none =>
    rw [short, addressSize_of_not_memory (isMemory_of_place_none hp)] at h
    cases h

theorem isPrefixByte_of_mem_prefixes {b : UInt8} (h : b ∈ t.prefixes) : isPrefixByte b = true := by
  obtain ⟨p, hp, hb⟩ := List.mem_filterMap.1 h
  have hprefix := List.mem_takeWhile_imp hp
  cases p <;> cases hb
  exact hprefix

/-- The bytes before those of the program. -/
theorem bytes_sizePieces (t : Template) (c : Captures) :
    ((resolve t c).sizePieces t.operandSize).flatMap Piece.bytes =
      (if t.operandSize then [0x66] else []) ++ (if t.short c then [0x67] else []) := by
  unfold sizePieces short
  split_ifs <;> rfl

/-- The prefix bytes read back, and with them whether `67` came first. -/
theorem readPrefixes_append (hc : c.Fit t.operands) {b : UInt8}
    (hb : t.hasPlace = true → isPrefixByte b = false) (bs : List UInt8) :
    t.readPrefixes ((if t.short c then [0x67] else []) ++ (t.prefixes ++ b :: bs)) =
      some (t.short c, b :: bs) := by
  unfold readPrefixes
  cases hs : t.short c with
  | true =>
    have := dropPrefix?_append (0x67 :: t.prefixes) (b :: bs)
    simp only [hasPlace_of_short hc hs, if_true]
    simp only [List.cons_append, List.nil_append] at this ⊢
    rw [this]
  | false =>
    -- with a place the longer run of prefix bytes is tried first, and fails
    have hdrop := dropPrefix?_append t.prefixes (b :: bs)
    simp only [Bool.false_eq_true, if_false, List.nil_append]
    split_ifs with hp
    · rw [dropPrefix?_eq_none (fun b => isPrefixByte_of_mem_prefixes) (hb hp), hdrop]
      rfl
    · rw [hdrop]
      rfl

/-! ### The ModR/M byte -/

theorem addressable_of_fit (hc : c.Fit t.operands) {p : Place} (h : c.place = some p) :
    p.Addressable := by
  have hmem : Reader.IsMemory p → p.Addressable := by
    rintro ⟨b, d, rfl, hb, hd⟩
    refine ⟨hb, ?_⟩
    cases d with
    | none => decide
    | some v => exact hd v rfl
  obtain ⟨o, -, ho⟩ := hc.place p h
  cases o with
  | place bits =>
    rcases ho with ⟨r, rfl, hne, -⟩ | hp
    · exact hne
    · exact hmem hp
  | memory => exact hmem ho
  | immediate n => exact ho.elim
  | relative n => exact ho.elim
  | fixed w => exact ho.elim
  | register n => exact ho.elim

theorem addressable_resolve (hc : c.Fit t.operands) {p : Place}
    (h : (resolve t c).place = some p) : p.Addressable := by
  cases hp : c.place with
  | some q =>
    obtain rfl : q = p := by simpa [resolve_place_of_some hp] using h
    exact addressable_of_fit hc hp
  | none =>
    rw [resolve_place_of_none hp] at h
    split_ifs at h
    · cases h
    · obtain ⟨r, hr, rfl⟩ := Option.map_eq_some_iff.1 h
      obtain ⟨-, -, hne, -⟩ := hc.register r hr
      exact hne

/-- The reg field and the target of a layout, if it has a ModR/M byte. -/
def field (t : Template) (c : Captures) : Option (Nat × Target) :=
  let reg := (resolve t c).reg.toNat % 8
  if t.hasPlace || t.digit?.isSome then
    some (reg, ((resolve t c).place.map Place.target).getD (.register reg))
  else none

theorem hasModrm_eq (hc : c.Fit t.operands) :
    (resolve t c).hasModrm = (t.hasPlace || t.digit?.isSome) := by
  have hplace : t.hasPlace = c.place.isSome := hc.place_isSome.symm
  cases hp : c.place with
  | some p => simp [resolve, hp, hplace]
  | none => cases hd : t.digit? <;> simp [resolve, hp, hplace, hd]

/-- The ModR/M byte of a layout reads back. -/
theorem readModrm_modrmBytes (hc : c.Fit t.operands) (rest : List UInt8) :
    t.readModrm false ((resolve t c).modrmBytes (resolve t c).hasModrm ++ rest) =
      some (t.field c, rest) := by
  rw [hasModrm_eq hc, readModrm, field, modrmBytes]
  split_ifs with h
  · cases hp : (resolve t c).place with
    | some p => simp [read_modrmPieces hp (addressable_resolve hc hp)]
    | none => simp [read_modrmPieces_none hp]
  · rfl

end Template
end RowAsm
