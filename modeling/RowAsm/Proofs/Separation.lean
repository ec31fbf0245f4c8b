import RowAsm.Proofs.RoundTrip

/-!
# Codes that tell their operands apart

Reading takes a program in the usual order; here the program is any that a row may have. If its
first part after the prefix bytes is a REX marker, or an opcode byte that cannot be taken for a REX
byte (`Part.opens`), and a fill and a place do not meet, then two statements with the same code have
the same operands (`operands_eq_of_bytes`). The argument is that of the reader, but on two walks
side by side (`walk_inj`): each part leaves pieces that are as long in the one as in the other, but
for the ModR/M byte, whose reader says where it ends.

A fill and a place that do meet share the fourth bit of their registers (`layout_eq_of_fill`), and
every template in which they meet has two statements that differ in nothing else (`exists_capture`).
So the condition is exact (`emit_separates_iff`).
-/

namespace RowAsm

/-- Whether a REX byte or an opcode starts here, and can be taken for nothing else. -/
def Part.opens (p : Part) : Bool := p.isRex || p.leads

/-- The first part of the program that is no prefix byte. -/
def Template.opening? (t : Template) : Option Part := (t.program.dropWhile Part.isPrefix).head?

/-! ### Two walks side by side -/

theorem Byte.fill_inj {b x y : UInt8} (hx : x.toNat < 8) (hy : y.toNat < 8)
    (h : (b &&& 0xF8) ||| x = (b &&& 0xF8) ||| y) : x = y := by
  have hx' := (Byte.fill b hx).2
  rw [h, (Byte.fill b hy).2] at hx'
  exact UInt8.toNat_inj.1 hx'.symm

theorem Word.littleEndian_inj {size : Nat} (hs : 0 < size) {v w : Int}
    (hv : isSigned (8 * size) v = true) (hw : isSigned (8 * size) w = true)
    (h : littleEndian size v = littleEndian size w) : v = w := by
  rw [← signed_littleEndian hs hv, h, signed_littleEndian hs hw]

namespace Fields

variable {f g : Fields}

/-- A number brings the ModR/M byte before it. -/
theorem bytes_walk_number {p : Part} {s : Slot} (hp : p.slot? = some s) (rex modrm : Bool) (v : Int)
    (vs : List Int) (prog : List Part) :
    (f.walk rex modrm (v :: vs) (p :: prog)).flatMap Piece.bytes =
      f.modrmBytes modrm ++ (Word.littleEndian (s.bits / 8) v ++
        (f.walk rex false vs prog).flatMap Piece.bytes) := by
  cases p <;> cases hp <;> simp [walk, modrmBytes, Piece.bytes]

/-- A walk depends on the REX byte, the low bits of the register in the opcode byte, and the ModR/M
byte with what belongs to it. -/
theorem walk_congr (hrex : f.rex = g.rex)
    (hfill : (f.fill.map low).getD 0 = (g.fill.map low).getD 0)
    (hmod : f.modrmPieces = g.modrmPieces) (rex modrm : Bool) (vs : List Int) (prog : List Part) :
    f.walk rex modrm vs prog = g.walk rex modrm vs prog := by
  induction prog generalizing rex modrm vs with
  | nil => simp only [walk, hmod]
  | cons p prog ih => cases p <;> simp only [walk, hrex, hfill, hmod, ih]

/-- **Two walks with the same bytes** have the same REX byte, if the program places one, the same
low bits in the opcode byte that takes a register, the same ModR/M byte with what belongs to it, and
the same numbers. -/
theorem walk_inj {modrm : Bool} {vs ws : List Int} {prog : List Part}
    (hmod : ∀ r r', f.modrmBytes modrm ++ r = g.modrmBytes modrm ++ r' →
      f.modrmBytes modrm = g.modrmBytes modrm)
    (hwidth : ∀ s ∈ prog.filterMap Part.slot?, IsWidth s.bits)
    (hvs : List.Forall₂ (fun (s : Slot) v => Word.isSigned s.bits v = true)
      (prog.filterMap Part.slot?) vs)
    (hws : List.Forall₂ (fun (s : Slot) v => Word.isSigned s.bits v = true)
      (prog.filterMap Part.slot?) ws)
    (h : (f.walk false modrm vs prog).flatMap Piece.bytes =
      (g.walk false modrm ws prog).flatMap Piece.bytes) :
    (prog.any Part.isRex = true → f.rex = g.rex) ∧
    (prog.any Part.isFill = true → (f.fill.map low).getD 0 = (g.fill.map low).getD 0) ∧
    f.modrmBytes modrm = g.modrmBytes modrm ∧ vs = ws := by
  induction prog generalizing modrm vs ws with
  | nil =>
    cases hvs
    cases hws
    exact ⟨by simp, by simp, h, rfl⟩
  | cons p prog ih =>
    have number : ∀ s, p.slot? = some s → (prog.any Part.isRex = true → f.rex = g.rex) ∧
        (prog.any Part.isFill = true → (f.fill.map low).getD 0 = (g.fill.map low).getD 0) ∧
        f.modrmBytes modrm = g.modrmBytes modrm ∧ vs = ws := by
      intro s hs
      rw [List.filterMap_cons_some hs] at hwidth hvs hws
      cases hvs with
      | cons hv hvs =>
      cases hws with
      | cons hw hws =>
      rw [bytes_walk_number hs, bytes_walk_number hs] at h
      have heq := hmod _ _ h
      rw [heq, List.append_cancel_left_eq] at h
      obtain ⟨hnum, htail⟩ := List.append_inj h (by simp)
      obtain ⟨hpos, hbits⟩ := (hwidth s (by simp)).bytes
      rw [← hbits] at hv hw
      obtain ⟨hrex, hfill, -, hrest⟩ := ih (fun _ _ _ => rfl)
        (fun s' hs' => hwidth s' (by simp [hs'])) hvs hws htail
      exact ⟨hrex, hfill, heq, by rw [Word.littleEndian_inj hpos hv hw hnum, hrest]⟩
    cases p with
    | byte b =>
      simp only [walk, Bool.false_and, Bool.false_eq_true, if_false, List.flatMap_cons, Piece.bytes,
        List.append_cancel_left_eq] at h
      simpa [Part.isRex, Part.isFill] using ih hmod hwidth hvs hws h
    | fill b =>
      simp only [walk, Bool.false_eq_true, if_false, List.nil_append, List.flatMap_cons,
        Piece.bytes, List.cons_append, List.cons.injEq] at h
      obtain ⟨hbyte, h⟩ := h
      obtain ⟨hrex, -, hrest⟩ := ih hmod hwidth hvs hws h
      refine ⟨by simpa [Part.isRex] using hrex, fun _ => ?_, hrest⟩
      exact Byte.fill_inj (Template.low_lt f.fill) (Template.low_lt g.fill) hbyte
    | digit d =>
      simp only [walk] at h
      simpa [Part.isRex, Part.isFill] using ih hmod hwidth hvs hws h
    | rex w =>
      simp only [walk, List.flatMap_cons, Piece.bytes, List.cons_append, List.nil_append,
        List.cons.injEq] at h
      obtain ⟨hbyte, h⟩ := h
      obtain ⟨-, hfill, hrest⟩ := ih hmod hwidth hvs hws h
      exact ⟨fun _ => hbyte, by simpa [Part.isFill] using hfill, hrest⟩
    | immediate n => simpa [Part.isRex, Part.isFill] using number _ rfl
    | relative n => simpa [Part.isRex, Part.isFill] using number _ rfl

end Fields

/-! ### Two layouts side by side -/

namespace Template

open Fields

variable {t : Template} {c d : Captures}

/-- The bytes of a layout after the prefix bytes of the program. -/
def tailBytes (t : Template) (rex : Bool) (c : Captures) : List UInt8 :=
  ((resolve t c).walk rex (resolve t c).hasModrm c.immediates
    (t.program.dropWhile Part.isPrefix)).flatMap Piece.bytes

theorem bytes_walk_program (t : Template) (rex : Bool) (c : Captures) :
    ((resolve t c).walk rex (resolve t c).hasModrm c.immediates t.program).flatMap Piece.bytes =
      t.prefixes ++ t.tailBytes rex c := by
  obtain ⟨f, hf, hbyte⟩ : ∃ f : Part → Option UInt8,
      t.prefixes = (t.program.takeWhile Part.isPrefix).filterMap f ∧
        ∀ b, f (.byte b) = some b := ⟨_, rfl, fun b => rfl⟩
  have hmap : ∀ ps : List Part, (∀ p ∈ ps, p.isPrefix = true) →
      ps.map (resolve t c).opcodeByte = ps.filterMap f := by
    intro ps hps
    induction ps with
    | nil => rfl
    | cons p ps ih =>
      have hp := hps p (by simp)
      have := ih fun q hq => hps q (by simp [hq])
      cases p <;> simp_all [Part.isPrefix, opcodeByte]
  have hps : ∀ p ∈ t.program.takeWhile Part.isPrefix, p.isPrefix = true :=
    fun p hp => List.mem_takeWhile_imp hp
  have hwalk := walk_prefixes (resolve t c) hps rex (resolve t c).hasModrm c.immediates
    (t.program.dropWhile Part.isPrefix)
  rw [List.takeWhile_append_dropWhile] at hwalk
  rw [hwalk, List.flatMap_append, bytes_opcodePiece, hmap _ hps, ← hf]
  rfl

theorem bytes_layout_tail (t : Template) (c : Captures) :
    (t.layout c).flatMap Piece.bytes =
      (if t.operandSize then [0x66] else []) ++ ((if t.short c then [0x67] else []) ++
        (t.prefixes ++ t.tailBytes (resolve t c).forceRex c)) := by
  rw [layout, List.flatMap_append, bytes_sizePieces, bytes_walk_program, List.append_assoc]

section Opening

variable {p : Part} (hopen : t.opening? = some p)

include hopen

theorem exists_dropWhile : ∃ prog, t.program.dropWhile Part.isPrefix = p :: prog :=
  List.head?_eq_some_iff.1 hopen

theorem mem_of_opening : p ∈ t.program := by
  obtain ⟨prog, hprog⟩ := exists_dropWhile hopen
  exact (List.dropWhile_suffix _).subset (hprog ▸ List.mem_cons_self)

/-- A pending REX byte comes before the opcode byte that opens the tail. -/
theorem tailBytes_of_leads (hp : p.leads = true) (c : Captures) :
    ∃ bs, ∀ rex, t.tailBytes rex c =
      (if rex then [(resolve t c).rex] else []) ++ (resolve t c).opcodeByte p :: bs := by
  obtain ⟨prog, hprog⟩ := exists_dropWhile hopen
  refine ⟨((resolve t c).walk false (resolve t c).hasModrm c.immediates prog).flatMap
    Piece.bytes, fun rex => ?_⟩
  rw [tailBytes, hprog, walk_bringsRex _ (Part.bringsRex_of_leads hp)]
  cases rex <;> rfl

/-- The byte after the prefix bytes is none of them, at least beside a place. -/
theorem exists_tailBytes (hp : p.opens = true) (hfp : ¬ (t.hasFill = true ∧ t.hasPlace = true))
    (c : Captures) : ∃ b bs, t.tailBytes (resolve t c).forceRex c = b :: bs ∧
      (t.hasPlace = true → isPrefixByte b = false) := by
  cases hrex : p.isRex with
  | true =>
    obtain ⟨prog, hprog⟩ := exists_dropWhile hopen
    cases p with
    | rex w =>
      rw [tailBytes, hprog]
      exact ⟨_, _, rfl, fun _ => isPrefixByte_rexByte _ _ _⟩
    | byte b => cases hrex
    | fill b => cases hrex
    | digit d => cases hrex
    | immediate n => cases hrex
    | relative n => cases hrex
  | false =>
    have hlead : p.leads = true := by simpa [Part.opens, hrex] using hp
    have hnofill : t.hasPlace = true → p.isFill = false := by
      intro hplace
      by_contra h
      exact hfp ⟨List.any_eq_true.2 ⟨p, mem_of_opening hopen, eq_true_of_ne_false h⟩, hplace⟩
    obtain ⟨bs, hbs⟩ := tailBytes_of_leads hopen hlead c
    rw [hbs]
    split_ifs
    · exact ⟨_, _, rfl, fun _ => isPrefixByte_rexByte _ _ _⟩
    · exact ⟨_, _, rfl, fun h => (opcodeByte_of_leads _ hlead).2 (hnofill h)⟩

/-- A REX byte that the program does not place is read off the tail. -/
theorem rex?_eq_of_tailBytes (hp : p.opens = true) (hrex : t.hasRex = false)
    (h : t.tailBytes (resolve t c).forceRex c = t.tailBytes (resolve t d).forceRex d) :
    t.rex? c = t.rex? d ∧ t.tailBytes false c = t.tailBytes false d := by
  have hlead : p.leads = true := by
    have hnot : p.isRex = false := by
      by_contra hn
      have : t.hasRex = true :=
        List.any_eq_true.2 ⟨p, mem_of_opening hopen, eq_true_of_ne_false hn⟩
      rw [hrex] at this
      cases this
    simpa [Part.opens, hnot] using hp
  have hread : ∀ e : Captures, Rex.read (t.tailBytes (resolve t e).forceRex e) =
      (t.rex? e, t.tailBytes false e) := by
    intro e
    obtain ⟨bs, hbs⟩ := tailBytes_of_leads hopen hlead e
    have := read_rex t e (opcodeByte_of_leads (resolve t e) hlead).1 bs
    rw [hrex, Bool.false_or] at this
    rw [hbs, hbs, this]
    rfl
  have heq := hread c
  rw [h, hread d] at heq
  exact ⟨(congrArg Prod.fst heq).symm, (congrArg Prod.snd heq).symm⟩

end Opening

/-- The REX byte that the program places tells its bits. -/
theorem rex?_eq_of_rex (hrex : t.hasRex = true) (h : (resolve t c).rex = (resolve t d).rex) :
    t.rex? c = t.rex? d := by
  have hbyte := rex_rexByte (t.program.contains (.rex true)) (t.rexR c) (t.rexB c)
  rw [← resolve_rex, h, resolve_rex, rex_rexByte] at hbyte
  simp only [Option.some.injEq, Rex.mk.injEq] at hbyte
  simp [rex?, hrex, hbyte]

/-- A program that places its REX byte forces none. -/
theorem forceRex_of_hasRex (hrex : t.hasRex = true) (c : Captures) :
    (resolve t c).forceRex = false := by
  by_contra hn
  have hnone := (of_forceRex (eq_true_of_ne_false hn)).1
  rw [hrex] at hnone
  cases hnone

/-- The ModR/M byte says where what belongs to it ends. -/
theorem modrmBytes_eq_of_append (hc : c.Fit t.operands) (hd : d.Fit t.operands) {r r' : List UInt8}
    (h : (resolve t c).modrmBytes (resolve t c).hasModrm ++ r =
      (resolve t d).modrmBytes (resolve t c).hasModrm ++ r') :
    (resolve t c).modrmBytes (resolve t c).hasModrm =
      (resolve t d).modrmBytes (resolve t c).hasModrm := by
  have hmod : (resolve t c).hasModrm = (resolve t d).hasModrm := by
    rw [hasModrm_eq hc, hasModrm_eq hd]
  have hread := readModrm_modrmBytes hc r
  rw [h, hmod, readModrm_modrmBytes hd r', Option.some.injEq, Prod.mk.injEq] at hread
  rw [hread.2] at h
  exact List.append_cancel_right h

/-- **Two layouts with the same bytes** agree in all that the reader takes from them. -/
theorem eq_of_bytes_layout (ht : t.WellFormed) (hc : c.Fit t.operands) (hd : d.Fit t.operands)
    (hfp : ¬ (t.hasFill = true ∧ t.hasPlace = true)) {p : Part} (hopen : t.opening? = some p)
    (hp : p.opens = true)
    (h : (t.layout c).flatMap Piece.bytes = (t.layout d).flatMap Piece.bytes) :
    t.short c = t.short d ∧ t.rex? c = t.rex? d ∧ t.fillBits c = t.fillBits d ∧
      t.field c = t.field d ∧ c.immediates = d.immediates := by
  have hmod : (resolve t c).hasModrm = (resolve t d).hasModrm := by
    rw [hasModrm_eq hc, hasModrm_eq hd]
  -- the prefix bytes end where the tail starts
  obtain ⟨hshort, htail⟩ : t.short c = t.short d ∧
      t.tailBytes (resolve t c).forceRex c = t.tailBytes (resolve t d).forceRex d := by
    rw [bytes_layout_tail, bytes_layout_tail, List.append_cancel_left_eq] at h
    obtain ⟨b, bs, hb, hbp⟩ := exists_tailBytes hopen hp hfp c
    obtain ⟨b', bs', hb', hbp'⟩ := exists_tailBytes hopen hp hfp d
    have hread := readPrefixes_append hc hbp bs
    rw [← hb, h, hb', readPrefixes_append hd hbp' bs', Option.some.injEq, Prod.mk.injEq] at hread
    exact ⟨hread.1.symm, hread.2.symm.trans hb'.symm⟩
  -- without a forced REX byte the two walks go side by side
  have htail' : t.tailBytes false c = t.tailBytes false d := by
    cases hrex : t.hasRex with
    | false => exact (rex?_eq_of_tailBytes hopen hp hrex htail).2
    | true => rwa [forceRex_of_hasRex hrex, forceRex_of_hasRex hrex] at htail
  have hwalk := bytes_walk_program t false c
  rw [htail', ← bytes_walk_program, ← hmod] at hwalk
  have hfitc := hc.immediates
  have hfitd := hd.immediates
  rw [ht.agree.slots] at hfitc hfitd
  obtain ⟨hrexbyte, hfill, hmodrm, hnumbers⟩ := walk_inj
    (fun _ _ => modrmBytes_eq_of_append hc hd) (fun s => ht.isWidth_of_mem_slots) hfitc hfitd hwalk
  refine ⟨hshort, ?_, ?_, ?_, hnumbers⟩
  · cases hrex : t.hasRex with
    | false => exact (rex?_eq_of_tailBytes hopen hp hrex htail).1
    | true => exact rex?_eq_of_rex hrex (hrexbyte hrex)
  · unfold fillBits
    split_ifs with hf
    · rw [hfill hf]
    · rfl
  · have hread := readModrm_modrmBytes hc []
    rw [hmodrm, hmod, readModrm_modrmBytes hd [], Option.some.injEq, Prod.mk.injEq] at hread
    exact hread.1.symm

/-- **The code of a row tells its operands.** -/
theorem operands_eq_of_bytes (ht : t.WellFormed) (hc : c.Fit t.operands) (hd : d.Fit t.operands)
    (hcc : t.conflicts c = false) (hdc : t.conflicts d = false)
    (hfp : ¬ (t.hasFill = true ∧ t.hasPlace = true)) (hwidth : .register 0 ∉ t.operands)
    (hopen : t.opening?.any Part.opens = true)
    (h : (t.layout c).flatMap Piece.bytes = (t.layout d).flatMap Piece.bytes) :
    c.operands = d.operands := by
  obtain ⟨p, hp, hopens⟩ := (Option.any_eq_true _ _).1 hopen
  obtain ⟨hshort, hrex, hfill, hfield, hnumbers⟩ := eq_of_bytes_layout ht hc hd hfp hp hopens h
  have hreg := registerOf_eq ht hfp hwidth hc hcc
  have hplace := placeOf_eq ht hfp hc hcc
  rw [hrex, hfill, hfield, registerOf_eq ht hfp hwidth hd hdc] at hreg
  rw [hshort, hrex, hfield, placeOf_eq ht hfp hd hdc] at hplace
  rw [Captures.operands, Captures.operands, hreg, hplace, hnumbers]

end Template

/-! ### Registers that share a bit -/

/-- The register of a width and an index. -/
def Register.ofWidth (bits : Nat) (i : Fin 16) : Register :=
  match bits with
  | 64 => .r64 i
  | 32 => .r32 i
  | 16 => .r16 i
  | _ => .low8 i

namespace Register

theorem index_ofWidth (bits : Nat) (i : Fin 16) : (ofWidth bits i).index = i := by
  unfold ofWidth
  split <;> rfl

theorem isHighByte_ofWidth (bits : Nat) (i : Fin 16) : (ofWidth bits i).isHighByte = false := by
  unfold ofWidth
  split <;> rfl

theorem withWidth?_name {bits : Nat} (h : IsWidth bits) (i : Fin 16) :
    withWidth? (ofWidth bits i).name bits = some (ofWidth bits i) := by
  rcases h with rfl | rfl | rfl | rfl <;> revert i <;> decide

theorem base?_name (i : Fin 16) : base? (r64 i).name = some (r64 i) := by
  revert i
  decide

end Register

/-- The tokens of a register operand of the index `i`, or of memory at the 64-bit base of the index
`j`. -/
def Operand.tokens (i j : Fin 16) : Operand → List String
  | .register bits => [(Register.ofWidth bits i).name]
  | .place bits => [Reader.accessWord bits, "ptr", "[", (Register.r64 j).name, "]"]
  | .memory => ["[", (Register.r64 j).name, "]"]
  | _ => []

namespace Template

open Fields

variable {t : Template}

theorem readOperand_register (caps : Captures) {bits : Nat} (h : IsWidth bits) (i j : Fin 16)
    (ts : List String) :
    readOperand caps (.register bits) ((Operand.register bits).tokens i j ++ ts) =
      .ok ({ caps with register := some (.ofWidth bits i) }, ts) := by
  simp [Operand.tokens, readOperand, Reader.register, Register.withWidth?_name h]

theorem bracketed_name (j : Fin 16) (ts : List String) :
    Reader.bracketed ("[" :: (Register.r64 j).name :: "]" :: ts) =
      .ok (.memory (.r64 j) none, ts) := by
  have hbase : Reader.base ((Register.r64 j).name :: "]" :: ts) = .ok (.r64 j, "]" :: ts) := by
    rw [Reader.base, Register.base?_name]
    rfl
  simp [Reader.bracketed, Reader.expect, hbase, Reader.afterBase]

theorem readOperand_place (caps : Captures) {o : Operand} (ho : o.Sized) (hp : o.isPlace = true)
    (i j : Fin 16) (ts : List String) :
    readOperand caps o (o.tokens i j ++ ts) =
      .ok ({ caps with place := some (.memory (.r64 j) none) }, ts) := by
  cases o with
  | place bits =>
    have hnone : Register.withWidth? (Reader.accessWord bits) bits = none := by
      rcases ho with rfl | rfl | rfl | rfl <;> decide
    simp [Operand.tokens, readOperand, Reader.place, Reader.register, hnone, Reader.refuse,
      Reader.sized, Reader.access, Reader.expect, bracketed_name]
  | memory =>
    have hword : Reader.isAccessWord "[" = false := by decide
    simp [Operand.tokens, readOperand, Reader.unsized, Reader.anyAccess, hword, bracketed_name]
  | immediate n => cases hp
  | relative n => cases hp
  | fixed w => cases hp
  | register n => cases hp

/-- Two operands of a template are all it has. -/
theorem WellFormed.operands_eq (ht : t.WellFormed) {o q : Operand} (hne : o ≠ q)
    (ho : o ∈ t.operands) (hq : q ∈ t.operands) : t.operands = [o, q] ∨ t.operands = [q, o] := by
  have hlen := ht.length_operands
  rcases hops : t.operands with _ | ⟨a, _ | ⟨b, _ | ⟨e, l⟩⟩⟩
  · simp [hops] at ho
  · simp [hops] at ho hq
    exact absurd (ho.trans hq.symm) hne
  · simp only [hops, List.mem_cons, List.not_mem_nil, or_false] at ho hq
    grind
  · simp [hops] at hlen

/-- A template with a register operand and a place has a statement for any two indices. -/
theorem WellFormed.exists_capture (ht : t.WellFormed) (hwidth : .register 0 ∉ t.operands)
    (hr : t.operands.any Operand.isRegister = true) (hp : t.hasPlace = true) :
    ∃ bits, ∀ i j : Fin 16, ∃ tokens consumed, t.capture tokens =
      .ok ⟨some (.ofWidth bits i), some (.memory (.r64 j) none), [], consumed⟩ := by
  obtain ⟨o, ho, hor⟩ := List.any_eq_true.1 hr
  obtain ⟨q, hq, hqp⟩ := List.any_eq_true.1 hp
  cases o with
  | register bits =>
    have hbits : IsWidth bits := by
      rcases ht.operands_sized _ ho with rfl | h
      · exact absurd ho hwidth
      · exact h
    have hqs := ht.operands_sized q hq
    have hne : Operand.register bits ≠ q := by
      rintro rfl
      cases hqp
    have hconf : ∀ i j k, t.conflicts
        ⟨some (.ofWidth bits i), some (.memory (.r64 j) none), [], k⟩ = false := by
      intro i j k
      have hhigh := Register.isHighByte_ofWidth bits i
      have hbase : (Register.r64 j).isHighByte = false := rfl
      simp [conflicts, Captures.hasHighByte, Captures.registers, hhigh, Place.base, hbase]
    refine ⟨bits, fun i j => ?_⟩
    obtain ⟨ts, hts⟩ : ∃ ts, readOperands t.operands ts =
        .ok (⟨some (.ofWidth bits i), some (.memory (.r64 j) none), [], 0⟩, []) := by
      rcases ht.operands_eq hne ho hq with hops | hops
      · refine ⟨(Operand.register bits).tokens i j ++ "," :: (q.tokens i j ++ []), ?_⟩
        rw [hops, readOperands, readOperand_register _ hbits]
        simp only [readFurther, Reader.expect, Text.same_self, if_true,
          readOperand_place _ hqs hqp]
        rfl
      · refine ⟨q.tokens i j ++ "," :: ((Operand.register bits).tokens i j ++ []), ?_⟩
        rw [hops, readOperands, readOperand_place _ hqs hqp]
        simp only [readFurther, Reader.expect, Text.same_self, if_true,
          readOperand_register _ hbits]
        rfl
    refine ⟨t.mnemonic :: ts, (t.mnemonic :: ts).length, ?_⟩
    simp [capture, Reader.expect, hts, hconf]
  | immediate n => cases hor
  | relative n => cases hor
  | fixed w => cases hor
  | place n => cases hor
  | memory => cases hor

/-- **A fill and a place share the fourth bit of their registers**: which of the two has it cannot
be told from the layout. -/
theorem layout_eq_of_fill (hd : t.digit? = none) (hf : t.hasFill = true) {r r' b b' : Register}
    (hlow : low r = low r') (hbase : memoryPieces 0 b 0 = memoryPieces 0 b' 0)
    (hbits : b.bits = b'.bits) (hext : (b.isExtended || r.isExtended) = true)
    (hext' : (b'.isExtended || r'.isExtended) = true) (k l : Nat) :
    t.layout ⟨some r, some (.memory b none), [], k⟩ =
      t.layout ⟨some r', some (.memory b' none), [], l⟩ := by
  have hR : ∀ e : Captures, t.rexR e = false := by
    intro e
    simp [rexR, hf]
  have hB : ∀ {r b : Register}, (b.isExtended || r.isExtended) = true → ∀ k,
      t.rexB ⟨some r, some (.memory b none), [], k⟩ = true := by
    intro r b h k
    simpa [rexB, resolve, hf, Place.base] using h
  rw [layout, layout]
  congr 1
  · simp [sizePieces, resolve, Place.isMemory, Place.base, hbits]
  · simp only [resolve_forceRex, hB hext, hB hext', Bool.or_true, Bool.true_or]
    refine walk_congr ?_ ?_ ?_ _ _ _ _
    · rw [resolve_rex, resolve_rex, hR, hR, hB hext, hB hext']
    · simp [resolve, hf, hlow]
    · simpa [modrmPieces, resolve, hd, hf] using hbase

/-- **Rows that keep registers apart.** Take the template of a row that has no register operand of
an unknown width, and whose first part after the prefix bytes is a REX marker or an opcode byte that
cannot be taken for a REX byte. Any two statements with the same code have the same register operand
and the same register or base in the r/m field, exactly if the row does not have both a fill and a
place. -/
theorem emit_separates_iff (row : Row) (t : Template) (hrow : row.compile = .ok t)
    (hwidth : .register 0 ∉ t.operands) (hopen : t.opening?.any Part.opens = true) :
    (∀ tokens tokens' c d, t.capture tokens = .ok c → t.capture tokens' = .ok d →
      t.emit c = t.emit d →
        c.register = d.register ∧ c.place.map Place.base = d.place.map Place.base) ↔
    ¬ (t.hasFill = true ∧ t.hasPlace = true) := by
  have ht := Row.wellFormed_of_compile hrow
  constructor
  · rintro hsep ⟨hf, hp⟩
    have hr : t.operands.any Operand.isRegister = true := by
      have hone := ht.agree.fill_register (countP_pos_iff_any.2 hf)
      exact countP_pos_iff_any.1 (by omega)
    have hd : t.digit? = none := by
      by_contra hn
      have := ht.hasPlace_of_digit hr (Option.isSome_iff_ne_none.2 hn)
      rw [hp] at this
      cases this
    obtain ⟨bits, hcapture⟩ := ht.exists_capture hwidth hr hp
    obtain ⟨tokens, k, hc⟩ := hcapture 8 0
    obtain ⟨tokens', l, hd'⟩ := hcapture 0 8
    have hlow : low (.ofWidth bits 8) = low (.ofWidth bits 0) := by
      rw [low, low, Register.index_ofWidth, Register.index_ofWidth]
      rfl
    have hext : ((Register.r64 0).isExtended || (Register.ofWidth bits 8).isExtended) = true := by
      rw [Register.isExtended, Register.isExtended, Register.index_ofWidth]
      rfl
    have hpieces : memoryPieces 0 (.r64 0) 0 = memoryPieces 0 (.r64 8) 0 := rfl
    have hlayout := layout_eq_of_fill hd hf hlow hpieces rfl hext rfl k l
    have hbase := (hsep _ _ _ _ hc hd' (by rw [emit, emit, hlayout])).2
    cases hbase
  · intro hfp tokens tokens' c d hc hd h
    obtain ⟨hcf, hcc⟩ := fit_of_capture ht hc
    obtain ⟨hdf, hdc⟩ := fit_of_capture ht hd
    obtain ⟨code, hcode, -⟩ := emit_of_fit ht hcf
    have hbytes := bytes_of_emit hcode
    rw [bytes_of_emit (h ▸ hcode)] at hbytes
    have heq := operands_eq_of_bytes ht hcf hdf hcc hdc hfp hwidth hopen hbytes.symm
    rw [Captures.operands, Captures.operands, Operands.mk.injEq] at heq
    have hbase : ∀ p : Place, p.explicit.base = p.base := by
      intro p
      cases p <;> rfl
    have hmap := congrArg (Option.map Place.base) heq.2.1
    rw [Option.map_map, Option.map_map] at hmap
    simp only [Function.comp_def, hbase] at hmap
    exact ⟨heq.1, hmap⟩

/-- The REX marker of this row stands after an opcode byte, where no program in the usual order has
it; registers are told apart all the same. -/
theorem emit_separates_foo :
    let t : Template :=
      ⟨"foo", [.register 64, .place 64], [.byte 0x0F, .rex true, .byte 0xAF], false⟩
    Row.compile ⟨"FOO r64, r/m64", "0F REX.W AF /r"⟩ = .ok t ∧ .register 0 ∉ t.operands ∧
      t.opening?.any Part.opens = true ∧
      ∀ tokens tokens' c d, t.capture tokens = .ok c → t.capture tokens' = .ok d →
        t.emit c = t.emit d →
          c.register = d.register ∧ c.place.map Place.base = d.place.map Place.base := by
  intro t
  have hrow : Row.compile ⟨"FOO r64, r/m64", "0F REX.W AF /r"⟩ = .ok t := by decide +kernel
  have hwidth : .register 0 ∉ t.operands := by decide
  have hopen : t.opening?.any Part.opens = true := by decide
  exact ⟨hrow, hwidth, hopen, (emit_separates_iff _ t hrow hwidth hopen).2 (by decide)⟩

/-- A row may take one register into its opcode byte and the other into its r/m field. Then the code
of `r8d` and `eax` is that of `eax` and `r8d`. -/
theorem emit_confuses_registers :
    let t : Template := ⟨"foo", [.register 32, .place 32], [.fill 0xB8], false⟩
    let c : Captures := ⟨some (.r32 8), some (.register (.r32 0)), [], 4⟩
    let d : Captures := ⟨some (.r32 0), some (.register (.r32 8)), [], 4⟩
    Row.compile ⟨"FOO r32, r/m32", "B8+rd"⟩ = .ok t ∧ .register 0 ∉ t.operands ∧
      t.opening?.any Part.opens = true ∧
      t.capture ["foo", "r8d", ",", "eax"] = .ok c ∧ t.capture ["foo", "eax", ",", "r8d"] = .ok d ∧
      t.emit c = .ok ⟨[0x41, 0xB8, 0xC0], by decide⟩ ∧ t.emit d = t.emit c := by
  decide +kernel

end Template
end RowAsm
