import RowAsm.Proofs.Shape

/-!
# The order of an instruction

The machine wants the bytes of an instruction in one order: `66`, `67`, prefix bytes, REX, opcode,
ModR/M with what belongs to it, numbers. `Template.arranged t c` has the pieces of a layout in that
order, and `Part.InOrder prog` says that the parts of a program are in it, digits aside, which may
stand anywhere.

A layout follows its program, and a row may have its parts in any order. So the layout is in order
exactly if the program is (`layout_eq_arranged_iff`). In one direction the walk through an arranged
program is computed (`walk_arrange`); in the other the program is read off the roles of its pieces
(`roles_walk`).
-/

namespace RowAsm

/-! ### Arranged programs -/

namespace Part

/-- Whether the part reserves a number field. -/
def isNumber (p : Part) : Bool := p.slot?.isSome

/-- The prefix bytes at the head of the opcode bytes. -/
def lead (prog : List Part) : List Part := (prog.filter isOpcode).takeWhile isPrefix

/-- The opcode bytes after the prefix bytes. -/
def main (prog : List Part) : List Part := (prog.filter isOpcode).dropWhile isPrefix

/-- The parts of a program, but for digits, in the order of the machine. -/
def arrange (prog : List Part) : List Part :=
  lead prog ++ (prog.filter isRex ++ (main prog ++ prog.filter isNumber))

/-- The parts of a program, but for digits, are in the order of the machine. -/
def InOrder (prog : List Part) : Prop := prog.filter (fun p => !p.isDigit) = arrange prog

instance (prog : List Part) : Decidable (InOrder prog) := inferInstanceAs (Decidable (_ = _))

theorem lead_append_main (prog : List Part) : lead prog ++ main prog = prog.filter isOpcode :=
  List.takeWhile_append_dropWhile

theorem isPrefix_of_mem_lead {prog : List Part} {p : Part} (h : p ∈ lead prog) :
    p.isPrefix = true := List.mem_takeWhile_imp h

theorem isOpcode_of_mem_main {prog : List Part} {p : Part} (h : p ∈ main prog) :
    p.isOpcode = true :=
  (List.mem_filter.1 ((List.dropWhile_suffix _).subset h)).2

/-- The parts that bring a REX byte are the opcode bytes that are no prefix bytes. -/
theorem bringsRex_eq (p : Part) : p.bringsRex = (p.isOpcode && !p.isPrefix) := by
  cases p <;> simp [bringsRex, isOpcode, isPrefix]

theorem bringsRex_of_main {prog os : List Part} {p : Part} (h : main prog = p :: os) :
    p.bringsRex = true := by
  have hp := List.head?_dropWhile_not isPrefix (prog.filter isOpcode)
  have hmem : p ∈ main prog := by simp [h]
  rw [← main, h] at hp
  rw [bringsRex_eq, isOpcode_of_mem_main hmem]
  simpa using hp

/-- A part brings a REX byte if there are opcode bytes after the prefix bytes. -/
theorem any_bringsRex (prog : List Part) : prog.any bringsRex = !(main prog).isEmpty := by
  cases h : main prog with
  | nil =>
    have hall := List.dropWhile_eq_nil_iff.1 h
    refine List.any_eq_false.2 fun p hp hb => ?_
    rw [bringsRex_eq, Bool.and_eq_true, Bool.not_eq_true'] at hb
    simp [hall p (List.mem_filter.2 ⟨hp, hb.1⟩)] at hb
  | cons p os =>
    have hp : p ∈ main prog := by simp [h]
    have hmem : p ∈ prog := (List.mem_filter.1 ((List.dropWhile_suffix _).subset hp)).1
    exact List.any_eq_true.2 ⟨p, hmem, bringsRex_of_main h⟩

theorem filterMap_filter_isNumber (prog : List Part) :
    (prog.filter isNumber).filterMap slot? = prog.filterMap slot? := by
  rw [List.filterMap_filter]
  congr 1
  funext p
  cases p <;> rfl

end Part

/-- The pieces of a template and its captured operands in the order of the machine. -/
def Template.arranged (t : Template) (c : Captures) : List Piece :=
  let f := Fields.resolve t c
  f.sizePieces t.operandSize ++ ((Part.lead t.program).map f.opcodePiece ++
    ((if t.hasRex || (f.forceRex && t.program.any Part.bringsRex) then [.byte .rex f.rex]
        else []) ++
      ((Part.main t.program).map f.opcodePiece ++
        ((if f.hasModrm then f.modrmPieces else []) ++
          Fields.numberPieces (t.operands.filterMap Operand.slot?) c.immediates))))

namespace Fields

variable (f : Fields)

/-- Digits leave no piece. -/
theorem walk_filter_digit (rex modrm : Bool) (vs : List Int) (prog : List Part) :
    f.walk rex modrm vs (prog.filter fun p => !p.isDigit) = f.walk rex modrm vs prog := by
  induction prog generalizing rex modrm vs with
  | nil => rfl
  | cons p prog ih =>
    by_cases hd : p.isDigit = true
    · rw [List.filter_cons_of_neg (by simp [hd]), ih]
      cases p <;> first | rfl | cases hd
    · rw [List.filter_cons_of_pos (by simpa using hd)]
      cases p <;> simp only [walk, ih]

/-- After the prefix bytes a pending REX byte comes before the other opcode bytes, if there are
any. -/
theorem walk_main (rex modrm : Bool) {vs : List Int} {prog : List Part}
    (hvs : vs.length = (prog.filterMap Part.slot?).length) :
    f.walk rex modrm vs (Part.main prog ++ prog.filter Part.isNumber) =
      (if rex && prog.any Part.bringsRex then [.byte .rex f.rex] else []) ++
        ((Part.main prog).map f.opcodePiece ++ ((if modrm then f.modrmPieces else []) ++
          numberPieces (prog.filterMap Part.slot?) vs)) := by
  have hnumbers : ∀ rex, f.walk rex modrm vs (prog.filter Part.isNumber) =
      (if modrm then f.modrmPieces else []) ++ numberPieces (prog.filterMap Part.slot?) vs := by
    intro rex
    rw [← Part.filterMap_filter_isNumber] at hvs ⊢
    exact walk_numbers f (fun p hp => (List.mem_filter.1 hp).2) rex modrm hvs
  cases hmain : Part.main prog with
  | nil => simp [Part.any_bringsRex, hmain, hnumbers]
  | cons p os =>
    have hp := Part.bringsRex_of_main hmain
    have hos : ∀ q ∈ os, q.isOpcode = true := fun q hq =>
      Part.isOpcode_of_mem_main (hmain ▸ List.mem_cons_of_mem p hq)
    rw [List.cons_append, walk_bringsRex f hp, walk_opcode f hos, hnumbers]
    simp [Part.any_bringsRex, hmain]

/-- **The walk through an arranged program**: prefix bytes, at most one REX byte, opcode bytes, the
ModR/M byte with what belongs to it, numbers. -/
theorem walk_arrange {rex : Bool} (modrm : Bool) {vs : List Int} {prog : List Part}
    (hle : prog.countP Part.isRex ≤ 1) (hrex : rex = true → prog.any Part.isRex = false)
    (hvs : vs.length = (prog.filterMap Part.slot?).length) :
    f.walk rex modrm vs (Part.arrange prog) =
      (Part.lead prog).map f.opcodePiece ++
        ((if prog.any Part.isRex || (rex && prog.any Part.bringsRex) then [.byte .rex f.rex]
            else []) ++
          ((Part.main prog).map f.opcodePiece ++ ((if modrm then f.modrmPieces else []) ++
            numberPieces (prog.filterMap Part.slot?) vs))) := by
  rw [Part.arrange, walk_prefixes f fun p hp => Part.isPrefix_of_mem_lead hp]
  congr 1
  cases hr : prog.filter Part.isRex with
  | nil =>
    have hnone : prog.any Part.isRex = false := by
      rw [List.any_eq_false]
      exact List.filter_eq_nil_iff.1 hr
    rw [List.nil_append, walk_main f rex modrm hvs, hnone, Bool.false_or]
  | cons q qs =>
    -- the program places its only REX byte itself, so none is pending
    obtain rfl : qs = [] := by
      have hlen := congrArg List.length hr
      rw [← List.countP_eq_length_filter, List.length_cons] at hlen
      exact List.length_eq_zero_iff.1 (by omega)
    have hq : q ∈ prog.filter Part.isRex := by simp [hr]
    have hany : prog.any Part.isRex = true :=
      List.any_eq_true.2 ⟨q, List.mem_filter.1 hq⟩
    obtain rfl : rex = false := by
      by_contra h
      simp [hrex (eq_true_of_ne_false h)] at hany
    have hmain := walk_main f false modrm hvs
    rw [Bool.false_and] at hmain
    cases q with
    | rex w => simpa [walk, hany] using hmain
    | byte b => cases (List.mem_filter.1 hq).2
    | fill b => cases (List.mem_filter.1 hq).2
    | digit d => cases (List.mem_filter.1 hq).2
    | immediate n => cases (List.mem_filter.1 hq).2
    | relative n => cases (List.mem_filter.1 hq).2

end Fields

/-! ### Roles -/

/-- The role of the piece that a part leaves. A digit leaves none of its own: it shares the ModR/M
byte. -/
def Part.role : Part → Role
  | .byte _ | .fill _ => .opcode
  | .rex _ => .rex
  | .digit _ => .modrm
  | .immediate _ | .relative _ => .number

/-- The roles of the pieces that parts leave, where REX bytes count if the program places them. -/
def Role.isOfPart (placed : Bool) : Role → Bool
  | .opcode | .number => true
  | .rex => placed
  | _ => false

namespace Fields

variable (f : Fields)

/-- The ModR/M byte and what belongs to it have roles of their own. -/
theorem role_modrmPieces {p : Piece} (h : p ∈ f.modrmPieces) :
    p.role = .modrm ∨ p.role = .sib ∨ p.role = .displacement := by
  have hdisp : ∀ mode d, ∀ p ∈ displacementPieces mode d, p.role = .displacement := by
    intro mode d p hp
    cases mode <;> simp [displacementPieces] at hp <;> simp [hp]
  unfold modrmPieces memoryPieces at h
  split at h
  · simp at h
    simp [h]
  · simp at h
    simp [h]
  · split_ifs at h <;> simp at h
    · rcases h with rfl | rfl <;> simp
    · rcases h with rfl | rfl | h
      · simp
      · simp
      · exact Or.inr (Or.inr (hdisp _ _ p h))
    · rcases h with rfl | h
      · simp
      · exact Or.inr (Or.inr (hdisp _ _ p h))

theorem filter_role_modrmPieces (placed : Bool) :
    (f.modrmPieces.map Piece.role).filter (Role.isOfPart placed) = [] := by
  rw [List.filter_eq_nil_iff]
  intro r hr
  obtain ⟨p, hp, rfl⟩ := List.mem_map.1 hr
  rcases role_modrmPieces f hp with h | h | h <;> simp [h, Role.isOfPart]

/-- **The roles of its pieces tell the program**: they are those of its parts in their order, but
for the ModR/M byte and a REX byte that the program does not place. -/
theorem roles_walk {placed rex : Bool} (modrm : Bool) (vs : List Int) {prog : List Part}
    (hrex : rex = true → placed = false) (hprog : placed = false → prog.any Part.isRex = false) :
    ((f.walk rex modrm vs prog).map Piece.role).filter (Role.isOfPart placed) =
      (prog.filter fun p => !p.isDigit).map Part.role := by
  have hmod : ((if modrm then f.modrmPieces else []).map Piece.role).filter
      (Role.isOfPart placed) = [] := by
    split_ifs
    · exact filter_role_modrmPieces f placed
    · rfl
  induction prog generalizing rex modrm vs with
  | nil => simpa [walk] using hmod
  | cons p prog ih =>
    have htail : placed = false → prog.any Part.isRex = false := by
      intro h
      have := hprog h
      rw [List.any_cons, Bool.or_eq_false_iff] at this
      exact this.2
    have hpending : ((if rex then [Piece.byte .rex f.rex] else []).map Piece.role).filter
        (Role.isOfPart placed) = [] := by
      cases hr : rex with
      | true => simp [Role.isOfPart, hrex hr]
      | false => rfl
    cases p with
    | byte b =>
      rw [List.filter_cons_of_pos rfl, List.map_cons, walk]
      split_ifs with hb
      · -- only a REX byte that the program does not place is pending
        rw [Bool.and_eq_true] at hb
        rw [if_pos hb.1] at hpending
        rw [← List.singleton_append, List.map_append, List.filter_append, hpending,
          List.nil_append, List.map_cons, List.filter_cons_of_pos rfl,
          ih modrm vs (by simp) htail hmod]
        rfl
      · rw [List.map_cons, List.filter_cons_of_pos rfl, ih modrm vs hrex htail hmod]
        rfl
    | fill b =>
      rw [List.filter_cons_of_pos rfl, List.map_cons, walk, List.map_append, List.filter_append,
        hpending, List.nil_append, List.map_cons, List.filter_cons_of_pos rfl,
        ih modrm vs (by simp) htail hmod]
      rfl
    | digit d =>
      rw [List.filter_cons_of_neg (by simp [Part.isDigit]), walk, ih modrm vs hrex htail hmod]
    | rex w =>
      have hplaced : placed = true := by
        by_contra h
        cases hprog (eq_false_of_ne_true h)
      rw [List.filter_cons_of_pos rfl, List.map_cons, walk, List.map_cons,
        List.filter_cons_of_pos (by simp [Role.isOfPart, hplaced]),
        ih modrm vs hrex htail hmod]
      rfl
    | immediate n =>
      rw [List.filter_cons_of_pos rfl, List.map_cons, walk, List.map_append, List.filter_append,
        hmod, List.nil_append, List.map_cons, List.filter_cons_of_pos rfl,
        ih false vs.tail hrex htail rfl]
      rfl
    | relative n =>
      rw [List.filter_cons_of_pos rfl, List.map_cons, walk, List.map_append, List.filter_append,
        hmod, List.nil_append, List.map_cons, List.filter_cons_of_pos rfl,
        ih false vs.tail hrex htail rfl]
      rfl

end Fields

/-! ### Programs told from their roles -/

/-- A list is told by the values of a function on it and, for each value, by the members that have
it. -/
theorem eq_of_map_eq_of_filter_eq {α β : Type} [DecidableEq β] {g : α → β} {l l' : List α}
    (hmap : l.map g = l'.map g)
    (hfilter : ∀ b, l.filter (fun a => g a = b) = l'.filter (fun a => g a = b)) : l = l' := by
  induction l generalizing l' with
  | nil =>
    cases l' with
    | nil => rfl
    | cons a' l' => cases hmap
  | cons a l ih =>
    cases l' with
    | nil => cases hmap
    | cons a' l' =>
      rw [List.map_cons, List.map_cons, List.cons.injEq] at hmap
      obtain rfl : a = a' := by
        have h := hfilter (g a)
        rw [List.filter_cons_of_pos (by simp), List.filter_cons_of_pos (by simp [hmap.1])] at h
        exact (List.cons.inj h).1
      rw [ih hmap.2]
      intro b
      have h := hfilter b
      by_cases hb : g a = b
      · rw [List.filter_cons_of_pos (by simpa using hb),
          List.filter_cons_of_pos (by simpa using hb)] at h
        exact (List.cons.inj h).2
      · rwa [List.filter_cons_of_neg (by simpa using hb),
          List.filter_cons_of_neg (by simpa using hb)] at h

namespace Part

/-- Arranging keeps the parts of each role, in their order. -/
theorem filter_role_arrange (prog : List Part) (r : Role) :
    (arrange prog).filter (fun p => p.role = r) =
      (prog.filter fun p => !p.isDigit).filter (fun p => p.role = r) := by
  -- a sort of parts has the role altogether or not at all
  have hkeep : ∀ s : Part → Bool, (∀ p, p.role = r → s p = !p.isDigit) →
      prog.filter (fun p => decide (p.role = r) && s p) =
        prog.filter fun p => decide (p.role = r) && !p.isDigit := by
    intro s hs
    refine List.filter_congr fun p _ => ?_
    by_cases hp : p.role = r
    · rw [hs p hp]
    · simp [hp]
  have hdrop : ∀ s : Part → Bool, (∀ p, p.role = r → s p = false) →
      prog.filter (fun p => decide (p.role = r) && s p) = [] := by
    intro s hs
    refine List.filter_eq_nil_iff.2 fun p _ hp => ?_
    rw [Bool.and_eq_true, decide_eq_true_eq] at hp
    simp [hs p hp.1] at hp
  have hopcode : (lead prog).filter (fun p => p.role = r) ++
      (main prog).filter (fun p => p.role = r) =
        prog.filter fun p => decide (p.role = r) && p.isOpcode := by
    rw [← List.filter_append, lead_append_main, List.filter_filter]
  rw [arrange, List.filter_append, List.filter_append, List.filter_append, List.filter_filter,
    List.filter_filter, List.filter_filter]
  by_cases hr : r = .opcode
  · have hrex := hdrop isRex (by intro p; cases p <;> simp [Part.role, isRex, hr])
    have hnumber := hdrop isNumber (by intro p; cases p <;> simp [Part.role, isNumber, slot?, hr])
    rw [hrex, hnumber, List.nil_append, List.append_nil, hopcode]
    exact hkeep isOpcode (by intro p; cases p <;> simp [Part.role, isOpcode, isDigit, hr])
  · have hnone := hdrop isOpcode (by intro p; cases p <;> simp [Part.role, isOpcode, Ne.symm hr])
    obtain ⟨hlead, hmain⟩ := List.append_eq_nil_iff.1 (hopcode.trans hnone)
    rw [hlead, hmain, List.nil_append, List.nil_append]
    by_cases hr' : r = .rex
    · rw [hdrop isNumber (by intro p; cases p <;> simp [Part.role, isNumber, slot?, hr']),
        List.append_nil]
      exact hkeep isRex (by intro p; cases p <;> simp [Part.role, isRex, isDigit, hr'])
    · rw [hdrop isRex (by intro p; cases p <;> simp [Part.role, isRex, Ne.symm hr']),
        List.nil_append]
      refine hkeep isNumber ?_
      intro p
      cases p <;> simp [Part.role, isNumber, slot?, isDigit, Ne.symm hr, Ne.symm hr']

/-- Arranging leaves digits out and nothing else. -/
theorem mem_arrange {prog : List Part} {p : Part} :
    p ∈ arrange prog ↔ p ∈ prog ∧ p.isDigit = false := by
  have hopcode : p ∈ lead prog ∨ p ∈ main prog ↔ p ∈ prog ∧ p.isOpcode = true := by
    rw [← List.mem_append, lead_append_main, List.mem_filter]
  have hsplit : p ∈ arrange prog ↔ (p ∈ lead prog ∨ p ∈ main prog) ∨
      p ∈ prog.filter isRex ∨ p ∈ prog.filter isNumber := by
    simp only [arrange, List.mem_append]
    tauto
  rw [hsplit, hopcode, List.mem_filter, List.mem_filter, ← and_or_left, ← and_or_left]
  cases p <;> simp [isOpcode, isRex, isNumber, slot?, isDigit]

theorem any_isRex_arrange (prog : List Part) : (arrange prog).any isRex = prog.any isRex := by
  rw [Bool.eq_iff_iff, List.any_eq_true, List.any_eq_true]
  refine exists_congr fun p => ?_
  rw [mem_arrange]
  cases p <;> simp [isRex, isDigit]

end Part

namespace Template

open Fields

variable {t : Template} {c : Captures}

theorem arranged_eq (ht : t.WellFormed) (hc : c.Fit t.operands) :
    t.arranged c = (resolve t c).sizePieces t.operandSize ++
      (resolve t c).walk (resolve t c).forceRex (resolve t c).hasModrm c.immediates
        (Part.arrange t.program) := by
  have hforce : (resolve t c).forceRex = true → t.program.any Part.isRex = false :=
    fun h => (of_forceRex h).1
  have hlen : c.immediates.length = (t.program.filterMap Part.slot?).length := by
    rw [← ht.agree.slots]
    exact hc.length_immediates
  rw [walk_arrange _ _ ht.agree.rex_le hforce hlen, ← ht.agree.slots]
  rfl

/-- **A layout is in the order of the machine exactly if the program is.** -/
theorem layout_eq_arranged_iff (ht : t.WellFormed) (hc : c.Fit t.operands) :
    t.layout c = t.arranged c ↔ Part.InOrder t.program := by
  rw [arranged_eq ht hc, layout, List.append_cancel_left_eq]
  constructor
  · intro h
    have hforce : (resolve t c).forceRex = true → t.program.any Part.isRex = false :=
      fun h => (of_forceRex h).1
    have hroles : ∀ prog : List Part, prog.any Part.isRex = t.program.any Part.isRex →
        (((resolve t c).walk (resolve t c).forceRex (resolve t c).hasModrm c.immediates
          prog).map Piece.role).filter (Role.isOfPart (t.program.any Part.isRex)) =
        (prog.filter fun p => !p.isDigit).map Part.role := by
      intro prog hany
      exact roles_walk _ _ _ hforce (by rw [hany]; exact id)
    have hmap := hroles _ rfl
    rw [h, hroles _ (Part.any_isRex_arrange _), List.filter_eq_self.2 fun p hp => by
      simp [(Part.mem_arrange.1 hp).2]] at hmap
    exact eq_of_map_eq_of_filter_eq hmap.symm fun r => (Part.filter_role_arrange _ r).symm
  · intro h
    rw [← h, walk_filter_digit]

/-- **The order of an instruction.** A statement that matches the template of a row has code, which
is the concatenation of the layout; and the layout is `66`, `67`, the prefix bytes of the program,
at most one REX byte, the other opcode bytes, ModR/M with what belongs to it and the numbers of the
operands, in this order, exactly if the program is in order. -/
theorem emit_in_order_iff (row : Row) (t : Template) (hrow : row.compile = .ok t)
    (tokens : List String) (c : Captures) (hcap : t.capture tokens = .ok c) :
    ∃ code, t.emit c = .ok code ∧ code.bytes = (t.layout c).flatMap Piece.bytes ∧
      (t.layout c = t.arranged c ↔ Part.InOrder t.program) := by
  have ht := Row.wellFormed_of_compile hrow
  have hfit := (fit_of_capture ht hcap).1
  obtain ⟨code, hemit, -⟩ := emit_of_fit ht hfit
  exact ⟨code, hemit, bytes_of_emit hemit, layout_eq_arranged_iff ht hfit⟩

/-- A prefix byte before the REX marker, and after the first opcode byte one that only looks like a
prefix byte. -/
theorem emit_in_order_foo :
    let t : Template := ⟨"foo", [.place 64, .immediate 8],
      [.byte 0xF3, .rex true, .byte 0x0F, .digit 4, .byte 0x66, .immediate 8], false⟩
    let c : Captures := ⟨none, some (.memory (.r32 13) none), [-1], 9⟩
    Row.compile ⟨"FOO r/m64, imm8", "F3 REX.W + 0F /4 66 ib"⟩ = .ok t ∧
      t.capture ["foo", "qword", "ptr", "[", "r13d", "]", ",", "-", "1"] = .ok c ∧
      Part.InOrder t.program ∧ t.layout c = t.arranged c ∧
      (t.layout c).flatMap Piece.bytes = [0x67, 0xF3, 0x49, 0x0F, 0x66, 0x65, 0x00, 0xFF] := by
  intro t c
  have hrow : Row.compile ⟨"FOO r/m64, imm8", "F3 REX.W + 0F /4 66 ib"⟩ = .ok t := by
    decide +kernel
  have hcap : t.capture ["foo", "qword", "ptr", "[", "r13d", "]", ",", "-", "1"] = .ok c := by
    decide +kernel
  have horder : Part.InOrder t.program := by decide
  obtain ⟨-, -, -, hiff⟩ := emit_in_order_iff _ t hrow _ c hcap
  exact ⟨hrow, hcap, horder, hiff.2 horder, by decide +kernel⟩

/-- A row may put its number before its opcode byte, and then the code does too. -/
theorem layout_number_before_opcode :
    let t : Template := ⟨"foo", [.immediate 8], [.immediate 8, .byte 0x90], false⟩
    let c : Captures := ⟨none, none, [5], 2⟩
    Row.compile ⟨"FOO imm8", "ib 90"⟩ = .ok t ∧ t.capture ["foo", "5"] = .ok c ∧
      t.layout c = [.word .number 1 5, .byte .opcode 0x90] ∧
      t.arranged c = [.byte .opcode 0x90, .word .number 1 5] := by
  decide +kernel

end Template
end RowAsm
