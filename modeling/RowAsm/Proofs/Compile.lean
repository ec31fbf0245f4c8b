import Mathlib
import RowAsm.Table.Basic

/-!
# Templates that rows give

`Template.WellFormed t` collects what the checks of `Row.compile` establish about a template, and
`wellFormed_of_compile` says that they do:

* the mnemonic is in lower case and there are at most two operands;
* every width is 8, 16, 32 or 64 (a register may be of any width, written `0`), and a digit is below
  eight;
* operands and program agree (`Row.Agree`): registers and places have a field of their own, and the
  number operands are the placeholders of the program, one for one;
* no encoding exceeds 15 bytes.

Everything that is said about the templates of a table starts from these facts.
-/

namespace RowAsm

/-- The widths of number fields, registers and memory accesses, in bits. -/
def IsWidth (n : Nat) : Prop := n = 8 ∨ n = 16 ∨ n = 32 ∨ n = 64

/-- The widths of an operand kind are widths. -/
def Operand.Sized : Operand → Prop
  | .immediate bits | .relative bits | .place bits => IsWidth bits
  | .register bits => bits = 0 ∨ IsWidth bits
  | .fixed _ | .memory => True

/-- The widths of a part are widths, and a digit fits the reg field. -/
def Part.Sized : Part → Prop
  | .immediate bits | .relative bits => IsWidth bits
  | .digit d => d < 8
  | .byte _ | .fill _ | .rex _ => True

/-- Operands and program agree. -/
structure Row.Agree (ops : List Operand) (prog : List Part) : Prop where
  opcode : prog.any Part.isOpcode = true
  rex_le : prog.countP Part.isRex ≤ 1
  digits_le : prog.countP Part.isDigit ≤ 1
  fills_le : prog.countP Part.isFill ≤ 1
  registers_le : ops.countP Operand.isRegister ≤ 1
  places_le : ops.countP Operand.isPlace ≤ 1
  /-- A fill takes the register operand. -/
  fill_register : 0 < prog.countP Part.isFill → ops.countP Operand.isRegister = 1
  /-- A register operand has a field to go into. -/
  register_field : ops.countP Operand.isRegister = 1 → 0 < prog.countP Part.isFill ∨
    0 < prog.countP Part.isDigit ∨ ops.countP Operand.isPlace = 1
  /-- A digit leaves no field to a register beside a place. -/
  digit_place : ops.countP Operand.isRegister = 1 → 0 < prog.countP Part.isDigit →
    ops.countP Operand.isPlace = 0
  /-- The number operands are the placeholders, in kind, width and order. -/
  slots : ops.filterMap Operand.slot? = prog.filterMap Part.slot?

/-- What the checks of a row establish about its template. -/
structure Template.WellFormed (t : Template) : Prop where
  lower_mnemonic : Text.lower t.mnemonic = t.mnemonic
  length_operands : t.operands.length ≤ 2
  operands_sized : ∀ o ∈ t.operands, o.Sized
  program_sized : ∀ p ∈ t.program, p.Sized
  agree : Row.Agree t.operands t.program
  maxLength_le : Row.maxLength t.operands t.program t.operandSize ≤ 15

/-! ### Letter case -/

theorem Text.lower_lower (s : String) : lower (lower s) = lower s := by
  apply String.toList_inj.1
  simp

/-! ### Widths -/

theorem Operand.isWidth_of_width? {ds : List Char} {n : Nat} (h : width? ds = some n) :
    IsWidth n := by
  unfold width? at h
  split at h <;> cases h <;> simp [IsWidth]

theorem Operand.sized_of_ofLower? {word : List Char} {o : Operand} (h : ofLower? word = some o) :
    o.Sized := by
  unfold ofLower? at h
  split at h
  · obtain ⟨n, hn, rfl⟩ := Option.map_eq_some_iff.1 h
    exact isWidth_of_width? hn
  · obtain ⟨n, hn, rfl⟩ := Option.map_eq_some_iff.1 h
    exact isWidth_of_width? hn
  · split_ifs at h
    · cases h
      trivial
    · split at h
      · obtain ⟨n, hn, rfl⟩ := Option.map_eq_some_iff.1 h
        exact isWidth_of_width? hn
      · cases h
        exact Or.inl rfl
      · obtain ⟨n, hn, rfl⟩ := Option.map_eq_some_iff.1 h
        exact Or.inr (isWidth_of_width? hn)
      · cases h
        trivial
      · cases h

theorem Operand.sized_of_ofField? {field : List Char} {o : Operand} (h : ofField? field = some o) :
    o.Sized := by
  unfold ofField? at h
  split_ifs at h
  exact sized_of_ofLower? h

theorem Row.sized_of_operands {fs : List (List Char)} {ops : List Operand}
    (h : operands fs = .ok ops) : ops.length = fs.length ∧ ∀ o ∈ ops, o.Sized := by
  induction fs generalizing ops with
  | nil => cases h; simp
  | cons f fs ih =>
    unfold operands at h
    split at h
    · cases h
    · rename_i o ho
      split at h
      · cases h
      · rename_i os hos
        cases h
        obtain ⟨hl, hs⟩ := ih hos
        exact ⟨by simp [hl], by simpa using ⟨Operand.sized_of_ofField? ho, hs⟩⟩

theorem Part.sized_of_ofPattern {tok : List Char} {p : Part} (h : ofPattern tok = .ok p) :
    p.Sized := by
  unfold ofPattern at h
  split at h
  · rename_i d
    split_ifs at h with hd
    cases h
    simp only [Bool.and_eq_true, decide_eq_true_eq] at hd
    have hd7 : d.toNat ≤ 55 := hd.2
    show UInt8.ofNat (d.toNat - 48) < 8
    rw [UInt8.lt_iff_toNat_lt, UInt8.toNat_ofNat']
    simp
    omega
  · cases h
  · split_ifs at h
    split at h
    · split at h
      · split_ifs at h
        cases h
        trivial
      · cases h
    · split at h
      · cases h
        trivial
      · cases h

theorem Part.sized_of_ofToken {tok : List Char} {p : Part} (h : ofToken tok = .ok (some p)) :
    p.Sized := by
  unfold ofToken at h
  split at h
  case h_11 =>
    cases hp : ofPattern tok with
    | error e => rw [hp] at h; cases h
    | ok q =>
      rw [hp] at h
      cases h
      exact sized_of_ofPattern hp
  all_goals cases h <;> simp [Sized, IsWidth]

/-- A part of a program is what a token stands for. -/
theorem Part.exists_token_of_program {toks : List (List Char)} {prog : List Part}
    (h : program toks = .ok prog) {p : Part} (hp : p ∈ prog) :
    ∃ tok ∈ toks, ofToken tok = .ok (some p) := by
  induction toks generalizing prog with
  | nil =>
    cases h
    cases hp
  | cons tok toks ih =>
    unfold program at h
    split at h
    · cases h
    · rename_i q hq
      split at h
      · cases h
      · rename_i ps hps
        cases h
        rcases List.mem_append.1 hp with hp | hp
        · rw [Option.mem_toList] at hp
          subst hp
          exact ⟨tok, List.mem_cons_self, hq⟩
        · obtain ⟨tok', htok', hread⟩ := ih hps hp
          exact ⟨tok', List.mem_cons_of_mem tok htok', hread⟩

theorem Part.sized_of_program {toks : List (List Char)} {prog : List Part}
    (h : program toks = .ok prog) : ∀ p ∈ prog, p.Sized := by
  intro p hp
  obtain ⟨tok, -, htok⟩ := exists_token_of_program h hp
  exact sized_of_ofToken htok

/-! ### Agreement -/

namespace Row

theorem ite_some_eq_none_iff {α : Type} {c : Prop} [Decidable c] {a : α} {o : Option α} :
    (if c then some a else o) = none ↔ ¬ c ∧ o = none := by
  split_ifs with h <;> simp [h]

/-- The checks find nothing exactly if operands and program agree. -/
theorem inconsistency?_eq_none_iff {ops : List Operand} {prog : List Part} :
    inconsistency? ops prog = none ↔ Agree ops prog := by
  simp only [inconsistency?, ite_some_eq_none_iff, Bool.not_eq_true', Bool.or_eq_true,
    Bool.and_eq_true, beq_iff_eq, decide_eq_true_eq, not_or, not_and, not_lt, and_true,
    Bool.not_eq_false, List.isPrefixOf_iff_prefix]
  constructor
  · -- the counts are at most one, so each check that finds nothing is a fact about their signs
    rintro ⟨h1, h2, h3, h4, ⟨h5, h6⟩, h7, h8, h9, h10, h11⟩
    exact
      { opcode := h1, rex_le := h2, digits_le := h3, fills_le := h4, registers_le := h5
        places_le := h6
        fill_register := by omega
        register_field := by omega
        digit_place := by omega
        slots := h10.eq_of_length_le h11 }
  · intro h
    have hf := h.fill_register
    have hr := h.register_field
    have hd := h.digit_place
    refine ⟨h.opcode, h.rex_le, h.digits_le, h.fills_le, ⟨h.registers_le, h.places_le⟩, ?_, ?_, ?_,
      ?_, ?_⟩
    · omega
    · omega
    · omega
    · rw [h.slots]
    · rw [h.slots]

/-! ### Compilation -/

theorem bind_eq_ok {ε α β : Type} {x : Except ε α} {f : α → Except ε β} {b : β}
    (h : x >>= f = .ok b) : ∃ a, x = .ok a ∧ f a = .ok b := by
  cases x with
  | error e => cases h
  | ok a => exact ⟨a, rfl, h⟩

theorem lower_of_opcodeMnemonic? {text : List Char} {m : String}
    (h : opcodeMnemonic? text = some m) : Text.lower m = m := by
  unfold opcodeMnemonic? at h
  split_ifs at h
  cases h
  decide

/-- The operands of a signature are fields of it, and so is the mnemonic unless it is known. -/
theorem headed_cases {known : Option String} {fs rest : List (List Char)} {m : String}
    (h : headed known fs = .ok (m, rest)) :
    rest.length ≤ 2 ∧ rest ⊆ fs ∧
      (known = some m ∨ ∃ f ∈ fs, m = Text.lower (String.ofList f)) := by
  unfold headed at h
  split_ifs at h
  split at h
  · cases h
  · rename_i m' rest' hd
    split_ifs at h with hl
    cases h
    refine ⟨by omega, ?_⟩
    unfold divide at hd
    split at hd <;> cases hd
    · refine ⟨?_, Or.inl rfl⟩
      split_ifs
      · exact List.Subset.refl _
      · exact List.subset_cons_self _ _
    · exact ⟨List.Subset.refl _, Or.inl rfl⟩
    · exact ⟨List.subset_cons_self _ _, Or.inr ⟨_, List.mem_cons_self, rfl⟩⟩

theorem of_headed {known : Option String} {fs rest : List (List Char)} {m : String}
    (hk : ∀ k, known = some k → Text.lower k = k) (h : headed known fs = .ok (m, rest)) :
    Text.lower m = m ∧ rest.length ≤ 2 := by
  obtain ⟨hlen, -, hm⟩ := headed_cases h
  refine ⟨?_, hlen⟩
  rcases hm with hm | ⟨f, -, rfl⟩
  · exact hk m hm
  · exact Text.lower_lower _

theorem of_template {m : String} {ops : List Operand} {prog : List Part} {t : Template}
    (h : template m ops prog = .ok t) :
    t.mnemonic = m ∧ t.operands = ops ∧ t.program = prog ∧ Agree ops prog ∧
      maxLength ops prog t.operandSize ≤ 15 := by
  unfold template at h
  split at h
  · cases h
  · rename_i hc
    simp only at h
    split_ifs at h with hl
    cases h
    exact ⟨rfl, rfl, rfl, inconsistency?_eq_none_iff.1 hc, not_lt.1 hl⟩

/-- The checks that the template of a row has passed. -/
theorem compile_cases {row : Row} {t : Template} (h : row.compile = .ok t) :
    ∃ rest, headed (opcodeMnemonic? (spaced row.opcode)) (fields row.signature) =
        .ok (t.mnemonic, rest) ∧
      operands rest = .ok t.operands ∧ program (spaced row.opcode) = .ok t.program ∧
      template t.mnemonic t.operands t.program = .ok t := by
  -- a chain of checks, each of which passes its result on
  obtain ⟨-, -, h⟩ := bind_eq_ok h
  obtain ⟨⟨m, rest⟩, hhead, h⟩ := bind_eq_ok h
  obtain ⟨ops, hops, h⟩ := bind_eq_ok h
  obtain ⟨prog, hprog, h⟩ := bind_eq_ok h
  obtain ⟨rfl, rfl, rfl, -⟩ := of_template h
  exact ⟨rest, hhead, hops, hprog, h⟩

/-- **The template of a row is well formed.** -/
theorem wellFormed_of_compile {row : Row} {t : Template} (h : row.compile = .ok t) :
    t.WellFormed := by
  obtain ⟨rest, hhead, hops, hprog, htemplate⟩ := compile_cases h
  obtain ⟨hm, hrest⟩ := of_headed (fun k hk => lower_of_opcodeMnemonic? hk) hhead
  obtain ⟨hlen, hsized⟩ := sized_of_operands hops
  obtain ⟨-, -, -, hagree, hmax⟩ := of_template htemplate
  exact
    { lower_mnemonic := hm
      length_operands := by omega
      operands_sized := hsized
      program_sized := Part.sized_of_program hprog
      agree := hagree
      maxLength_le := hmax }

end Row

/-- The templates of a table are those that its rows give. -/
theorem Table.exists_row {rows : List Row} {t : Template}
    (h : t ∈ (Table.compile rows).templates) : ∃ row ∈ rows, row.compile = .ok t := by
  rw [compile, List.mem_filterMap] at h
  obtain ⟨row, hmem, hrow⟩ := h
  cases hc : row.compile with
  | error e => rw [hc] at hrow; cases hrow
  | ok u =>
    rw [hc] at hrow
    cases hrow
    exact ⟨row, hmem, hc⟩

theorem Table.wellFormed_of_mem {rows : List Row} {t : Template}
    (h : t ∈ (Table.compile rows).templates) : t.WellFormed := by
  obtain ⟨row, -, hrow⟩ := exists_row h
  exact Row.wellFormed_of_compile hrow

end RowAsm
