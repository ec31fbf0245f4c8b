import RowAsm.Proofs.ColumnSpelling
import RowAsm.Proofs.LetterCase
import RowAsm.Proofs.OperandKinds

/-!
# Rows written from templates

`Template.signature` and `Template.column` write a template as a row. Cutting a joined text gives
its pieces back (`Text.words_join`), the name of an operand kind is read as this kind
(`Operand.ofField?_display`), and a mnemonic is a field of its own (`Row.fields_signature`). So the
row gives the template again, and so does every row with another spelling of its opcode column
(`Row.compile_written`).

Two sorts of templates are left out: branch offsets of 16 bits, whose name is refused, and templates
that have the program of a far return under another mnemonic, which their column overrules.
-/

namespace RowAsm

/-! ### Cutting joined texts -/

namespace Text

variable {α : Type}

theorem isWord_of_all {sep : α → Bool} {w : List α}
    (h : (!w.isEmpty && w.all fun a => !sep a) = true) : IsWord sep w := by
  rw [Bool.and_eq_true] at h
  exact ⟨by simpa using h.1, by simpa using h.2⟩

/-- **Cutting a joined text gives its pieces**, if only separators are between them. -/
theorem words_join {sep : Char → Bool} {glue : String} (hne : glue.toList ≠ [])
    (hglue : glue.toList.all sep = true) {ss : List String}
    (hss : ∀ s ∈ ss, IsWord sep s.toList) :
    words sep (join glue ss).toList = ss.map String.toList := by
  induction ss using join.induct with
  | case1 => rfl
  | case2 s =>
    obtain ⟨hs, hsep⟩ := hss s (by simp)
    rw [join, words_of_not_sep hs hsep, List.map_singleton]
  | case3 s rest hrest ih =>
    obtain ⟨hs, hsep⟩ := hss s (by simp)
    have hhead : ∀ c ∈ (glue.toList ++ (join glue rest).toList).head?, sep c = true := by
      intro c hc
      rw [List.head?_append_of_ne_nil _ hne] at hc
      exact List.all_eq_true.1 hglue c (List.mem_of_mem_head? hc)
    have htail := ih fun s hs => hss s (List.mem_cons_of_mem _ hs)
    rw [join, String.toList_append, String.toList_append, List.append_assoc,
      words_append_of_not_sep hs hsep hhead, words_append_of_sep (List.all_eq_true.1 hglue), htail,
      List.map_cons]
    exact hrest

end Text

/-! ### Writing a template -/

/-- The token of a part, with a size after the mark of a byte that takes a register. -/
def Part.spelling (size : List Char) : Part → String
  | .fill b => (Part.fill b).display ++ String.ofList size
  | p => p.display

namespace Template

/-- The signature of a template. -/
def signature (t : Template) : String :=
  t.mnemonic ++ " " ++ Text.join ", " (t.operands.map Operand.display)

/-- The opcode column of a template. -/
def column (t : Template) (size : List Char) : String :=
  Text.join " " (t.program.map (Part.spelling size))

end Template

/-! ### The signature -/

/-- The characters between the fields of a signature. -/
def Row.isGap (c : Char) : Bool := c == ',' || c == ' '

namespace Operand

theorem isWord_display {o : Operand} (h : o ∈ kinds) : Text.IsWord Row.isGap o.display.toList := by
  have hall : kinds.all (fun o => !o.display.toList.isEmpty &&
      o.display.toList.all fun c => !Row.isGap c) = true := by
    decide +kernel
  exact Text.isWord_of_all (List.all_eq_true.1 hall o h)

/-- The name of a kind is read as this kind, unless it is skipped. -/
theorem ofField?_display {o : Operand} (h : o ∈ kinds) (hshort : o ≠ .relative 16) :
    ofField? o.display.toList = some o := by
  have hall : kinds.all (fun o => o = .relative 16 ∨ (o.display.toList ≠ shortBranch ∧
      ofLower? (o.display.toList.map Char.toLower) = some o)) = true := by
    decide +kernel
  have ho := List.all_eq_true.1 hall o h
  rw [decide_eq_true_eq] at ho
  obtain ⟨hne, hlower⟩ := ho.resolve_left hshort
  rw [ofField?_eq, if_neg hne, hlower]

end Operand

namespace Row

/-- A gap is no letter, so a field in lower case is a field. -/
theorem isWord_map_toLower {f : List Char} (h : Text.IsWord isGap f) :
    Text.IsWord isGap (f.map Char.toLower) := by
  refine ⟨by simpa using h.ne_nil, fun c hc => ?_⟩
  obtain ⟨d, hd, rfl⟩ := List.mem_map.1 hc
  have hgap := h.not_sep d hd
  rw [isGap, Bool.or_eq_false_iff, beq_eq_false_iff_ne, beq_eq_false_iff_ne] at hgap ⊢
  exact hgap.imp (mt (Text.toLower_eq_iff rfl d).1) (mt (Text.toLower_eq_iff rfl d).1)

/-- A mnemonic is a field of a signature. -/
theorem isWord_mnemonic {row : Row} {t : Template} (h : row.compile = .ok t) :
    Text.IsWord isGap t.mnemonic.toList := by
  obtain ⟨rest, hhead, -⟩ := compile_cases h
  obtain ⟨-, -, hknown | ⟨f, hf, hm⟩⟩ := headed_cases hhead
  · unfold opcodeMnemonic? at hknown
    split_ifs at hknown
    rw [← Option.some.inj hknown]
    exact Text.isWord_of_all (by decide)
  · rw [hm, Text.toList_lower, String.toList_ofList]
    exact isWord_map_toLower (Text.isWord_of_mem_words hf)

/-- **The fields of a signature** are the mnemonic and the names of the operands. -/
theorem fields_signature {t : Template} (hm : Text.IsWord isGap t.mnemonic.toList)
    (hops : ∀ o ∈ t.operands, o ∈ Operand.kinds) :
    fields t.signature = t.mnemonic.toList :: t.operands.map fun o => o.display.toList := by
  have hnames : ∀ s ∈ t.operands.map Operand.display, Text.IsWord isGap s.toList := by
    intro s hs
    obtain ⟨o, ho, rfl⟩ := List.mem_map.1 hs
    exact Operand.isWord_display (hops o ho)
  have hjoin : Text.words isGap (Text.join ", " (t.operands.map Operand.display)).toList =
      t.operands.map fun o => o.display.toList := by
    rw [Text.words_join (by decide) (by decide) hnames, List.map_map]
    rfl
  have hfields : fields t.signature = Text.words isGap (t.mnemonic.toList ++
      ' ' :: (Text.join ", " (t.operands.map Operand.display)).toList) := by
    simp only [fields, Template.signature, String.toList_append, List.append_assoc]
    rfl
  rw [hfields, Text.words_append_cons rfl, Text.words_of_not_sep hm.ne_nil hm.not_sep, hjoin,
    List.singleton_append]

theorem operands_display {ops : List Operand} (hops : ∀ o ∈ ops, o ∈ Operand.kinds)
    (hshort : .relative 16 ∉ ops) : operands (ops.map fun o => o.display.toList) = .ok ops := by
  induction ops with
  | nil => rfl
  | cons o ops ih =>
    rw [List.mem_cons, not_or] at hshort
    have ho := Operand.ofField?_display (hops o (by simp)) (Ne.symm hshort.1)
    have htail := ih (fun o ho => hops o (List.mem_cons_of_mem _ ho)) hshort.2
    simp only [List.map_cons, operands, ho, htail]

/-- A signature is divided behind its mnemonic, which may be known as well. -/
theorem headed_mnemonic {known : Option String} {m : String} {rest : List (List Char)}
    (hlower : Text.lower m = m)
    (hknown : ∀ k ∈ known, k = m ∧ Operand.ofField? m.toList = none) (hrest : rest.length ≤ 2) :
    headed known (m.toList :: rest) = .ok (m, rest) := by
  have hdivide : divide known (m.toList :: rest) = .ok (m, rest) := by
    cases known with
    | none => rw [divide, String.ofList_toList, hlower]
    | some k =>
      obtain ⟨rfl, hnone⟩ := hknown k rfl
      simp [divide, hnone]
  have hlength : ¬ 3 < (m.toList :: rest).length := by
    rw [List.length_cons]
    omega
  rw [headed, if_neg hlength, hdivide]
  exact if_neg (by omega)

/-! ### The opcode column -/

theorem isWord_spelling {p : Part} (h : p.HasToken) {size : List Char}
    (hs : size ∈ Part.fillSizes) : Text.IsWord Text.isBlank (p.spelling size).toList := by
  have hmarks : Part.marks.all (fun p => !p.display.toList.isEmpty &&
      p.display.toList.all fun c => !Text.isBlank c) = true := by
    decide +kernel
  cases p with
  | byte b =>
    exact ⟨by simp [Part.spelling, Part.display, Text.hexByte], Text.not_isBlank_hexByte b⟩
  | fill b =>
    have hchars : (Part.spelling size (.fill b)).toList =
        (Text.hexByte b).toList ++ (['+', 'r'] ++ size) := by
      simp [Part.spelling, Part.display]
    rw [hchars]
    refine ⟨by simp, fun c hc => ?_⟩
    rcases List.mem_append.1 hc with hc | hc
    · exact Text.not_isBlank_hexByte b c hc
    · exact Part.not_isBlank_mark hs c hc
  | digit | rex | immediate | relative =>
    exact Text.isWord_of_all (List.all_eq_true.1 hmarks _ (h.mem_marks rfl))

theorem words_column {t : Template} (h : ∀ p ∈ t.program, p.HasToken) {size : List Char}
    (hs : size ∈ Part.fillSizes) : Text.words Text.isBlank (t.column size).toList =
      t.program.map fun p => (p.spelling size).toList := by
  have hspellings : ∀ s ∈ t.program.map (Part.spelling size),
      Text.IsWord Text.isBlank s.toList := by
    intro s hmem
    obtain ⟨p, hp, rfl⟩ := List.mem_map.1 hmem
    exact isWord_spelling (h p hp) hs
  rw [Template.column, Text.words_join (by decide) (by decide) hspellings, List.map_map]
  rfl

/-- The column of a template is one of its spellings. -/
theorem column_spelling (ps : List Part) {size : List Char} (hs : size ∈ Part.fillSizes) :
    Column ps (ps.map fun p => (p.spelling size).toList) := by
  induction ps using List.reverseRecOn with
  | nil => exact .nil
  | append_singleton ps p ih =>
    have hp : Part.Written (some p) [(p.spelling size).toList] := by
      cases p with
      | fill b => simpa [Part.spelling] using Part.Written.fill hs
      | byte | digit | rex | immediate | relative => exact .plain rfl
    rw [List.map_append]
    exact ih.item hp

/-- A column that brings its own mnemonic is that of a far return. -/
theorem of_opcodeMnemonic? {text : List Char} {m : String} {prog : List Part}
    (h : opcodeMnemonic? text = some m) (hprog : program text = .ok prog) :
    m = "retf" ∧ (prog = [.byte 0xCB] ∨ prog = [.byte 0xCA, .immediate 16]) := by
  have hnear : program "CB".toList = .ok [.byte 0xCB] := by decide +kernel
  have hpop : program "CA iw".toList = .ok [.byte 0xCA, .immediate 16] := by decide +kernel
  unfold opcodeMnemonic? at h
  split_ifs at h with htext
  refine ⟨(Option.some.inj h).symm, ?_⟩
  rcases htext with rfl | rfl
  · exact Or.inl (Except.ok.inj (hprog.symm.trans hnear))
  · exact Or.inr (Except.ok.inj (hprog.symm.trans hpop))

/-! ### Rows -/

/-- **A template can be written as a row**, which gives it again: its mnemonic and the names of its
operands in the signature, and its program in the opcode column, in any spelling of it. -/
theorem compile_written {row : Row} {t : Template} (h : row.compile = .ok t)
    (hshort : .relative 16 ∉ t.operands)
    (hreturn : t.program = [.byte 0xCB] ∨ t.program = [.byte 0xCA, .immediate 16] →
      t.mnemonic = "retf") :
    (∀ size ∈ Part.fillSizes, (⟨t.signature, t.column size⟩ : Row).compile = .ok t) ∧
      ∀ opcode : String, Column t.program (Text.words Text.isBlank opcode.toList) →
        (⟨t.signature, opcode⟩ : Row).compile = .ok t := by
  obtain ⟨-, -, -, hread, htemplate⟩ := compile_cases h
  have htokens : ∀ p ∈ t.program, p.HasToken := fun p => Part.hasToken_of_program hread
  have hkinds : ∀ o ∈ t.operands, o ∈ Operand.kinds := fun o => mem_kinds_of_compile h
  have hwell := wellFormed_of_compile h
  have hwritten : ∀ opcode : String, Column t.program (Text.words Text.isBlank opcode.toList) →
      (⟨t.signature, opcode⟩ : Row).compile = .ok t := by
    intro opcode hcolumn
    have hprog : program (spaced opcode) = .ok t.program := by
      rw [spaced, program_intercalate]
      exact program_of_column hcolumn htokens
    have hhead : headed (opcodeMnemonic? (spaced opcode)) (fields t.signature) =
        .ok (t.mnemonic, t.operands.map fun o => o.display.toList) := by
      rw [fields_signature (isWord_mnemonic h) hkinds]
      refine headed_mnemonic hwell.lower_mnemonic (fun k hk => ?_) ?_
      · -- the column has the mnemonic of a far return, and so does the signature
        obtain ⟨rfl, hreturns⟩ := of_opcodeMnemonic? hk hprog
        rw [hreturn hreturns]
        exact ⟨rfl, by decide +kernel⟩
      · rw [List.length_map]
        exact hwell.length_operands
    calc (⟨t.signature, opcode⟩ : Row).compile
        = template t.mnemonic t.operands t.program :=
          compile_eq_template hhead (operands_display hkinds hshort) hprog
      _ = .ok t := htemplate
  refine ⟨fun size hs => hwritten _ ?_, hwritten⟩
  rw [words_column htokens hs]
  exact column_spelling t.program hs

/-- A column with a plus sign after its REX marker, a mark in two pieces, a digit that sticks to it,
a remark, and blanks of several sorts. -/
theorem compile_written_foo :
    let t : Template := ⟨"foo", [.register 64, .immediate 64],
      [.rex true, .fill 0xB8, .digit 2, .immediate 64], false⟩
    let opcode := " REX.W  +\tB8+ rd/2 /r\u2003io"
    (⟨"FOO r64,imm64", "REX.W b8+ro /2 io"⟩ : Row).compile = .ok t ∧
      (t.signature = "foo r64, imm64" ∧ t.column ['d'] = "REX.W B8+rd /2 io") ∧
      (⟨t.signature, t.column ['d']⟩ : Row).compile = .ok t ∧
      Column t.program (Text.words Text.isBlank opcode.toList) ∧
      (⟨t.signature, opcode⟩ : Row).compile = .ok t := by
  intro t opcode
  have hrow : (⟨"FOO r64,imm64", "REX.W b8+ro /2 io"⟩ : Row).compile = .ok t := by decide +kernel
  have hwords : Text.words Text.isBlank opcode.toList =
      [['R', 'E', 'X', '.', 'W'], ['+'], ['B', '8', '+'], ['r', 'd', '/', '2'], ['/', 'r'],
        ['i', 'o']] := by
    decide +kernel
  have hcolumn : Column t.program (Text.words Text.isBlank opcode.toList) := by
    rw [hwords]
    have hrex : Column [.rex true] [['R', 'E', 'X', '.', 'W'], ['+']] := Column.nil.item .rex
    have hfill : Column [.rex true, .fill 0xB8]
        ([['R', 'E', 'X', '.', 'W'], ['+'], ['B', '8', '+']] ++ [['r', 'd']]) :=
      hrex.item (.fillAfter (by decide))
    have hdigit : Column [.rex true, .fill 0xB8, .digit 2]
        [['R', 'E', 'X', '.', 'W'], ['+'], ['B', '8', '+'], ['r', 'd', '/', '2']] :=
      hfill.glued
    exact (hdigit.item .remark).item (.plain rfl)
  obtain ⟨hplain, hspelled⟩ := compile_written hrow (by decide) (by decide)
  exact ⟨hrow, ⟨by decide +kernel, by decide +kernel⟩, hplain _ (by decide), hcolumn,
    hspelled _ hcolumn⟩

end Row
end RowAsm
