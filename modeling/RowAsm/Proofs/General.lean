import RowAsm.Proofs.Shape
import RowAsm.Table.General

/-!
# The built-in templates are canonical

`Row.outline? signature opcode` reads a template off the characters of the two columns and checks
nothing. A row that gives a template gives the one of its outline (`outline?_of_compile`), so that
what is to be shown of the built-in templates can be evaluated on the outlines (`check_outlines`).

The characters of the rows are found by unification (`Table.generalCharacters`): a string is the
list of its characters at once, while taking it apart means decoding it byte by byte.
-/

namespace RowAsm

/-! ### Outlines -/

namespace Row

/-- The operand kinds of a list of fields, none of them left out. -/
def kinds : List (List Char) → Option (List Operand)
  | [] => some []
  | f :: fs =>
    match Operand.ofLower? (f.map Char.toLower), kinds fs with
    | some o, some os => some (o :: os)
    | _, _ => none

/-- The template that the characters of a row stand for. -/
def outline? (signature opcode : List Char) : Option Template :=
  let text := [' '].intercalate (Text.words Text.isBlank opcode)
  match headed (opcodeMnemonic? text) (Text.words (fun c => c == ',' || c == ' ') signature),
    program text with
  | .ok (m, rest), .ok prog => (kinds rest).map fun ops =>
    ⟨m, ops, prog, wantsOperandSize ops && prog.head? != some (.byte 0x66)⟩
  | _, _ => none

theorem kinds_of_operands {fs : List (List Char)} {ops : List Operand} (h : operands fs = .ok ops) :
    kinds fs = some ops := by
  induction fs generalizing ops with
  | nil =>
    cases h
    rfl
  | cons f fs ih =>
    unfold operands at h
    split at h
    · cases h
    · rename_i o ho
      split at h
      · cases h
      · rename_i os hos
        cases h
        unfold Operand.ofField? at ho
        split_ifs at ho
        rw [kinds, ho, ih hos]

theorem eq_of_template {m : String} {ops : List Operand} {prog : List Part} {t : Template}
    (h : template m ops prog = .ok t) :
    t = ⟨m, ops, prog, wantsOperandSize ops && prog.head? != some (.byte 0x66)⟩ := by
  unfold template at h
  split at h
  · cases h
  · simp only at h
    split_ifs at h
    cases h
    rfl

/-- The template of a row is that of its outline. -/
theorem outline?_of_compile {row : Row} {t : Template} (h : row.compile = .ok t) :
    outline? row.signature.toList row.opcode.toList = some t := by
  obtain ⟨rest, hhead, hops, hprog, htemplate⟩ := compile_cases h
  rw [eq_of_template htemplate]
  have htext : [' '].intercalate (Text.words Text.isBlank row.opcode.toList) =
      spaced row.opcode := rfl
  have hfields : Text.words (fun c => c == ',' || c == ' ') row.signature.toList =
      fields row.signature := rfl
  simp only [outline?]
  rw [htext, hfields, hhead, hprog]
  simp [kinds_of_operands hops]

/-- The outlines of some rows. -/
def outlines (rows : List Row) : List Template :=
  rows.filterMap fun row => outline? row.signature.toList row.opcode.toList

/-- The templates of a table are outlines of its rows, in their order. -/
theorem templates_sublist_outlines (rows : List Row) :
    (Table.compile rows).templates.Sublist (outlines rows) := by
  show (rows.filterMap fun row => row.compile.toOption).Sublist (outlines rows)
  unfold outlines
  induction rows with
  | nil => exact .slnil
  | cons row rows ih =>
    cases h : row.compile with
    | error e =>
      rw [List.filterMap_cons_none (by rw [h]; rfl)]
      exact ih.trans ((List.sublist_cons_self row rows).filterMap _)
    | ok t =>
      rw [List.filterMap_cons_some (by rw [h]; rfl)]
      simp only [List.filterMap_cons, outline?_of_compile h]
      exact ih.cons_cons t

/-! ### Characters of rows -/

/-- The row of two lists of characters. -/
def ofChars (p : List Char × List Char) : Row := ⟨String.ofList p.1, String.ofList p.2⟩

theorem spelled_nil : [] = [].map ofChars := rfl

theorem spelled_cons {row : Row} {rows : List Row} {p : List Char × List Char}
    {l : List (List Char × List Char)} (hrow : row = ofChars p) (h : rows = l.map ofChars) :
    row :: rows = (p :: l).map ofChars := by
  rw [hrow, h, List.map_cons]

theorem spelled_append {rows rows' : List Row} {l l' : List (List Char × List Char)}
    (h : rows = l.map ofChars) (h' : rows' = l'.map ofChars) :
    rows ++ rows' = (l ++ l').map ofChars := by
  rw [h, h', List.map_append]

theorem outlines_of_spelled {rows : List Row} {l : List (List Char × List Char)}
    (h : rows = l.map ofChars) : outlines rows = l.filterMap fun p => outline? p.1 p.2 := by
  subst h
  rw [outlines, List.filterMap_map]
  simp [ofChars]

end Row

/-! ### Shapes of programs -/

namespace Shape

/-- The shape of a program, if it is in the usual order. -/
def ofProgram (prog : List Part) : Shape :=
  let rest := prog.dropWhile Part.isPrefix
  { prefixes := (prog.takeWhile Part.isPrefix).filterMap fun
      | .byte b => some b
      | _ => none
    rex := rest.findSome? fun
      | .rex w => some w
      | _ => none
    opcode := rest.filter Part.isOpcode
    digit := rest.findSome? fun
      | .digit d => some d
      | _ => none
    numbers := rest.filter fun p => p.slot?.isSome }

/-- Whether the parts of a shape are of the right sorts. -/
def isUsual (s : Shape) : Bool :=
  s.prefixes.all Fields.isPrefixByte && s.opcode.all Part.isOpcode &&
    s.opcode.head?.any Part.leads && s.numbers.all fun p => p.slot?.isSome

theorem usual_of_isUsual {s : Shape} (h : s.isUsual = true) : s.Usual := by
  simp only [isUsual, Bool.and_eq_true, List.all_eq_true] at h
  obtain ⟨⟨⟨h1, h2⟩, h3⟩, h4⟩ := h
  exact ⟨h1, h2, h3, h4⟩

end Shape

/-- Whether a template of some operands and a program is canonical. -/
def Template.isCanonical (ops : List Operand) (prog : List Part) : Bool :=
  (Shape.ofProgram prog).isUsual && (Shape.ofProgram prog).parts == prog &&
    !(prog.any Part.isFill && ops.any Operand.isPlace) && !ops.contains (.register 0)

theorem Template.canonical_of_isCanonical {t : Template}
    (h : isCanonical t.operands t.program = true) : t.Canonical := by
  simp only [isCanonical, Bool.and_eq_true, beq_iff_eq, Bool.not_eq_true'] at h
  obtain ⟨⟨⟨husual, hparts⟩, hfill⟩, hregister⟩ := h
  refine ⟨⟨_, Shape.usual_of_isUsual husual, hparts⟩, ?_, ?_⟩
  · rintro ⟨hf, hp⟩
    rw [hasFill] at hf
    rw [hasPlace] at hp
    simp [hf, hp] at hfill
  · simpa using hregister

/-! ### The table -/

namespace Table

/-- The characters of the built-in rows. -/
def generalCharacters : { l : List (List Char × List Char) // generalRows = l.map Row.ofChars } :=
  -- the rows determine the characters
  ⟨_, by
    dsimp only [generalRows, moves, stack, arithmetic, shifts, bitTests, jumps, conditional, system]
    repeat' first
      | apply Row.spelled_append
      | exact Row.spelled_nil
      | apply Row.spelled_cons (p := (_, _)) rfl⟩

/-- A check of the outlines of the built-in rows is evaluated on their characters. -/
theorem check_outlines {q : List Template → Bool}
    (h : q (generalCharacters.1.filterMap fun p => Row.outline? p.1 p.2) = true) :
    q (Row.outlines generalRows) = true := by
  rw [Row.outlines_of_spelled generalCharacters.2]
  exact h

theorem isCanonical_outlines :
    ((Row.outlines generalRows).all fun t => Template.isCanonical t.operands t.program) = true :=
  check_outlines (q := fun ts => ts.all fun t => Template.isCanonical t.operands t.program)
    (by decide +kernel)

/-- **Every built-in template is canonical.** -/
theorem canonical_general {t : Template} (h : t ∈ general.templates) : t.Canonical := by
  have hmem := (Row.templates_sublist_outlines generalRows).subset h
  exact Template.canonical_of_isCanonical (List.all_eq_true.1 isCanonical_outlines t hmem)

end Table
end RowAsm
