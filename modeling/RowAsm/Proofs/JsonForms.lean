import RowAsm.Json.Data
import RowAsm.Proofs.Grammar
import RowAsm.Proofs.JsonText

/-!
# Data keep their value in JSON

`Form.Kept a` says that the form of `a` is a value that is read back from its text, and that `a` is
read back from its form. A datum keeps its value if the numbers in it are in the range of their
fields (`Span.InRange` and the like), whatever its strings and however long its lists.

Main statement: `Form.text_round_trip`.
-/

namespace RowAsm

open Json

/-! ### Scalars -/

namespace Json

theorem nat?_nat {bits n : Nat} (h : n < Word.count bits) : nat? bits (nat n) = some n := by
  simp [nat?, nat, Text.numeral_toDigits, h]

@[simp] theorem byte?_nat (b : UInt8) : byte? (nat b.toNat) = some b := by
  have hb : b.toNat < Word.count 8 := b.toNat_lt
  simp [byte?, nat?_nat hb]

@[simp] theorem bool?_bool (b : Bool) : bool? (.bool b) = some b := rfl

@[simp] theorem str?_str (s : String) : str? (str s) = some s := text?_marks s

/-! ### Records and variants -/

theorem named?_members (fields : List (String × Json)) : named? (members fields) = some fields := by
  induction fields with
  | nil => rfl
  | cons f fields ih =>
    show named? ((marks f.1, f.2) :: members fields) = some (f :: fields)
    simp [named?, ih]

/-- A field is found under its name if no other one has it. -/
theorem field?_of_mem {fields : List (String × Json)} (hnodup : (fields.map Prod.fst).Nodup)
    {f : String × Json} (hf : f ∈ fields) : field? fields f.1 = some f.2 := by
  have hfilter : fields.filter (fun g => g.1 == f.1) = [f] := by
    induction fields with
    | nil => cases hf
    | cons g fields ih =>
      rw [List.map_cons, List.nodup_cons] at hnodup
      rcases List.mem_cons.1 hf with rfl | hf
      · have hnone : fields.filter (fun g => g.1 == f.1) = [] := by
          simp only [List.filter_eq_nil_iff, beq_iff_eq]
          intro g hg he
          exact hnodup.1 (he ▸ List.mem_map_of_mem hg)
        simp [hnone]
      · have hne : g.1 ≠ f.1 := by
          intro he
          exact hnodup.1 (he ▸ List.mem_map_of_mem hf)
        simp [hne, ih hnodup.2 hf]
  rw [field?, hfilter]

theorem fields?_map_fst {fields : List (String × Json)} (hnodup : (fields.map Prod.fst).Nodup)
    {fs : List (String × Json)} (hfs : ∀ f ∈ fs, f ∈ fields) :
    fields? fields (fs.map Prod.fst) = some (fs.map Prod.snd) := by
  induction fs with
  | nil => rfl
  | cons f fs ih =>
    rw [List.forall_mem_cons] at hfs
    simp [fields?, field?_of_mem hnodup hfs.1, ih hfs.2]

/-- The fields of a record are read back in their order. -/
theorem record?_record {names : List String} {fields : List (String × Json)}
    (hnames : fields.map Prod.fst = names) (hnodup : names.Nodup) :
    record? names (record fields) = some (fields.map Prod.snd) := by
  subst hnames
  show (named? (members fields)).bind (fun ms => fields? ms (fields.map Prod.fst)) = _
  rw [named?_members]
  exact fields?_map_fst hnodup fun _ hf => hf

@[simp] theorem variant?_variant (name : String) (data : Json) :
    variant? (variant name data) = some (name, some data) := by
  simp [variant, record, variant?]

@[simp] theorem variant?_str (name : String) : variant? (str name) = some (name, none) := by
  simp [str, variant?]

theorem reads_variant (name : String) {data : Json} (h : Reads data) :
    Reads (variant name data) := reads_record (by simpa using h)

end Json

/-! ### Forms -/

namespace Form

variable {α : Type} [Form α]

/-- The form of `a` is read back from its text, and `a` from its form. -/
structure Kept (a : α) : Prop where
  reads : (toJson a).Reads
  ofJson?_toJson : ofJson? (toJson a) = some a

theorem Kept.ofText?_toText {a : α} (h : Kept a) : ofText? (toText a) = some a := by
  rw [ofText?, toText, h.reads.parse?_render]
  exact h.ofJson?_toJson

theorem reads_list {l : List α} (h : ∀ a ∈ l, Kept a) : Reads (list l) :=
  reads_array (by simpa using fun a ha => (h a ha).reads)

theorem list?_list {l : List α} (h : ∀ a ∈ l, Kept a) : list? (list l) = some l := by
  rw [list, list?]
  induction l with
  | nil => rfl
  | cons a l ih =>
    rw [List.forall_mem_cons] at h
    simp [all?, h.1.ofJson?_toJson, ih h.2]

/-- A value is kept by its name if no other one has it. -/
theorem kept_ofNames {β : Type} {values : List β} {name : β → String}
    (hnodup : (values.map name).Nodup) {b : β} (hb : b ∈ values) :
    @Kept β (ofNames values name) b := by
  refine @Kept.mk β (ofNames values name) b (reads_str _) ?_
  have hsome : (values.find? fun c => name c == name b).isSome = true :=
    List.find?_isSome.2 ⟨b, hb, by simp⟩
  obtain ⟨c, hc⟩ := Option.isSome_iff_exists.1 hsome
  have hname : name c = name b := by simpa using List.find?_some hc
  have hcb : c = b := List.inj_on_of_nodup_map hnodup (List.mem_of_find?_eq_some hc) hb hname
  rw [hcb] at hc
  show (unit? (str (name b))).bind (fun n => values.find? fun c => name c == n) = some b
  simp [unit?, hc]

end Form

/-! ### Places in a text, mismatches and diagnostics -/

/-- The numbers of a span are in the range of their fields. -/
structure Span.InRange (s : Span) : Prop where
  line : s.line < Word.count 32
  col : s.col < Word.count 32
  offset : s.offset < Word.count 64
  len : s.len < Word.count 64

theorem Span.kept {s : Span} (h : s.InRange) : Form.Kept s where
  reads := reads_record (by simp [reads_nat])
  ofJson?_toJson := by
    simp only [Form.toJson, Form.ofJson?]
    rw [record?_record (by rfl) (by decide)]
    simp [nat?_nat h.line, nat?_nat h.col, nat?_nat h.offset, nat?_nat h.len]

theorem Mismatch.Kind.kept (k : Mismatch.Kind) : Form.Kept k :=
  Form.kept_ofNames (by decide) (by cases k <;> decide)

/-- The number of a mismatch is in the range of its field. -/
def Mismatch.InRange (m : Mismatch) : Prop := m.remaining < Word.count 64

theorem Mismatch.kept {m : Mismatch} (h : m.InRange) : Form.Kept m where
  reads := reads_record (by simpa [reads_nat] using m.kind.kept.reads)
  ofJson?_toJson := by
    have hkind := m.kind.kept.ofJson?_toJson
    simp only [Form.toJson, Form.ofJson?] at hkind ⊢
    rw [record?_record (by rfl) (by decide)]
    simp [nat?_nat h, hkind]

/-- The numbers of a diagnostic are in the range of their fields. -/
def Diagnostic.InRange : Diagnostic → Prop
  | .malformed _ span => span.InRange
  | .unencodable _ _ span => span.InRange
  | .overLimit _ limit => limit < Word.count 64

theorem Diagnostic.reads_data {d : Diagnostic} (h : d.InRange) : Reads d.data := by
  cases d with
  | malformed message span => exact reads_record (by simp [reads_str, (Span.kept h).reads])
  | unencodable kind token span =>
    exact reads_record (by simp [reads_str, kind.kept.reads, (Span.kept h).reads])
  | overLimit resource limit => exact reads_record (by simp [reads_str, reads_nat])

theorem Diagnostic.kept {d : Diagnostic} (h : d.InRange) : Form.Kept d where
  reads := reads_variant d.name (reads_data h)
  ofJson?_toJson := by
    simp only [Form.toJson, Form.ofJson?, variant?_variant]
    cases d with
    | malformed message span =>
      show readMalformed? (data (.malformed message span)) = _
      rw [readMalformed?, data, record?_record (by rfl) (by decide)]
      simp [(Span.kept h).ofJson?_toJson]
    | unencodable kind token span =>
      show readUnencodable? (data (.unencodable kind token span)) = _
      rw [readUnencodable?, data, record?_record (by rfl) (by decide)]
      simp [kind.kept.ofJson?_toJson, (Span.kept h).ofJson?_toJson]
    | overLimit resource limit =>
      show readOverLimit? (data (.overLimit resource limit)) = _
      rw [readOverLimit?, data, record?_record (by rfl) (by decide)]
      simp [nat?_nat h]

/-! ### Registers and modes -/

theorem Register.kept (r : Register) : Form.Kept r :=
  Form.kept_ofNames (by decide +kernel) (mem_all r)

theorem Mode.kept (m : Mode) : Form.Kept m :=
  Form.kept_ofNames (by decide) (by cases m <;> decide)

/-! ### Templates -/

/-- The width of an operand is in the range of its field. -/
def Operand.InRange : Operand → Prop
  | .immediate bits | .relative bits | .register bits | .place bits => bits < Word.count 16
  | .fixed _ | .memory => True

theorem Operand.kept {o : Operand} (h : o.InRange) : Form.Kept o where
  reads := by
    cases o with
    | immediate bits | relative bits | register bits | place bits =>
      exact reads_variant _ (reads_nat bits)
    | fixed word => exact reads_variant _ (reads_str word)
    | memory => exact reads_str _
  ofJson?_toJson := by
    cases o with
    | immediate bits | relative bits | register bits | place bits =>
      simp [Form.toJson, Form.ofJson?, nat?_nat h]
    | fixed word => simp [Form.toJson, Form.ofJson?]
    | memory => simp [Form.toJson, Form.ofJson?]

/-- The width of a part is in the range of its field. -/
def Part.InRange : Part → Prop
  | .immediate bits | .relative bits => bits < Word.count 16
  | _ => True

theorem Part.kept {p : Part} (h : p.InRange) : Form.Kept p where
  reads := by
    cases p with
    | byte b | fill b | digit b => exact reads_variant _ (reads_nat b.toNat)
    | rex w => exact reads_variant _ (reads_record (by simpa using reads_bool w))
    | immediate bits | relative bits => exact reads_variant _ (reads_nat bits)
  ofJson?_toJson := by
    cases p with
    | byte b | fill b | digit b => simp [Form.toJson, Form.ofJson?]
    | rex w =>
      simp only [Form.toJson, Form.ofJson?, variant?_variant]
      rw [readRex?, record?_record (by rfl) (by decide)]
      rfl
    | immediate bits | relative bits => simp [Form.toJson, Form.ofJson?, nat?_nat h]

/-- The widths of a template are in the range of their fields. -/
structure Template.InRange (t : Template) : Prop where
  operands : ∀ o ∈ t.operands, o.InRange
  program : ∀ p ∈ t.program, p.InRange

theorem Template.kept {t : Template} (h : t.InRange) : Form.Kept t := by
  have hoperands : ∀ o ∈ t.operands, Form.Kept o := fun o ho => Operand.kept (h.operands o ho)
  have hprogram : ∀ p ∈ t.program, Form.Kept p := fun p hp => Part.kept (h.program p hp)
  constructor
  · refine reads_record ?_
    simp [reads_str, reads_bool, Form.reads_list hoperands, Form.reads_list hprogram]
  · simp only [Form.toJson, Form.ofJson?]
    rw [record?_record (by rfl) (by decide)]
    simp [Form.list?_list hoperands, Form.list?_list hprogram]

/-! ### Settings -/

/-- The limits of the settings are in the range of their fields. -/
structure Settings.InRange (s : Settings) : Prop where
  maxTokens : s.maxTokens < Word.count 64
  maxBytes : s.maxBytes < Word.count 64

theorem Settings.kept {s : Settings} (h : s.InRange) : Form.Kept s where
  reads := reads_record (by simp [reads_nat, reads_bool])
  ofJson?_toJson := by
    simp only [Form.toJson, Form.ofJson?]
    rw [record?_record (by rfl) (by decide)]
    simp [nat?_nat h.maxTokens, nat?_nat h.maxBytes]

/-! ### Texts -/

namespace Form

/-- `a` is read back from its text, and what is read has the same text. -/
def RoundTrips {α : Type} [Form α] (a : α) : Prop :=
  ofText? (toText a) = some a ∧ (ofText? (toText a) : Option α).map toText = some (toText a)

theorem Kept.roundTrips {α : Type} [Form α] {a : α} (h : Kept a) : RoundTrips a := by
  have hread := h.ofText?_toText
  refine ⟨hread, ?_⟩
  rw [hread]
  rfl

/-- **Data whose numbers are in the range of their fields are read back from their texts, and have
the same texts again.** -/
theorem text_round_trip :
    (∀ s : Span, s.InRange → RoundTrips s) ∧
    (∀ k : Mismatch.Kind, RoundTrips k) ∧
    (∀ m : Mismatch, m.InRange → RoundTrips m) ∧
    (∀ d : Diagnostic, d.InRange → RoundTrips d) ∧
    (∀ r : Register, RoundTrips r) ∧
    (∀ m : Mode, RoundTrips m) ∧
    (∀ o : Operand, o.InRange → RoundTrips o) ∧
    (∀ p : Part, p.InRange → RoundTrips p) ∧
    (∀ t : Template, t.InRange → RoundTrips t) ∧
    (∀ s : Settings, s.InRange → RoundTrips s) :=
  ⟨fun _ h => (Span.kept h).roundTrips,
    fun k => k.kept.roundTrips,
    fun _ h => (Mismatch.kept h).roundTrips,
    fun _ h => (Diagnostic.kept h).roundTrips,
    fun r => r.kept.roundTrips,
    fun m => m.kept.roundTrips,
    fun _ h => (Operand.kept h).roundTrips,
    fun _ h => (Part.kept h).roundTrips,
    fun _ h => (Template.kept h).roundTrips,
    fun _ h => (Settings.kept h).roundTrips⟩

/-- Numbers at the end of their ranges, and quotes, backslashes, controls and characters outside the
basic plane in the strings. -/
theorem text_round_trip_extremes :
    let span : Span := ⟨Word.count 32 - 1, Word.count 32 - 1, Word.count 64 - 1, Word.count 64 - 1⟩
    let mismatch : Mismatch := ⟨Word.count 64 - 1, .trailing⟩
    let diagnostic : Diagnostic := .unencodable .operand "\"\\/\n\x01\x7fé😀" span
    let operand : Operand := .place (Word.count 16 - 1)
    let part : Part := .immediate (Word.count 16 - 1)
    let template : Template :=
      ⟨"mov\t", [operand, .memory, .fixed "\""], [.rex true, .byte 255, .digit 255, part], true⟩
    let settings : Settings := ⟨false, Word.count 64 - 1, 0⟩
    (span.InRange ∧ RoundTrips span) ∧
    (mismatch.InRange ∧ RoundTrips mismatch) ∧
    (diagnostic.InRange ∧ RoundTrips diagnostic) ∧
    (operand.InRange ∧ RoundTrips operand) ∧
    (part.InRange ∧ RoundTrips part) ∧
    (template.InRange ∧ RoundTrips template) ∧
    (settings.InRange ∧ RoundTrips settings) := by
  intro span mismatch diagnostic operand part template settings
  obtain ⟨span_kept, -, mismatch_kept, diagnostic_kept, -, -, operand_kept, part_kept,
    template_kept, settings_kept⟩ := text_round_trip
  have h16 : Word.count 16 - 1 < Word.count 16 := by decide
  have h32 : Word.count 32 - 1 < Word.count 32 := by decide
  have h64 : Word.count 64 - 1 < Word.count 64 := by decide
  have hspan : span.InRange := ⟨h32, h32, h64, h64⟩
  have htemplate : template.InRange :=
    ⟨List.forall_mem_cons.2 ⟨h16, by simp [Operand.InRange]⟩,
      by simp [template, part, Part.InRange, h16]⟩
  have hsettings : settings.InRange := ⟨h64, by decide⟩
  exact ⟨⟨hspan, span_kept _ hspan⟩, ⟨h64, mismatch_kept _ h64⟩, ⟨hspan, diagnostic_kept _ hspan⟩,
    ⟨h16, operand_kept _ h16⟩, ⟨h16, part_kept _ h16⟩, ⟨htemplate, template_kept _ htemplate⟩,
    ⟨hsettings, settings_kept _ hsettings⟩⟩

end Form

end RowAsm
