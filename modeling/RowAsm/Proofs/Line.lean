import RowAsm.Proofs.Spelling
import RowAsm.Proofs.Unambiguous

/-!
# Statements as lines

Every token of a statement that matches a built-in template is one token of a text
(`Template.speakable_of_statement`): a name, a literal or a mark, whatever place it has in the
statement. No statement of a template is long (`Template.length_of_statement_le`). So what the
built-in encoder accepts as a list of tokens it accepts as a line of text, with the same result
(`encode_general_as_line`).
-/

namespace RowAsm

open Text (same)
open Grammar

/-- The text is one token that separates no statements. -/
def Speakable (s : String) : Prop :=
  ∃ k, Token.Kind.ofChars? s.toList = some k ∧ k ≠ .separator

/-- Whether a text is one token that separates no statements. -/
def isSpeakable (s : String) : Bool :=
  (Token.Kind.ofChars? s.toList).any fun k => k != .separator

theorem speakable_iff {s : String} : Speakable s ↔ isSpeakable s = true := by
  simp [Speakable, isSpeakable, Option.any_eq_true]

theorem Speakable.of_same {s t : String} (ht : Speakable t) (h : same s t = true) :
    Speakable s := by
  obtain ⟨k, hk, hne⟩ := ht
  exact ⟨k, (Token.Kind.ofChars?_of_same h).trans hk, hne⟩

theorem Speakable.of_value? {s : String} {n : Nat} (h : Literal.value? s = some n) : Speakable s :=
  ⟨.number n, Literal.ofChars?_of_value? h, by simp⟩

theorem speakable_name (r : Register) : Speakable r.name := by
  rw [speakable_iff]
  cases r with
  | r64 i | r32 i | r16 i | low8 i => revert i; decide
  | high8 i => revert i; decide
  | rip => decide

theorem speakable_accessWord (bits : Nat) : Speakable (Reader.accessWord bits) := by
  rw [speakable_iff]
  unfold Reader.accessWord
  split <;> decide

/-! ### Phrases -/

namespace Grammar

theorem speakable_of_number {bits : Nat} {w : List String} {v : Int} (h : Number bits w v) :
    ∀ s ∈ w, Speakable s := by
  have hminus : Speakable "-" := speakable_iff.2 (by decide)
  cases h with
  | plain ht _ => simpa using Speakable.of_value? ht
  | negated ht _ => simpa using ⟨hminus, Speakable.of_value? ht⟩

theorem speakable_of_memory {w : List String} {p : Place} (h : Memory w p) :
    ∀ s ∈ w, Speakable s := by
  have hopen : Speakable "[" := speakable_iff.2 (by decide)
  have hclose : Speakable "]" := speakable_iff.2 (by decide)
  have hplus : Speakable "+" := speakable_iff.2 (by decide)
  have hminus : Speakable "-" := speakable_iff.2 (by decide)
  obtain ⟨hb, ht, h⟩ := h
  have hbase := (speakable_name _).of_same ht
  cases h with
  | close => simpa using ⟨hopen, hbase, hclose⟩
  | plus hn _ => simpa using ⟨hopen, hbase, hplus, Speakable.of_value? hn, hclose⟩
  | minus hn _ => simpa using ⟨hopen, hbase, hminus, Speakable.of_value? hn, hclose⟩

theorem Access.speakable {bits : Nat} {t u : String} (h : Access bits t u) :
    Speakable t ∧ Speakable u :=
  ⟨(speakable_accessWord bits).of_same h.1,
    (speakable_iff.2 (by decide) : Speakable "ptr").of_same h.2⟩

/-- The tokens of an operand can be written down, if its fixed word can. -/
theorem speakable_of_phrase {o : Operand} {w : List String} {v : Value} (h : Phrase o w v)
    (ho : ∀ word, o = .fixed word → Speakable word) : ∀ s ∈ w, Speakable s := by
  cases h with
  | immediate h | relative h => exact speakable_of_number h
  | fixed h => simpa using (ho _ rfl).of_same h
  | register h | direct h => simpa using (speakable_name _).of_same h.2.2
  | unsized h => exact speakable_of_memory h
  | sized ha h | anySized _ ha h =>
    obtain ⟨ht, hu⟩ := ha.speakable
    simpa using ⟨ht, hu, speakable_of_memory h⟩

theorem speakable_of_further {ops : List Operand} {w : List String} {vs : List Value}
    (h : Further ops w vs) (hops : ∀ word, .fixed word ∈ ops → Speakable word) :
    ∀ s ∈ w, Speakable s := by
  have hcomma : Speakable "," := speakable_iff.2 (by decide)
  induction h with
  | nil => simp
  | cons hv _ ih =>
    have hhead := speakable_of_phrase hv fun word hword => hops word (by simp [hword])
    have htail := ih fun word hword => hops word (by simp [hword])
    intro s hs
    rcases List.mem_cons.1 hs with rfl | hs
    · exact hcomma
    · exact (List.mem_append.1 hs).elim (hhead s) (htail s)

theorem length_number_le {bits : Nat} {w : List String} {v : Int} (h : Number bits w v) :
    w.length ≤ 2 := by
  cases h <;> simp

theorem length_memory_le {w : List String} {p : Place} (h : Memory w p) : w.length ≤ 5 := by
  obtain ⟨-, -, h⟩ := h
  cases h <;> simp

/-- An operand has at most seven tokens, those of `dword ptr [base + number]`. -/
theorem length_phrase_le {o : Operand} {w : List String} {v : Value} (h : Phrase o w v) :
    w.length ≤ 7 := by
  cases h with
  | immediate h | relative h => exact (length_number_le h).trans (by decide)
  | fixed | register | direct => simp
  | unsized h => exact (length_memory_le h).trans (by decide)
  | sized _ h | anySized _ _ h =>
    have := length_memory_le h
    simp only [List.length_cons]
    omega

theorem length_further_le {ops : List Operand} {w : List String} {vs : List Value}
    (h : Further ops w vs) : w.length ≤ 8 * ops.length := by
  induction h with
  | nil => simp
  | cons hv _ ih =>
    have := length_phrase_le hv
    simp only [List.length_cons, List.length_append]
    omega

end Grammar

/-! ### Statements -/

namespace Template

variable {t : Template} {w : List String} {vs : List Value}

/-- A comma may be put before the operands of a statement. -/
theorem further_of_phrases {ops : List Operand} (h : Phrases ops w vs) :
    ops = [] ∧ w = [] ∨ Further ops ("," :: w) vs := by
  cases h with
  | nil => exact Or.inl ⟨rfl, rfl⟩
  | cons hv hs => exact Or.inr (.cons hv hs)

/-- The tokens of a statement can be written down, if the words of the template can. -/
theorem speakable_of_statement (h : t.Statement w vs) (hmnemonic : Speakable t.mnemonic)
    (hops : ∀ word, .fixed word ∈ t.operands → Speakable word) : ∀ s ∈ w, Speakable s := by
  obtain ⟨m, w', rfl, hm, hvs⟩ := h
  intro s hs
  rcases List.mem_cons.1 hs with rfl | hs
  · exact hmnemonic.of_same hm
  · rcases further_of_phrases hvs with ⟨-, rfl⟩ | hfurther
    · cases hs
    · exact speakable_of_further hfurther hops s (List.mem_cons_of_mem _ hs)

theorem length_of_statement_le (h : t.Statement w vs) : w.length ≤ 8 * t.operands.length + 1 := by
  obtain ⟨m, w', rfl, -, hvs⟩ := h
  rcases further_of_phrases hvs with ⟨-, rfl⟩ | hfurther
  · simp
  · have := length_further_le hfurther
    simp only [List.length_cons] at this ⊢
    omega

/-- Whether the mnemonic and the fixed operands of a template can be written down. -/
def isSpeakable (t : Template) : Bool :=
  RowAsm.isSpeakable t.mnemonic && t.operands.all fun
    | .fixed word => RowAsm.isSpeakable word
    | _ => true

end Template

theorem Table.isSpeakable_outlines :
    (Row.outlines generalRows).all Template.isSpeakable = true := by
  apply check_outlines (q := fun ts => ts.all Template.isSpeakable)
  decide +kernel

/-- **The words of the built-in templates can be written down.** -/
theorem Table.speakable_general {t : Template} (h : t ∈ general.templates) :
    Speakable t.mnemonic ∧ ∀ word, .fixed word ∈ t.operands → Speakable word := by
  have hcheck := List.all_eq_true.1 isSpeakable_outlines t
    ((Row.templates_sublist_outlines generalRows).subset h)
  rw [Template.isSpeakable, Bool.and_eq_true, List.all_eq_true] at hcheck
  exact ⟨speakable_iff.2 hcheck.1, fun word hword => speakable_iff.2 (hcheck.2 _ hword)⟩

/-! ### The built-in encoder -/

namespace Encoder

variable {tokens : List String} {i : Instruction}

/-- What the built-in encoder accepts can be written down, and is within the limit of tokens. -/
theorem speakable_of_encode (h : general.encode tokens = .ok i) :
    tokens ≠ [] ∧ (∀ s ∈ tokens, Speakable s) ∧ tokens.length ≤ general.settings.maxTokens := by
  have htable : general.table = .compile Table.generalRows := rfl
  obtain ⟨t, c, ht, hc, -⟩ := (encodes_of_encode htable tokens).1 i h
  have hmem : t ∈ Table.general.templates := List.mem_of_getElem? ht
  have hwf := Table.wellFormed_of_mem hmem
  obtain ⟨vs, hvs, -, -⟩ := (Template.capture_eq_ok_iff hwf).1 hc
  obtain ⟨hmnemonic, hwords⟩ := Table.speakable_general hmem
  refine ⟨?_, Template.speakable_of_statement hvs hmnemonic hwords, ?_⟩
  · rintro rfl
    exact Template.not_statement_nil hvs
  · have hlen := Template.length_of_statement_le hvs
    have hops := hwf.length_operands
    show tokens.length ≤ 64
    omega

/-- The tokens of an accepted statement, written with spaces between them, are its only tokens. -/
theorem statements_join_of_encode (h : general.encode tokens = .ok i) :
    ∃ ts, tokenize (Text.join " " tokens) = .ok ts ∧
      statements (Text.join " " tokens) = .ok [ts] ∧ ts.map Token.text = tokens := by
  obtain ⟨hne, hspeakable, -⟩ := speakable_of_encode h
  have : Nonempty Token.Kind := ⟨.word⟩
  choose! kind hkind using hspeakable
  have hkinds : List.Forall₂ (fun w k => Token.Kind.ofChars? w.toList = some k) tokens
      (tokens.map kind) :=
    List.forall₂_map_right_iff.2 (List.forall₂_same.2 fun s hs => (hkind s hs).1)
  have hseparator : .separator ∉ tokens.map kind := by
    intro hm
    obtain ⟨s, hs, hsep⟩ := List.mem_map.1 hm
    exact (hkind s hs).2 hsep
  obtain ⟨ts, htokens, hstatements, htext, -⟩ := statements_join hkinds hne hseparator
  exact ⟨ts, htokens, hstatements, htext⟩

theorem encodeLine_eq_ok_iff {e : Encoder} {text : String} :
    e.encodeLine text = .ok i ↔ text.utf8ByteSize ≤ e.settings.maxBytes ∧
      ∃ s, statements text = .ok [s] ∧ s.length ≤ e.settings.maxTokens ∧
        e.encode (s.map Token.text) = .ok i := by
  unfold encodeLine
  constructor
  · intro h
    split at h
    · cases h
    · rename_i s hline
      have hread := readLine_eq_ok_iff.1 hline
      refine ⟨?_, s, statements_of_readText hread, encodeStatement_eq_ok_iff.1 h⟩
      unfold readText at hread
      split_ifs at hread with hsize
      exact not_lt.1 hsize
  · rintro ⟨hsize, s, hs, hencode⟩
    have hread : e.readText text = .ok [s] := by rw [readText, if_neg (not_lt.2 hsize), hs]
    simp only [readLine_eq_ok_iff.2 hread]
    exact encodeStatement_eq_ok_iff.2 hencode

/-- **The built-in encoder accepts no tokens that a line cannot say.** If it encodes some tokens,
and these with a space between each two of them are within the limit of bytes, then the tokens of
that line are the given ones, in one statement, and the line has the same encoding. If it encodes a
line, then it encodes the tokens of the line's only statement in the same way. -/
theorem encode_general_as_line :
    (∀ tokens i, (Text.join " " tokens).utf8ByteSize ≤ general.settings.maxBytes →
      general.encode tokens = .ok i →
        (∃ ts, tokenize (Text.join " " tokens) = .ok ts ∧
          statements (Text.join " " tokens) = .ok [ts] ∧ ts.map Token.text = tokens) ∧
        general.encodeLine (Text.join " " tokens) = .ok i) ∧
    ∀ text i, general.encodeLine text = .ok i →
      ∃ s, statements text = .ok [s] ∧ general.encode (s.map Token.text) = .ok i := by
  constructor
  · intro tokens i hsize h
    obtain ⟨-, -, hlen⟩ := speakable_of_encode h
    obtain ⟨ts, htokens, hstatements, rfl⟩ := statements_join_of_encode h
    rw [List.length_map] at hlen
    exact ⟨⟨ts, htokens, hstatements, rfl⟩,
      encodeLine_eq_ok_iff.2 ⟨hsize, ts, hstatements, hlen, h⟩⟩
  · intro text i h
    obtain ⟨-, s, hs, -, hencode⟩ := encodeLine_eq_ok_iff.1 h
    exact ⟨s, hs, hencode⟩

/-- A number is stored in memory, as tokens and as a line. -/
theorem encode_general_as_line_mov :
    let tokens := ["mov", "BYTE", "ptr", "[", "r9", "-", "0x10", "]", ",", "-", "0b101"]
    let line := "mov BYTE ptr [ r9 - 0x10 ] , - 0b101"
    ∃ i, general.encode tokens = .ok i ∧
      (∃ ts, tokenize line = .ok ts ∧ statements line = .ok [ts] ∧ ts.map Token.text = tokens) ∧
      general.encodeLine line = .ok i ∧
      ∃ s, statements line = .ok [s] ∧ general.encode (s.map Token.text) = .ok i := by
  intro tokens line
  let t : Template :=
    ⟨"mov", [.place 8, .immediate 8], [.byte 0xC6, .digit 0, .immediate 8], false⟩
  have hrow : (⟨"MOV r/m8, imm8", "C6 /0 ib"⟩ : Row) ∈ Table.generalRows := by
    simp [Table.generalRows, Table.moves]
  have hcompile : Row.compile ⟨"MOV r/m8, imm8", "C6 /0 ib"⟩ = .ok t := by decide +kernel
  have hc : t.capture tokens = .ok ⟨none, some (.memory (.r64 9) (some (-16))), [-5], 11⟩ := by
    decide +kernel
  have hmem : t ∈ Table.general.templates :=
    List.mem_filterMap.2 ⟨_, hrow, by rw [hcompile]; rfl⟩
  obtain ⟨j, hj⟩ := List.getElem?_of_mem hmem
  obtain ⟨code, hcode, -⟩ := Template.exists_emit (Table.wellFormed_of_mem hmem) hc
  obtain ⟨i, hi⟩ := (encodes_of_encode (e := general) rfl tokens).2 ⟨j, code, t, _, hj, hc, hcode⟩
  have hjoin : Text.join " " tokens = line := by decide +kernel
  have hsize : (Text.join " " tokens).utf8ByteSize ≤ general.settings.maxBytes := by decide +kernel
  obtain ⟨hts, hline⟩ := encode_general_as_line.1 tokens i hsize hi
  rw [hjoin] at hts hline
  exact ⟨i, hi, hts, hline, encode_general_as_line.2 line i hline⟩

end Encoder
end RowAsm
