import RowAsm.Proofs.Position
import RowAsm.Proofs.Selection

/-!
# Answers without faults

Over the table of any rows and under any settings an encoder answers: it gives code of one to
fifteen bytes or refuses, and never runs into a fault (`answered_encode`). A text is encoded
statement by statement (`encodeStatements_answers`), so the same holds of texts.

The main theorem adds what keeps the reading of a text in range: in a text of fewer than 2 ^ 32 - 1
bytes the counters of lines and columns have 32 bits, and every span, of a token or of what a
malformed text is blamed on, cuts the text between characters.
-/

namespace RowAsm

namespace Encoder

/-- An answer and no fault: an instruction of one to fifteen bytes, or a refusal of which `P`
holds. -/
def Answered {ε : Type} (P : ε → Prop) : Except (Halt ε) Instruction → Prop
  | .ok i => 1 ≤ i.code.size ∧ i.code.size ≤ 15
  | .error (.refused m) => P m
  | .error (.fault _) => False

variable {rows : List Row} {e : Encoder}

/-- **Every statement is answered**, and a refusal counts at most its tokens. -/
theorem answered_encode (he : e.table = .compile rows) (tokens : List String) :
    Answered (fun m => m.remaining ≤ tokens.length) (e.encode tokens) := by
  obtain ⟨s, hs, hsums⟩ := exists_select he tokens
  rcases hsums.best with ⟨hb, -⟩ | ⟨i, hb, ⟨a, ha, -, hcode⟩, -⟩
  · have hr : e.encode tokens = .error (.refused s.deepest) := by
      simp [encode, hs, Selection.result, hb]
    rw [hr]
    rcases hsums.deepest with ⟨hd, -⟩ | ⟨hd, -⟩
    · show s.deepest.remaining ≤ tokens.length
      rw [hd]
    · exact hd.le
  · have hr : e.encode tokens = .ok i := by simp [encode, hs, Selection.result, hb]
    rw [hr]
    obtain ⟨ht, houtcome⟩ := mem_attempts he ha
    obtain ⟨c, hc, hemit⟩ := Template.encode_eq_ok_iff.1 (houtcome ▸ hcode)
    obtain ⟨code, hcode', hpos⟩ := Template.exists_emit ht hc
    obtain rfl : code = i.code := Except.ok.inj (hcode'.symm.trans hemit)
    exact ⟨hpos, i.code.length_le⟩

/-! ### Texts -/

theorem answered_encodeStatement (he : e.table = .compile rows) (ts : List Token) :
    Answered (fun _ => True) (e.encodeStatement ts) := by
  have h := answered_encode he (ts.map Token.text)
  unfold encodeStatement
  split_ifs
  · trivial
  · split <;> rename_i heq <;> rw [heq] at h
    · exact h
    · trivial
    · exact h

theorem answered_encodeLine (he : e.table = .compile rows) (text : String) :
    Answered (fun _ => True) (e.encodeLine text) := by
  unfold encodeLine
  split
  · trivial
  · exact answered_encodeStatement he _

/-- Statements are answered one by one: all of them, with their code in order, or one is refused. -/
theorem encodeStatements_answers (he : e.table = .compile rows) (ss : List (List Token)) :
    (∃ is : List Instruction, List.Forall₂ (fun s i => e.encodeStatement s = .ok i) ss is ∧
      (∀ i ∈ is, 1 ≤ i.code.size ∧ i.code.size ≤ 15) ∧
      e.encodeStatements ss = .ok (is.flatMap fun i => i.code.bytes)) ∨
    ∃ d, e.encodeStatements ss = .error (.refused d) := by
  induction ss with
  | nil => exact Or.inl ⟨[], .nil, by simp, rfl⟩
  | cons s ss ih =>
    have hs := answered_encodeStatement he s
    unfold encodeStatements
    split
    · rename_i h heq
      rw [heq] at hs
      cases h with
      | refused d => exact Or.inr ⟨d, rfl⟩
      | fault f => exact hs.elim
    · rename_i i heq
      rw [heq] at hs
      rcases ih with ⟨is, hall, hlen, his⟩ | ⟨d, hd⟩
      · exact Or.inl ⟨i :: is, .cons heq hall, by simpa using ⟨hs, hlen⟩, by rw [his]; rfl⟩
      · exact Or.inr ⟨d, by rw [hd]⟩

/-- **No fault and no overlong instruction.** Over the table of any rows and under any settings,
every statement is answered with one to fifteen bytes or refused, and so is every text of fewer than
2 ^ 32 - 1 bytes, as a line or statement by statement. The counters of its positions have 32 bits,
and every span of it cuts it between characters. -/
theorem encode_never_faults (rows : List Row) (settings : Settings) :
    let e : Encoder := { table := .compile rows, settings }
    (∀ tokens, Answered (fun m => m.remaining ≤ tokens.length) (e.encode tokens)) ∧
    ∀ text : String, text.utf8ByteSize < 2 ^ 32 - 1 →
      Answered (fun _ => True) (e.encodeLine text) ∧
      ((∃ ss is, e.readText text = .ok ss ∧
          List.Forall₂ (fun s i => e.encodeStatement s = .ok i) ss is ∧
          (∀ i ∈ is, 1 ≤ i.code.size ∧ i.code.size ≤ 15) ∧
          e.encodeText text = .ok (is.flatMap fun i => i.code.bytes)) ∨
        ∃ d, e.encodeText text = .error (.refused d)) ∧
      (∀ before after, text.toList = before ++ after →
        (Position.start.after before).line < 2 ^ 32 ∧
          (Position.start.after before).col < 2 ^ 32) ∧
      (∀ ts, tokenize text = .ok ts → ∀ t ∈ ts, t.span.Cuts text t.text) ∧
      ∀ d, tokenize text = .error d →
        ∃ message span word, d = .malformed message span ∧ span.Cuts text word := by
  intro e
  refine ⟨answered_encode rfl, fun text htext => ⟨answered_encodeLine rfl text, ?_, ?_, ?_, ?_⟩⟩
  · unfold encodeText
    split
    · exact Or.inr ⟨_, rfl⟩
    · rename_i ss hss
      rcases encodeStatements_answers (e := e) rfl ss with ⟨is, h⟩ | h
      · exact Or.inl ⟨ss, is, hss, h⟩
      · exact Or.inr h
  · intro before after hsplit
    exact Position.counters_lt htext hsplit
  · intro ts hts t ht
    obtain ⟨left, right, hsplit, hspan⟩ := exists_split_of_tokenize hts ht
    rw [hspan]
    exact Position.cuts_span hsplit
  · intro d hd
    obtain ⟨left, word, right, message, hsplit, rfl⟩ := exists_split_of_tokenize_error hd
    exact ⟨message, _, _, rfl, Position.cuts_span (by simpa using hsplit)⟩

/-- A text that is not all of ASCII, and whose last statement is malformed. -/
theorem encode_nop_never_faults :
    let e : Encoder := { table := .compile nopRows, settings := {} }
    ("nop # µ\nnop;é" : String).utf8ByteSize < 2 ^ 32 - 1 ∧
      Answered (fun _ => True) (e.encodeLine "nop # µ\nnop;é") ∧
      ∃ message span word, tokenize "nop # µ\nnop;é" = .error (.malformed message span) ∧
        span.Cuts "nop # µ\nnop;é" word := by
  intro e
  have hsize : ("nop # µ\nnop;é" : String).utf8ByteSize < 2 ^ 32 - 1 := by decide +kernel
  obtain ⟨hline, -, -, -, hbad⟩ := (encode_never_faults nopRows {}).2 _ hsize
  have hd : tokenize "nop # µ\nnop;é" =
      .error (.malformed "unexpected character 'é'" ⟨2, 5, 13, 2⟩) := by decide +kernel
  obtain ⟨message, span, word, h, hcuts⟩ := hbad _ hd
  exact ⟨hsize, hline, message, span, word, h ▸ hd, hcuts⟩

end Encoder
end RowAsm
