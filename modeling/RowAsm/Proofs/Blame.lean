import RowAsm.Proofs.Safety

/-!
# Diagnostics point into the text

A statement that does not encode is blamed on one of its tokens. A mismatch counts at most the
tokens of its statement, and no statement is empty, so there always is a token to blame
(`exists_blame`), the first one not accepted or the last one. Tokens are not empty and stand where
their spans say (`marks_of_mem_tokens`), so the diagnostic quotes the text and points to the
quotation.

Statements are encoded in order, and the first that fails decides (`exists_split_of_error`).
-/

namespace RowAsm

/-! ### Tokens of statements -/

theorem Lexeme.chars_ne_nil {cs : List Char} {x : Lexeme} (h : x ∈ lexemes cs) : x.chars ≠ [] := by
  fun_induction lexemes cs with
  | case1 => cases h
  | case2 cs ih | case3 c cs _ _ ih | case4 c cs _ _ ih =>
    rcases List.mem_cons.1 h with rfl | h
    · simp [chars]
    · exact ih h

theorem Token.exists_lexeme_of_mem {p : Position} {xs : List Lexeme} {ts : List Token}
    (h : ofLexemes p xs = .ok ts) {t : Token} (ht : t ∈ ts) :
    ∃ x ∈ xs, t.text = String.ofList x.chars := by
  induction xs generalizing p ts with
  | nil =>
    cases h
    cases ht
  | cons x xs ih =>
    unfold ofLexemes at h
    split at h
    · cases h
    · rename_i t' hx
      split at h
      · cases h
      · rename_i ts' hxs
        cases h
        rcases List.mem_append.1 ht with ht | ht
        · rw [Option.mem_toList] at ht
          subst ht
          exact ⟨x, by simp, (of_ofLexeme hx).1⟩
        · obtain ⟨y, hy, htext⟩ := ih hxs ht
          exact ⟨y, by simp [hy], htext⟩

variable {text : String} {ss : List (List Token)} {s : List Token} {t : Token}

theorem exists_tokenize_of_statements (h : statements text = .ok ss) :
    ∃ ts, tokenize text = .ok ts ∧ ss = Text.words Token.isSeparator ts := by
  unfold statements at h
  cases hts : tokenize text with
  | error d => rw [hts] at h; cases h
  | ok ts =>
    rw [hts] at h
    cases h
    exact ⟨ts, rfl, rfl⟩

theorem ne_nil_of_mem_statements (h : statements text = .ok ss) (hs : s ∈ ss) : s ≠ [] := by
  obtain ⟨ts, -, rfl⟩ := exists_tokenize_of_statements h
  exact (Text.mem_words_iff.1 hs).2

/-- **Tokens are not empty and stand where their spans say.** -/
theorem marks_of_mem_tokens {ts : List Token} (h : tokenize text = .ok ts) (ht : t ∈ ts) :
    t.text ≠ "" ∧ t.span.Marks text t.text := by
  constructor
  · obtain ⟨x, hx, htext⟩ := Token.exists_lexeme_of_mem h ht
    rw [htext]
    intro hempty
    exact Lexeme.chars_ne_nil hx (by simpa using congrArg String.toList hempty)
  · obtain ⟨left, right, hsplit, hspan⟩ := exists_split_of_tokenize h ht
    rw [hspan]
    exact Position.marks_span hsplit

theorem marks_of_mem_statements (h : statements text = .ok ss) (hs : s ∈ ss) (ht : t ∈ s) :
    t.text ≠ "" ∧ t.span.Marks text t.text := by
  obtain ⟨ts, hts, rfl⟩ := exists_tokenize_of_statements h
  exact marks_of_mem_tokens hts (Text.mem_of_mem_fields (Text.mem_words_iff.1 hs).1 ht)

/-! ### The token to blame -/

/-- The token to blame: the first one that was not accepted, or the last one if all were. -/
def Mismatch.Blames (m : Mismatch) (s : List Token) (t : Token) : Prop :=
  (m.remaining = 0 ∧ s.getLast? = some t) ∨
    (m.remaining ≠ 0 ∧ s[s.length - m.remaining]? = some t)

theorem Mismatch.blamed_lt {m : Mismatch} (hs : s ≠ []) (hm : m.remaining ≤ s.length) :
    m.blamed s.length < s.length := by
  have hlen : 0 < s.length := List.length_pos_iff.2 hs
  unfold blamed
  split_ifs <;> omega

namespace Encoder

theorem exists_blame {m : Mismatch} (hs : s ≠ []) (hm : m.remaining ≤ s.length) :
    ∃ t ∈ s, m.Blames s t ∧ blame s m = .unencodable m.kind t.text t.span := by
  have hlt := Mismatch.blamed_lt hs hm
  refine ⟨s[m.blamed s.length], List.getElem_mem hlt, ?_, ?_⟩
  · by_cases hr : m.remaining = 0
    · refine Or.inl ⟨hr, ?_⟩
      rw [List.getLast?_eq_getElem?]
      simp only [Mismatch.blamed, if_pos hr]
      exact List.getElem?_eq_getElem _
    · refine Or.inr ⟨hr, ?_⟩
      simp only [Mismatch.blamed, if_neg hr]
      exact List.getElem?_eq_getElem _
  · rw [blame, List.getElem?_eq_getElem hlt]

variable {rows : List Row} {e : Encoder}

theorem encodeStatement_eq_ok_iff {i : Instruction} :
    e.encodeStatement s = .ok i ↔
      s.length ≤ e.settings.maxTokens ∧ e.encode (s.map Token.text) = .ok i := by
  unfold encodeStatement
  split_ifs with hlen
  · simp [hlen]
  · cases e.encode (s.map Token.text) with
    | ok j => simp [not_lt.1 hlen]
    | error halt => cases halt <;> simp

/-- The statement `s` of the text is within the limit of tokens and does not encode, and the
diagnostic quotes and marks the token to blame. -/
def Rejects (e : Encoder) (text : String) (s : List Token) (kind : Mismatch.Kind) (token : String)
    (span : Span) : Prop :=
  s.length ≤ e.settings.maxTokens ∧
    ∃ m t, e.encode (s.map Token.text) = .error (.refused m) ∧ m.kind = kind ∧ m.Blames s t ∧
      token = t.text ∧ span = t.span ∧ token ≠ "" ∧ span.Marks text token

variable {kind : Mismatch.Kind} {token : String} {span : Span}

theorem rejects_of_encodeStatement (he : e.table = .compile rows)
    (hss : statements text = .ok ss) (hs : s ∈ ss)
    (h : e.encodeStatement s = .error (.refused (.unencodable kind token span))) :
    e.Rejects text s kind token span := by
  have hanswer := answered_encode he (s.map Token.text)
  unfold encodeStatement at h
  split_ifs at h with hlen
  · cases h
  · refine ⟨not_lt.1 hlen, ?_⟩
    split at h
    · cases h
    · rename_i m hm
      rw [hm] at hanswer
      have hle : m.remaining ≤ s.length := by simpa [Answered] using hanswer
      obtain ⟨t, ht, hblames, hblame⟩ := exists_blame (ne_nil_of_mem_statements hss hs) hle
      rw [hblame] at h
      cases h
      obtain ⟨hne, hmarks⟩ := marks_of_mem_statements hss hs ht
      exact ⟨m, t, hm, rfl, hblames, rfl, rfl, hne, hmarks⟩
    · cases h

/-! ### Texts -/

/-- The first statement that fails decides. -/
theorem exists_split_of_error {halt : Halt Diagnostic} (h : e.encodeStatements ss = .error halt) :
    ∃ before s after, ss = before ++ s :: after ∧
      (∀ s' ∈ before, ∃ i, e.encodeStatement s' = .ok i) ∧ e.encodeStatement s = .error halt := by
  induction ss with
  | nil => cases h
  | cons s ss ih =>
    unfold encodeStatements at h
    split at h
    · rename_i hs
      cases h
      exact ⟨[], s, ss, rfl, by simp, hs⟩
    · rename_i i hi
      split at h
      · rename_i hss
        cases h
        obtain ⟨before, s', after, rfl, hbefore, hs'⟩ := ih hss
        refine ⟨s :: before, s', after, rfl, ?_, hs'⟩
        intro s'' hs''
        rcases List.mem_cons.1 hs'' with rfl | hs''
        · exact ⟨i, hi⟩
        · exact hbefore s'' hs''
      · cases h

theorem statements_of_readText (h : e.readText text = .ok ss) : statements text = .ok ss := by
  unfold readText at h
  split_ifs at h
  exact h

/-- What is wrong with a text before it is encoded is not blamed on a statement. -/
theorem readText_ne_unencodable : e.readText text ≠ .error (.unencodable kind token span) := by
  unfold readText statements
  split_ifs
  · rintro ⟨⟩
  · cases hts : tokenize text with
    | ok ts => rintro ⟨⟩
    | error d =>
      obtain ⟨-, -, -, -, -, rfl⟩ := exists_split_of_tokenize_error hts
      rintro ⟨⟩

theorem readLine_eq_ok_iff : e.readLine text = .ok s ↔ e.readText text = .ok [s] := by
  unfold readLine
  split <;> rename_i h <;> simp [h]

theorem readLine_ne_unencodable : e.readLine text ≠ .error (.unencodable kind token span) := by
  unfold readLine
  split
  · rename_i h
    rintro ⟨⟩
    exact readText_ne_unencodable h
  · rintro ⟨⟩
  · rintro ⟨⟩
  · rintro ⟨⟩

/-- **Diagnostics point at the text.** Over the table of any rows and under any settings, if a text
is refused because a statement does not encode, then this is one of its statements, all statements
before it are within the limit of tokens and encode, and it is itself within the limit. The
diagnostic has the kind of the mismatch and blames the token that the mismatch points to, the last
one if all were accepted: it quotes this token, which is not empty, and its span is where the token
stands in the text. The same holds of a text that is encoded as a line, with its only statement. -/
theorem unencodable_marks_text (rows : List Row) (settings : Settings) (text : String)
    (kind : Mismatch.Kind) (token : String) (span : Span) :
    let e : Encoder := { table := .compile rows, settings }
    (e.encodeText text = .error (.refused (.unencodable kind token span)) →
      ∃ before s after, statements text = .ok (before ++ s :: after) ∧
        (∀ s' ∈ before, s'.length ≤ settings.maxTokens ∧
          ∃ i, e.encode (s'.map Token.text) = .ok i) ∧
        e.Rejects text s kind token span) ∧
    (e.encodeLine text = .error (.refused (.unencodable kind token span)) →
      ∃ s, statements text = .ok [s] ∧ e.Rejects text s kind token span) := by
  intro e
  constructor
  · intro h
    unfold encodeText at h
    split at h
    · rename_i d hd
      cases h
      exact absurd hd readText_ne_unencodable
    · rename_i ss hread
      have hss := statements_of_readText hread
      obtain ⟨before, s, after, rfl, hbefore, hs⟩ := exists_split_of_error h
      refine ⟨before, s, after, hss, ?_, rejects_of_encodeStatement rfl hss (by simp) hs⟩
      intro s' hs'
      obtain ⟨i, hi⟩ := hbefore s' hs'
      obtain ⟨hlen, hi⟩ := encodeStatement_eq_ok_iff.1 hi
      exact ⟨hlen, i, hi⟩
  · intro h
    unfold encodeLine at h
    split at h
    · rename_i d hd
      cases h
      exact absurd hd readLine_ne_unencodable
    · rename_i s hline
      have hss := statements_of_readText (readLine_eq_ok_iff.1 hline)
      exact ⟨s, hss, rejects_of_encodeStatement rfl hss (by simp) h⟩

/-- The second statement stops at an unknown register, after a comment that is not all of ASCII. -/
theorem unencodable_nop_marks_text :
    let e : Encoder := { table := .compile nopRows }
    let text := "nop # µ\n  nop eax"
    e.encodeText text = .error (.refused (.unencodable .trailing "eax" ⟨2, 7, 15, 3⟩)) ∧
      (∃ before s after, statements text = .ok (before ++ s :: after) ∧
        e.Rejects text s .trailing "eax" ⟨2, 7, 15, 3⟩) ∧
      e.encodeLine "nop eax" = .error (.refused (.unencodable .trailing "eax" ⟨1, 5, 4, 3⟩)) ∧
      ∃ s, statements "nop eax" = .ok [s] ∧ e.Rejects "nop eax" s .trailing "eax" ⟨1, 5, 4, 3⟩ := by
  intro e text
  have ht : e.encodeText text = .error (.refused (.unencodable .trailing "eax" ⟨2, 7, 15, 3⟩)) := by
    decide +kernel
  have hl : e.encodeLine "nop eax" =
      .error (.refused (.unencodable .trailing "eax" ⟨1, 5, 4, 3⟩)) := by
    decide +kernel
  obtain ⟨before, s, after, hs, -, hr⟩ := (unencodable_marks_text nopRows {} text _ _ _).1 ht
  exact ⟨ht, ⟨before, s, after, hs, hr⟩, hl, (unencodable_marks_text nopRows {} _ _ _ _).2 hl⟩

end Encoder
end RowAsm
