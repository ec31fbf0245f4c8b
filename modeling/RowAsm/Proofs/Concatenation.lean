import RowAsm.Proofs.Blame

/-!
# Texts joined by a newline

A newline divides a text: no word, comment or statement goes across it. So the lexemes of two texts
with a newline between them are those of the first, the newline, and those of the second
(`lexemes_newline`); the tokens and statements of the second are moved down by the lines and bytes
before them, and nothing else changes (`tokenize_newline`, `statements_newline`). The code of the
whole is the code of the parts (`encodeText_newline`).

`moved` is the motion of positions, spans, tokens and diagnostics. A diagnostic that is blamed on no
token would stay where it is; but there always is a token to blame, so the diagnostics of the second
text move with its tokens (`encodeStatement_moved`).
-/

namespace RowAsm

/-! ### Motion -/

/-- The place so many lines and bytes further down. -/
def Position.moved (lines bytes : Nat) (p : Position) : Position :=
  ⟨p.line + lines, p.col, p.offset + bytes⟩

/-- The span so many lines and bytes further down. -/
def Span.moved (lines bytes : Nat) (s : Span) : Span :=
  ⟨s.line + lines, s.col, s.offset + bytes, s.len⟩

/-- The token so many lines and bytes further down. -/
def Token.moved (lines bytes : Nat) (t : Token) : Token :=
  { t with span := t.span.moved lines bytes }

/-- The diagnostic of a text that stands so many lines and bytes further down. -/
def Diagnostic.moved (lines bytes : Nat) : Diagnostic → Diagnostic
  | .malformed message span => .malformed message (span.moved lines bytes)
  | .unencodable kind token span => .unencodable kind token (span.moved lines bytes)
  | .overLimit resource limit => .overLimit resource limit

/-- The halt of a text that stands so many lines and bytes further down. -/
def Halt.moved (lines bytes : Nat) : Halt Diagnostic → Halt Diagnostic
  | .refused d => .refused (d.moved lines bytes)
  | .fault f => .fault f

variable {lines bytes : Nat}

theorem Position.next_moved (p : Position) (c : Char) :
    (p.moved lines bytes).next c = (p.next c).moved lines bytes := by
  unfold next
  split_ifs
  · simp only [moved, Nat.add_right_comm]
  · simp only [moved, Nat.add_right_comm]

theorem Position.after_moved (p : Position) (cs : List Char) :
    (p.moved lines bytes).after cs = (p.after cs).moved lines bytes := by
  induction cs generalizing p with
  | nil => rfl
  | cons c cs ih => rw [after_cons, after_cons, next_moved, ih]

/-- After a newline the lines start anew, below what stands before it. -/
theorem Position.after_newline (text : String) :
    start.after (text.toList ++ ['\n']) =
      start.moved (text.toList.count '\n' + 1) (text.utf8ByteSize + 1) := by
  have hsize : String.utf8Len text.toList = text.utf8ByteSize := by
    rw [← String.utf8ByteSize_ofList, String.ofList_toList]
  rw [after_append, after_cons, after_nil, next, if_pos rfl, line_after, offset_after, hsize]
  rfl

/-! ### Lexemes -/

section While

variable {α : Type} {p : α → Bool} {x : α}

theorem takeWhile_append_cons (hx : p x = false) (l r : List α) :
    (l ++ x :: r).takeWhile p = l.takeWhile p := by
  induction l with
  | nil => simp [hx]
  | cons a l ih => simp only [List.cons_append, List.takeWhile_cons, ih]

theorem dropWhile_append_cons (hx : p x = false) (l r : List α) :
    (l ++ x :: r).dropWhile p = l.dropWhile p ++ x :: r := by
  induction l with
  | nil => simp [hx]
  | cons a l ih =>
    simp only [List.cons_append, List.dropWhile_cons, ih]
    split <;> rfl

end While

/-- A newline is a lexeme of its own. -/
theorem lexemes_newline (cs ds : List Char) :
    lexemes (cs ++ '\n' :: ds) = lexemes cs ++ .single '\n' :: lexemes ds := by
  fun_induction lexemes cs with
  | case1 =>
    rw [List.nil_append, lexemes, if_neg (by decide), if_neg (by decide)]
    rfl
  | case2 cs ih =>
    rw [List.cons_append, lexemes, if_pos rfl, takeWhile_append_cons rfl,
      dropWhile_append_cons rfl, ih]
    rfl
  | case3 c cs hc hw ih =>
    rw [List.cons_append, lexemes, if_neg hc, if_pos hw, takeWhile_append_cons rfl,
      dropWhile_append_cons rfl, ih]
    rfl
  | case4 c cs hc hw ih =>
    rw [List.cons_append, lexemes, if_neg hc, if_neg hw, ih]
    rfl

/-! ### Tokens and statements -/

namespace Token

theorem ofLexemes_append (p : Position) (xs ys : List Lexeme) :
    ofLexemes p (xs ++ ys) =
      match ofLexemes p xs with
      | .error d => .error d
      | .ok ts =>
        match ofLexemes (p.after (xs.flatMap Lexeme.chars)) ys with
        | .error d => .error d
        | .ok us => .ok (ts ++ us) := by
  induction xs generalizing p with
  | nil =>
    simp only [List.nil_append, ofLexemes, List.flatMap_nil, Position.after_nil]
    cases ofLexemes p ys <;> rfl
  | cons x xs ih =>
    rw [List.cons_append, ofLexemes, ofLexemes, List.flatMap_cons, Position.after_append]
    cases ofLexeme p x with
    | error d => rfl
    | ok t =>
      simp only [ih]
      cases ofLexemes (p.after x.chars) xs with
      | error d => rfl
      | ok ts =>
        cases ofLexemes ((p.after x.chars).after (xs.flatMap Lexeme.chars)) ys with
        | error d => rfl
        | ok us => simp

theorem ofLexeme_moved (p : Position) (x : Lexeme) :
    ofLexeme (p.moved lines bytes) x =
      ((ofLexeme p x).mapError (Diagnostic.moved lines bytes)).map
        (Option.map (moved lines bytes)) := by
  cases x with
  | comment cs => rfl
  | word cs =>
    simp only [ofLexeme]
    cases Kind.ofWord? cs <;> rfl
  | single c =>
    simp only [ofLexeme]
    split
    · rfl
    · cases Kind.ofMark? c <;> rfl

theorem ofLexemes_moved (p : Position) (xs : List Lexeme) :
    ofLexemes (p.moved lines bytes) xs =
      ((ofLexemes p xs).mapError (Diagnostic.moved lines bytes)).map
        (List.map (moved lines bytes)) := by
  induction xs generalizing p with
  | nil => rfl
  | cons x xs ih =>
    rw [ofLexemes, ofLexemes, ofLexeme_moved, Position.after_moved, ih]
    cases ofLexeme p x with
    | error d => rfl
    | ok t =>
      cases ofLexemes (p.after x.chars) xs with
      | error d => rfl
      | ok ts => cases t <;> rfl

end Token

theorem tokenize_newline (a b : String) :
    tokenize (a ++ "\n" ++ b) =
      match tokenize a with
      | .error d => .error d
      | .ok ts =>
        match tokenize b with
        | .error d => .error (d.moved (a.toList.count '\n' + 1) (a.utf8ByteSize + 1))
        | .ok us =>
          .ok (ts ++ ⟨.separator, "\n", (Position.start.after a.toList).span "\n"⟩ ::
            us.map (Token.moved (a.toList.count '\n' + 1) (a.utf8ByteSize + 1))) := by
  have hlist : (a ++ "\n" ++ b).toList = a.toList ++ '\n' :: b.toList := by simp
  have hmark : ∀ p, Token.ofLexeme p (.single '\n') =
      .ok (some ⟨.separator, "\n", p.span "\n"⟩) := fun p => rfl
  simp only [tokenize, hlist, lexemes_newline, Token.ofLexemes_append, flatMap_chars_lexemes,
    Token.ofLexemes, hmark, Lexeme.chars, ← Position.after_append, Position.after_newline,
    Token.ofLexemes_moved]
  cases Token.ofLexemes .start (lexemes a.toList) with
  | error d => rfl
  | ok ts => cases Token.ofLexemes .start (lexemes b.toList) <;> rfl

/-- **The statements are those of the parts**, in order. -/
theorem statements_newline (a b : String) :
    statements (a ++ "\n" ++ b) =
      match statements a with
      | .error d => .error d
      | .ok ss =>
        match statements b with
        | .error d => .error (d.moved (a.toList.count '\n' + 1) (a.utf8ByteSize + 1))
        | .ok ss' =>
          .ok (ss ++ ss'.map
            (List.map (Token.moved (a.toList.count '\n' + 1) (a.utf8ByteSize + 1)))) := by
  unfold statements
  rw [tokenize_newline]
  cases tokenize a with
  | error d => rfl
  | ok ts =>
    cases tokenize b with
    | error d => rfl
    | ok us =>
      show Except.ok (Text.words Token.isSeparator (ts ++ _ :: us.map _)) = _
      rw [Text.words_append_cons rfl, Text.words_map]
      rfl

/-! ### Code -/

namespace Encoder

variable {rows : List Row} {e : Encoder} {s : List Token}

theorem encodeStatements_append (ss ss' : List (List Token)) :
    e.encodeStatements (ss ++ ss') =
      match e.encodeStatements ss with
      | .error halt => .error halt
      | .ok x =>
        match e.encodeStatements ss' with
        | .error halt => .error halt
        | .ok y => .ok (x ++ y) := by
  induction ss with
  | nil =>
    simp only [List.nil_append, encodeStatements]
    cases e.encodeStatements ss' <;> rfl
  | cons s ss ih =>
    simp only [List.cons_append, encodeStatements, ih]
    cases e.encodeStatement s with
    | error halt => rfl
    | ok i =>
      cases e.encodeStatements ss with
      | error halt => rfl
      | ok x => cases e.encodeStatements ss' <;> simp

theorem blame_moved {m : Mismatch} (hs : s ≠ []) (hm : m.remaining ≤ s.length) :
    blame (s.map (Token.moved lines bytes)) m = (blame s m).moved lines bytes := by
  have hlt := Mismatch.blamed_lt hs hm
  simp only [blame, List.length_map, List.getElem?_map, List.getElem?_eq_getElem hlt]
  rfl

/-- A statement further down has the same code, and its diagnostics are further down. -/
theorem encodeStatement_moved (he : e.table = .compile rows) (hs : s ≠ []) :
    e.encodeStatement (s.map (Token.moved lines bytes)) =
      (e.encodeStatement s).mapError (Halt.moved lines bytes) := by
  have htext : (s.map (Token.moved lines bytes)).map Token.text = s.map Token.text := by
    rw [List.map_map]
    rfl
  have hanswer := answered_encode he (s.map Token.text)
  rw [encodeStatement, encodeStatement, htext, List.length_map]
  split_ifs
  · rfl
  · cases hcode : e.encode (s.map Token.text) with
    | ok i => rfl
    | error halt =>
      cases halt with
      | fault f => rfl
      | refused m =>
        rw [hcode] at hanswer
        have hle : m.remaining ≤ s.length := by simpa [Answered] using hanswer
        simp only [blame_moved hs hle]
        rfl

theorem encodeStatements_moved (he : e.table = .compile rows) {ss : List (List Token)}
    (hss : ∀ s ∈ ss, s ≠ []) :
    e.encodeStatements (ss.map (List.map (Token.moved lines bytes))) =
      (e.encodeStatements ss).mapError (Halt.moved lines bytes) := by
  induction ss with
  | nil => rfl
  | cons s ss ih =>
    have ih := ih fun s' hs' => hss s' (List.mem_cons_of_mem s hs')
    simp only [List.map_cons, encodeStatements, ih,
      encodeStatement_moved he (hss s List.mem_cons_self)]
    cases e.encodeStatement s with
    | error halt => rfl
    | ok i => cases e.encodeStatements ss <;> rfl

theorem encodeText_eq_of_le {text : String} (h : text.utf8ByteSize ≤ e.settings.maxBytes) :
    e.encodeText text =
      match statements text with
      | .error d => .error (.refused d)
      | .ok ss => e.encodeStatements ss := by
  rewrite [encodeText, readText, if_neg (not_lt.2 h)]
  rfl

/-- **The code of two texts joined by a newline is that of the parts.** -/
theorem encodeText_newline (he : e.table = .compile rows) {a b : String}
    (h : a.utf8ByteSize + 1 + b.utf8ByteSize ≤ e.settings.maxBytes) :
    e.encodeText (a ++ "\n" ++ b) =
      match statements a with
      | .error d => .error (.refused d)
      | .ok ss =>
        match statements b with
        | .error d => .error (.refused (d.moved (a.toList.count '\n' + 1) (a.utf8ByteSize + 1)))
        | .ok ss' =>
          match e.encodeStatements ss with
          | .error halt => .error halt
          | .ok x =>
            match e.encodeStatements ss' with
            | .error halt => .error (halt.moved (a.toList.count '\n' + 1) (a.utf8ByteSize + 1))
            | .ok y => .ok (x ++ y) := by
  have hsize : (a ++ "\n" ++ b).utf8ByteSize = a.utf8ByteSize + 1 + b.utf8ByteSize := by
    rw [String.utf8ByteSize_append, String.utf8ByteSize_append]
    rfl
  rw [encodeText_eq_of_le (hsize ▸ h), statements_newline]
  cases statements a with
  | error d => rfl
  | ok ss =>
    cases hb : statements b with
    | error d => rfl
    | ok ss' =>
      have hne : ∀ s ∈ ss', s ≠ [] := fun s => ne_nil_of_mem_statements hb
      simp only [encodeStatements_append, encodeStatements_moved he hne]
      cases e.encodeStatements ss with
      | error halt => rfl
      | ok x => cases e.encodeStatements ss' <;> rfl

theorem statements_of_tokenize_error {text : String} {d : Diagnostic}
    (h : tokenize text = .error d) : statements text = .error d := by
  rw [statements, h]
  rfl

theorem exists_statements_of_tokenize {text : String} {ts : List Token}
    (h : tokenize text = .ok ts) : ∃ ss, statements text = .ok ss := by
  rw [statements, h]
  exact ⟨_, rfl⟩

/-- **Encoding respects concatenation.** Over the table of any rows, let `c` be two texts `a` and
`b` with a newline between them, within the limit of bytes. Then `c` encodes if and only if both do,
and the code of `c` is the code of `a` and then that of `b`. When it fails: if `a` is malformed, the
diagnostic is that of `a`; else if `b` is malformed, it is that of `b`, moved by the lines and bytes
before `b`; else if `a` does not encode, it is that of `a`; else it is that of `b`, moved
likewise. -/
theorem encodeText_respects_newline (rows : List Row) (settings : Settings) (a b : String)
    (h : a.utf8ByteSize + 1 + b.utf8ByteSize ≤ settings.maxBytes) :
    let e : Encoder := { table := .compile rows, settings }
    let c := a ++ "\n" ++ b
    let lines := a.toList.count '\n' + 1
    let bytes := a.utf8ByteSize + 1
    (∀ z, e.encodeText c = .ok z ↔
      ∃ x y, e.encodeText a = .ok x ∧ e.encodeText b = .ok y ∧ z = x ++ y) ∧
    (∀ d, tokenize a = .error d →
      e.encodeText a = .error (.refused d) ∧ e.encodeText c = .error (.refused d)) ∧
    (∀ ts d, tokenize a = .ok ts → tokenize b = .error d →
      e.encodeText b = .error (.refused d) ∧
        e.encodeText c = .error (.refused (d.moved lines bytes))) ∧
    (∀ ts us halt, tokenize a = .ok ts → tokenize b = .ok us → e.encodeText a = .error halt →
      e.encodeText c = .error halt) ∧
    (∀ us x halt, tokenize b = .ok us → e.encodeText a = .ok x → e.encodeText b = .error halt →
      e.encodeText c = .error (halt.moved lines bytes)) := by
  intro e c lines bytes
  have hc : e.encodeText c = _ := encodeText_newline rfl h
  have ha : e.encodeText a = _ :=
    encodeText_eq_of_le (show a.utf8ByteSize ≤ settings.maxBytes by omega)
  have hb : e.encodeText b = _ :=
    encodeText_eq_of_le (show b.utf8ByteSize ≤ settings.maxBytes by omega)
  refine ⟨?_, ?_, ?_, ?_, ?_⟩
  · intro z
    rw [hc, ha, hb]
    cases statements a with
    | error d => simp
    | ok ss =>
      cases statements b with
      | error d => simp
      | ok ss' =>
        cases hx : e.encodeStatements ss with
        | error halt => simp [hx]
        | ok x =>
          cases hy : e.encodeStatements ss' with
          | error halt => simp [hx, hy]
          | ok y => simp [hx, hy, eq_comm]
  · intro d hd
    have hd := statements_of_tokenize_error hd
    rw [hc, ha, hd]
    exact ⟨rfl, rfl⟩
  · intro ts d hts hd
    obtain ⟨ss, hss⟩ := exists_statements_of_tokenize hts
    have hd := statements_of_tokenize_error hd
    rw [hc, hb, hss, hd]
    exact ⟨rfl, rfl⟩
  · intro ts us halt hts hus hhalt
    obtain ⟨ss, hss⟩ := exists_statements_of_tokenize hts
    obtain ⟨ss', hss'⟩ := exists_statements_of_tokenize hus
    rw [ha, hss] at hhalt
    simp only at hhalt
    rw [hc, hss, hss']
    simp only [hhalt]
  · intro us x halt hus hx hhalt
    obtain ⟨ss', hss'⟩ := exists_statements_of_tokenize hus
    rw [hb, hss'] at hhalt
    rw [ha] at hx
    simp only at hhalt
    cases hss : statements a with
    | error d => simp [hss] at hx
    | ok ss =>
      rw [hss] at hx
      simp only at hx
      rw [hc, hss, hss']
      simp only [hx, hhalt]
      rfl

/-- The second text does not encode, and the diagnostic is two lines further down. -/
theorem encodeText_nop_respects_newline :
    let e : Encoder := { table := .compile nopRows }
    let a := "nop # µ\n"
    let b := " nop hlt"
    a.utf8ByteSize + 1 + b.utf8ByteSize ≤ e.settings.maxBytes ∧
      e.encodeText a = .ok [0x90] ∧
      e.encodeText b = .error (.refused (.unencodable .trailing "hlt" ⟨1, 6, 5, 3⟩)) ∧
      e.encodeText (a ++ "\n" ++ b) =
        .error (.refused (.unencodable .trailing "hlt" ⟨3, 6, 15, 3⟩)) := by
  intro e a b
  have hsize : a.utf8ByteSize + 1 + b.utf8ByteSize ≤ e.settings.maxBytes := by decide +kernel
  have ha : e.encodeText a = .ok [0x90] := by decide +kernel
  have hb : e.encodeText b = .error (.refused (.unencodable .trailing "hlt" ⟨1, 6, 5, 3⟩)) := by
    decide +kernel
  have htokens : tokenize b =
      .ok [⟨.word, "nop", ⟨1, 2, 1, 3⟩⟩, ⟨.word, "hlt", ⟨1, 6, 5, 3⟩⟩] := by decide +kernel
  obtain ⟨-, -, -, -, hlast⟩ := encodeText_respects_newline nopRows {} a b hsize
  have hlines : a.toList.count '\n' + 1 = 2 := by decide +kernel
  have hbytes : a.utf8ByteSize + 1 = 10 := by decide +kernel
  rw [hlines, hbytes] at hlast
  exact ⟨hsize, ha, hb, hlast _ _ _ htokens ha hb⟩

end Encoder
end RowAsm
