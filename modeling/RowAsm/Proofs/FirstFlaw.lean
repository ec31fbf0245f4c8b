import RowAsm.Proofs.Lossless

/-!
# The first flaw of a text

`Flawed text before word flaw` says that after the characters `before` a text has a flaw, made of
the characters `word`: outside comments, a character that has no place in a text, or a word that
starts with a digit and is no literal, in its full length. `FirstFlaw` says that no other flaw of
the text stands before it.

A flaw is a lexeme that leaves no token but a diagnostic (`Flawed.exists_lexeme`,
`flawed_of_lexeme`). Lexemes become tokens in their order, so reading stops at the first flaw, and
what stands before it is read without one (`FirstFlaw.exists_lexeme`). A text is read if it has no
flaw, and otherwise its first one is reported (`tokenize_blames_first_flaw`).
-/

namespace RowAsm

open String (utf8Len)
open Lexeme (chars isWordChar)

/-! ### Flaws -/

/-- The characters that have a place in a text outside comments. -/
def isLegal (c : Char) : Bool :=
  [' ', '\t', '\r', '\n', ';', ',', '[', ']', '+', '-', '_', '.'].contains c || c.isAlphanum

/-- After the characters `before`, the characters `word` of the text are a flaw. -/
inductive Flawed (text : String) (before : List Char) : (word : List Char) → Flaw → Prop
  | stray {after : List Char} {c : Char} (htext : text.toList = before ++ c :: after)
      (hcomment : ¬ Commented before c) (hlegal : isLegal c = false) :
      Flawed text before [c] (.stray c)
  | literal {cs after : List Char} {c : Char}
      (htext : text.toList = before ++ c :: (cs ++ after)) (hcomment : ¬ Commented before c)
      (hword : ∀ d ∈ c :: cs, isWordChar d = true)
      (hbefore : ∀ d ∈ before.getLast?, isWordChar d = false)
      (hafter : ∀ d ∈ after.head?, isWordChar d = false) (hdigit : c.isDigit = true)
      (hvalue : Literal.value? (String.ofList (c :: cs)) = none) :
      Flawed text before (c :: cs) (.literal (String.ofList (c :: cs)))

/-- The flaw of the text is the earliest one. -/
structure FirstFlaw (text : String) (before word : List Char) (flaw : Flaw) : Prop where
  flawed : Flawed text before word flaw
  least : ∀ b w f, Flawed text b w f → utf8Len before ≤ utf8Len b

/-- A character without a place is no space, no mark and no character of a word. -/
theorem isLegal_eq_false_iff {c : Char} :
    isLegal c = false ↔
      Token.isSpace c = false ∧ Token.Kind.ofMark? c = none ∧ isWordChar c = false := by
  rw [isLegal, Bool.or_eq_false_iff]
  constructor
  · rintro ⟨hmem, halphanum⟩
    simp only [List.contains_eq_mem, List.mem_cons, List.not_mem_nil, or_false, not_or,
      decide_eq_false_iff_not] at hmem
    refine ⟨by simp [Token.isSpace, hmem], ?_, by simp [isWordChar, hmem, halphanum]⟩
    unfold Token.Kind.ofMark?
    split <;> simp_all
  · rintro ⟨hspace, hmark, hword⟩
    refine ⟨?_, by simp_all [isWordChar]⟩
    rw [← Bool.not_eq_true, List.contains_iff_mem]
    intro hmem
    fin_cases hmem <;> simp_all [Token.isSpace, Token.Kind.ofMark?, isWordChar]

/-- The only words that are no tokens start with a digit and are no literals. -/
theorem Token.Kind.ofWord?_eq_none_iff {c : Char} {cs : List Char} :
    ofWord? (c :: cs) = none ↔
      c.isDigit = true ∧ Literal.value? (String.ofList (c :: cs)) = none := by
  rw [ofWord?]
  split_ifs with hc <;> simp [hc]

/-! ### Flaws and lexemes -/

section Lexemes

variable {text : String} {before word : List Char} {flaw : Flaw} {ys zs : List Lexeme} {x : Lexeme}

/-- A run of characters of words that cannot be extended is a lexeme, unless it is in a comment. -/
theorem exists_lexeme_of_run {c : Char} {cs after : List Char}
    (htext : text.toList = before ++ c :: (cs ++ after)) (hcomment : ¬ Commented before c)
    (hword : ∀ d ∈ c :: cs, isWordChar d = true)
    (hbefore : ∀ d ∈ before.getLast?, isWordChar d = false)
    (hafter : ∀ d ∈ after.head?, isWordChar d = false) :
    ∃ ys zs, lexemes text.toList = ys ++ .word (c :: cs) :: zs ∧ before = ys.flatMap chars := by
  have hc : isWordChar c = true := hword c (by simp)
  obtain ⟨ys, x, zs, u, v, hxs, rfl, hx, hstands⟩ := exists_lexeme_of_char htext
  have hopen := mt (hstands.commented_iff hx).2 hcomment
  cases hstands with
  | comment => exact absurd ⟨_, rfl⟩ hopen
  | newline =>
    obtain ⟨-, rfl, -⟩ := Lexeme.eq_of_single hx
    cases hc
  | single _ _ _ hsingle =>
    obtain ⟨-, rfl, -⟩ := Lexeme.eq_of_single hx
    rw [hc] at hsingle
    cases hsingle
  | @word ws _ _ _ hws _ hend =>
    obtain rfl : ws = u ++ c :: v := hx
    -- it starts where the run does, because the run cannot be extended to the left
    obtain rfl : u = [] := by
      rcases List.eq_nil_or_concat u with hu | ⟨u, d, rfl⟩
      · exact hu
      · have hd := hws d (by simp)
        rw [hbefore d (by simp)] at hd
        cases hd
    -- and it ends where the run does, because neither can be extended to the right
    have hrest : cs ++ after = v ++ zs.flatMap chars := by
      have hsplit := toList_eq_of_lexemes hxs
      rw [htext, List.append_nil, chars] at hsplit
      simpa using hsplit
    have hcs := (while_append (fun d hd => hword d (List.mem_cons_of_mem c hd)) hafter).1
    have hv := (while_append (fun d hd => hws d (List.mem_cons_of_mem c hd)) hend).1
    obtain rfl : cs = v := by rw [← hcs, ← hv, hrest]
    exact ⟨ys, zs, hxs, by simp⟩

/-- **A flaw is a lexeme that leaves a diagnostic**, wherever it is read. -/
theorem Flawed.exists_lexeme (h : Flawed text before word flaw) :
    ∃ ys x zs, lexemes text.toList = ys ++ x :: zs ∧ before = ys.flatMap chars ∧
      ∀ p, Token.ofLexeme p x = .error (.ofFlaw flaw (p.span (String.ofList word))) := by
  cases h with
  | @stray _ c htext hcomment hlegal =>
    obtain ⟨hspace, hmark, hword⟩ := isLegal_eq_false_iff.1 hlegal
    obtain ⟨ys, x, zs, u, v, hxs, rfl, hx, hstands⟩ := exists_lexeme_of_char htext
    obtain ⟨rfl, rfl⟩ := hstands.eq_single hx hcomment hword
    refine ⟨ys, .single c, zs, hxs, by simp, fun p => ?_⟩
    simp only [Token.ofLexeme, hspace, hmark]
    rfl
  | @literal cs _ c htext hcomment hword hbefore hafter hdigit hvalue =>
    obtain ⟨ys, zs, hxs, rfl⟩ := exists_lexeme_of_run htext hcomment hword hbefore hafter
    refine ⟨ys, .word (c :: cs), zs, hxs, rfl, fun p => ?_⟩
    simp only [Token.ofLexeme, Token.Kind.ofWord?_eq_none_iff.2 ⟨hdigit, hvalue⟩]

/-- **A lexeme that leaves a diagnostic is a flaw.** -/
theorem flawed_of_lexeme (hxs : lexemes text.toList = ys ++ x :: zs) {p : Position}
    {d : Diagnostic} (h : Token.ofLexeme p x = .error d) :
    ∃ flaw, Flawed text (ys.flatMap chars) x.chars flaw ∧
      d = .ofFlaw flaw (p.span (String.ofList x.chars)) := by
  have hstands := stands_of_lexemes hxs
  have htext : text.toList = ys.flatMap chars ++ (x.chars ++ zs.flatMap chars) := by
    rw [← List.append_assoc, toList_eq_of_lexemes hxs]
  have hcomment : ∀ {c cs}, x.chars = c :: cs → (∀ ds, x ≠ .comment ds) →
      ¬ Commented (ys.flatMap chars) c := by
    intro c cs hchars hx hc
    obtain ⟨ds, hds⟩ := (hstands.commented_iff (u := []) hchars).1 (by simpa using hc)
    exact hx ds hds
  cases x with
  | comment cs => cases h
  | word cs =>
    cases hstands with
    | word _ hne hcs hbefore hafter =>
      obtain ⟨c, cs, rfl⟩ := List.exists_cons_of_ne_nil hne
      simp only [Token.ofLexeme] at h
      split at h
      · cases h
      · rename_i hnone
        cases h
        obtain ⟨hdigit, hvalue⟩ := Token.Kind.ofWord?_eq_none_iff.1 hnone
        exact ⟨_, .literal htext (hcomment rfl (by simp)) hcs hbefore hafter hdigit hvalue, rfl⟩
  | single c =>
    simp only [Token.ofLexeme] at h
    split_ifs at h with hspace
    split at h
    · cases h
    · rename_i hmark
      cases h
      have hword : isWordChar c = false := by
        cases hstands with
        | newline => rfl
        | single _ _ _ hword => exact hword
      have hlegal := isLegal_eq_false_iff.2 ⟨by simpa using hspace, hmark, hword⟩
      exact ⟨_, .stray htext (hcomment rfl (by simp)) hlegal, rfl⟩

end Lexemes

/-! ### Beginnings of a text -/

namespace Lexeme

theorem Stands.of_append {before after rest : List Char} {x : Lexeme}
    (h : x.Stands before (after ++ rest)) : x.Stands before after := by
  have hhead : ∀ {c}, c ∈ after.head? → c ∈ (after ++ rest).head? := by
    intro c hc
    rw [List.head?_append, Option.mem_def.1 hc]
    rfl
  cases h with
  | comment hline hcs hafter => exact .comment hline hcs fun c hc => hafter c (hhead hc)
  | word hline hne hcs hbefore hafter =>
    exact .word hline hne hcs hbefore fun c hc => hafter c (hhead hc)
  | newline => exact .newline
  | single hline hmark hnewline hword => exact .single hline hmark hnewline hword

theorem Laid.of_append {before : List Char} {ys zs : List Lexeme} (h : Laid before (ys ++ zs)) :
    Laid before ys := by
  induction ys generalizing before with
  | nil => exact .nil
  | cons y ys ih =>
    rw [List.cons_append] at h
    cases h with
    | cons hy hys =>
      rw [List.flatMap_append] at hy
      exact .cons hy.of_append (ih hys)

end Lexeme

/-- A beginning of a text that is cut between lexemes has these lexemes. -/
theorem tokenize_flatMap_chars {text : String} {ys zs : List Lexeme}
    (h : lexemes text.toList = ys ++ zs) :
    tokenize (String.ofList (ys.flatMap chars)) = Token.ofLexemes .start ys := by
  have hlaid := laid_lexemes_nil text.toList
  rw [h] at hlaid
  rw [tokenize, String.toList_ofList, lexemes_of_laid hlaid.of_append]

/-! ### The first flaw -/

section First

variable {text : String} {before word : List Char} {flaw : Flaw}

/-- A flaw does not stand among lexemes that are read without one. -/
theorem Flawed.utf8Len_le {ys zs : List Lexeme} {us : List Token}
    (hxs : lexemes text.toList = ys ++ zs) (hys : Token.ofLexemes .start ys = .ok us)
    (h : Flawed text before word flaw) : utf8Len (ys.flatMap chars) ≤ utf8Len before := by
  obtain ⟨ys', x', zs', hxs', rfl, herror⟩ := h.exists_lexeme
  rw [hxs, List.append_eq_append_iff] at hxs'
  rcases hxs' with ⟨ws, rfl, -⟩ | ⟨ws, rfl, hws⟩
  · rw [List.flatMap_append, String.utf8Len_append]
    exact Nat.le_add_right _ _
  · cases ws with
    | nil => simp
    | cons w ws =>
      obtain ⟨rfl, -⟩ := List.cons.inj hws
      obtain ⟨_, o, _, -, ho, -⟩ := Token.exists_of_ofLexemes_middle hys
      rw [herror] at ho
      cases ho

/-- **The first flaw is the lexeme at which reading stops.** -/
theorem FirstFlaw.exists_lexeme (h : FirstFlaw text before word flaw) :
    ∃ ys x zs us, lexemes text.toList = ys ++ x :: zs ∧ before = ys.flatMap chars ∧
      Token.ofLexemes .start ys = .ok us ∧
      ∀ p, Token.ofLexeme p x = .error (.ofFlaw flaw (p.span (String.ofList word))) := by
  obtain ⟨ys, x, zs, hxs, rfl, herror⟩ := h.flawed.exists_lexeme
  cases hys : Token.ofLexemes .start ys with
  | ok us => exact ⟨ys, x, zs, us, hxs, rfl, hys, herror⟩
  | error d =>
    -- an earlier lexeme that leaves a diagnostic would be an earlier flaw
    exfalso
    obtain ⟨vs, y, ws, us, rfl, -, hy⟩ := Token.exists_lexeme_of_ofLexemes_error hys
    rw [List.append_assoc, List.cons_append] at hxs
    obtain ⟨f, hf, -⟩ := flawed_of_lexeme hxs hy
    have hle := h.least _ _ _ hf
    obtain ⟨c, cs, hc⟩ := List.exists_cons_of_ne_nil
      (Lexeme.chars_ne_nil (show y ∈ lexemes text.toList by simp [hxs]))
    have hpos := c.utf8Size_pos
    rw [List.flatMap_append, List.flatMap_cons, hc, String.utf8Len_append, List.cons_append,
      String.utf8Len_cons] at hle
    omega

theorem tokenize_eq_error_iff {d : Diagnostic} :
    tokenize text = .error d ↔ ∃ before word flaw, FirstFlaw text before word flaw ∧
      d = .ofFlaw flaw ((Position.start.after before).span (String.ofList word)) := by
  constructor
  · intro h
    obtain ⟨ys, x, zs, us, hxs, hys, hx⟩ := Token.exists_lexeme_of_ofLexemes_error h
    obtain ⟨flaw, hflaw, hd⟩ := flawed_of_lexeme hxs hx
    exact ⟨_, _, flaw, ⟨hflaw, fun _ _ _ hf => hf.utf8Len_le hxs hys⟩, hd⟩
  · rintro ⟨before, word, flaw, h, rfl⟩
    obtain ⟨ys, x, zs, us, hxs, rfl, hys, herror⟩ := h.exists_lexeme
    rw [tokenize, hxs, Token.ofLexemes_append, hys]
    simp only [Token.ofLexemes, herror]

theorem FirstFlaw.exists_tokens (h : FirstFlaw text before word flaw) :
    ∃ ts, tokenize (String.ofList before) = .ok ts := by
  obtain ⟨ys, x, zs, us, hxs, rfl, hys, -⟩ := h.exists_lexeme
  exact ⟨us, by rw [tokenize_flatMap_chars hxs, hys]⟩

/-- The span of a word after the characters `before`, in lines, columns and bytes. -/
theorem Position.span_after (before word : List Char) :
    (start.after before).span (String.ofList word) =
      ⟨1 + before.count '\n', 1 + utf8Len (lastLine before), utf8Len before, utf8Len word⟩ := by
  have hoffset : (start.after before).offset = utf8Len before := by
    rw [offset_after]
    exact Nat.zero_add _
  rw [span, line_after, col_after, hoffset, String.utf8ByteSize_ofList]
  rfl

end First

/-- **Reading blames the first flaw.** A text is refused if and only if it has a flaw: outside
comments, a character that has no place in a text, or a maximal word that starts with a digit and is
no literal. Then the diagnostic names the earliest flaw and marks exactly its characters, with their
line, column and offset, and the text before it is read without a diagnostic. In a text of fewer
than 2 ^ 32 - 1 bytes line and column have 32 bits. -/
theorem tokenize_blames_first_flaw (text : String) :
    ((∃ d, tokenize text = .error d) ↔ ∃ before word flaw, Flawed text before word flaw) ∧
    (∀ d, tokenize text = .error d ↔ ∃ before word flaw, FirstFlaw text before word flaw ∧
      d = .malformed flaw.message ⟨1 + before.count '\n', 1 + utf8Len (lastLine before),
        utf8Len before, utf8Len word⟩) ∧
    ∀ before word flaw, FirstFlaw text before word flaw →
      (∃ ts, tokenize (String.ofList before) = .ok ts) ∧
      (text.utf8ByteSize < 2 ^ 32 - 1 →
        1 + before.count '\n' < 2 ^ 32 ∧ 1 + utf8Len (lastLine before) < 2 ^ 32) := by
  refine ⟨⟨?_, ?_⟩, fun d => ?_, fun before word flaw h => ⟨h.exists_tokens, fun hsize => ?_⟩⟩
  · rintro ⟨d, hd⟩
    obtain ⟨before, word, flaw, h, -⟩ := tokenize_eq_error_iff.1 hd
    exact ⟨before, word, flaw, h.flawed⟩
  · rintro ⟨before, word, flaw, h⟩
    obtain ⟨ys, x, zs, hxs, -, herror⟩ := h.exists_lexeme
    cases hts : tokenize text with
    | error d => exact ⟨d, rfl⟩
    | ok ts =>
      rw [tokenize, hxs] at hts
      obtain ⟨_, o, _, -, ho, -⟩ := Token.exists_of_ofLexemes_middle hts
      rw [herror] at ho
      cases ho
  · simp only [tokenize_eq_error_iff, Position.span_after, Diagnostic.ofFlaw]
  · obtain ⟨ys, x, zs, us, hxs, rfl, -, -⟩ := h.exists_lexeme
    have htext := toList_eq_of_lexemes hxs
    rw [List.append_assoc] at htext
    have hcounters := Position.counters_lt hsize htext
    rwa [Position.line_after, Position.col_after] at hcounters

/-- The literal ends at its `.`, and the flaw in the comment before it is none. -/
theorem tokenize_blames_first_flaw_literal :
    ∃ before word flaw, FirstFlaw "mov eax, 1 # $\n\tadd 0xZZ.é" before word flaw ∧
      flaw.message = "invalid numeric literal '0xZZ.'" ∧ utf8Len before = 20 ∧ utf8Len word = 5 ∧
      ∃ ts, tokenize (String.ofList before) = .ok ts := by
  have h : tokenize "mov eax, 1 # $\n\tadd 0xZZ.é" =
      .error (.malformed "invalid numeric literal '0xZZ.'" ⟨2, 6, 20, 5⟩) := by
    decide +kernel
  have hfirst := tokenize_blames_first_flaw "mov eax, 1 # $\n\tadd 0xZZ.é"
  obtain ⟨before, word, flaw, hflaw, heq⟩ := (hfirst.2.1 _).1 h
  obtain ⟨hmessage, hspan⟩ := Diagnostic.malformed.inj heq
  obtain ⟨-, -, hbefore, hword⟩ := Span.mk.inj hspan
  exact ⟨before, word, flaw, hflaw, hmessage.symm, hbefore.symm, hword.symm,
    (hfirst.2.2 _ _ _ hflaw).1⟩

end RowAsm
