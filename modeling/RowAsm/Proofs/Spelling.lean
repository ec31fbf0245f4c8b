import RowAsm.Proofs.CaseBlind
import RowAsm.Proofs.Lossless

/-!
# Texts that are one token

`Token.Kind.ofChars? cs` is the kind of the token that the characters `cs` are by themselves, if
they are one: a word or a mark. Such texts can be written down with a space between each two of
them, and the tokens of what is written are these texts again (`tokenize_join`); if none of them
separates statements, they are one statement (`statements_join`).

Literals are such texts (`Literal.ofChars?_of_value?`), and letter case makes no difference
(`Token.Kind.ofChars?_of_same`).
-/

namespace RowAsm

open Lexeme (isWordChar)

namespace Token

/-- The kind of the token that the characters are by themselves, if they are one. -/
def Kind.ofChars? : List Char → Option Kind
  | [] => none
  | c :: cs =>
    if (c :: cs).all isWordChar then ofWord? (c :: cs)
    else if cs.isEmpty then ofMark? c
    else none

theorem Kind.ofChars?_map_toLower (cs : List Char) :
    ofChars? (cs.map Char.toLower) = ofChars? cs := by
  cases cs with
  | nil => rfl
  | cons c cs =>
    have hall : ((c :: cs).map Char.toLower).all isWordChar = (c :: cs).all isWordChar := by
      rw [List.all_map]
      exact congrArg (List.all (c :: cs)) (funext Lexeme.isWordChar_toLower)
    have hmark : ofMark? c.toLower = ofMark? c := Text.apply_toLower ofMark? (by decide) c
    have hword := ofWord?_map_toLower (c :: cs)
    rw [List.map_cons] at hall hword ⊢
    simp only [ofChars?, hall, hword, hmark, List.isEmpty_map]

/-- Texts that agree up to case are tokens of one kind. -/
theorem Kind.ofChars?_of_same {s t : String} (h : Text.same s t = true) :
    ofChars? s.toList = ofChars? t.toList := by
  rw [← ofChars?_map_toLower s.toList, ← Text.toList_lower, Text.same_iff.1 h, Text.toList_lower,
    ofChars?_map_toLower]

/-- Any token may follow these characters: no comment is open, and no word goes on. -/
def Clear (before : List Char) : Prop :=
  '#' ∉ lastLine before ∧ ∀ c ∈ before.getLast?, isWordChar c = false

end Token

theorem mem_of_mem_lastLine {cs ds : List Char} {c : Char} (h : c ∈ lastLine (cs ++ ds)) :
    c ∈ lastLine cs ∨ c ∈ ds := by
  by_cases hn : '\n' ∈ ds
  · obtain ⟨u, v, rfl⟩ := List.append_of_mem hn
    rw [← List.append_assoc, lastLine_newline] at h
    have hv : c ∈ v := (List.rtakeWhile_suffix _ _).mem h
    exact Or.inr (by simp [hv])
  · rw [lastLine_append hn] at h
    exact List.mem_append.1 h

namespace Token

theorem clear_nil : Clear [] := ⟨by simp [lastLine], by simp⟩

/-- A space after a text without a `#` leaves the place clear. -/
theorem Clear.append_space {before cs : List Char} (h : Clear before) (hcs : '#' ∉ cs) :
    Clear (before ++ cs ++ [' ']) := by
  refine ⟨fun hm => ?_, by simp [isWordChar]⟩
  rw [List.append_assoc] at hm
  rcases mem_of_mem_lastLine hm with hm | hm
  · exact h.1 hm
  · simp [hcs] at hm

/-- The lexeme of a text that is one token. -/
theorem exists_lexeme_of_ofChars? {cs : List Char} {k : Kind} (h : Kind.ofChars? cs = some k) :
    ∃ x : Lexeme, x.chars = cs ∧ '#' ∉ cs ∧
      (∀ p, ofLexeme p x = .ok (some ⟨k, String.ofList cs, p.span (String.ofList cs)⟩)) ∧
      ∀ before after, Clear before → (∀ c ∈ after.head?, isWordChar c = false) →
        x.Stands before after := by
  cases cs with
  | nil => cases h
  | cons c cs =>
    rw [Kind.ofChars?] at h
    split_ifs at h with hall hnil
    · have hword : ∀ d ∈ c :: cs, isWordChar d = true := List.all_eq_true.1 hall
      have hmark : '#' ∉ c :: cs := fun hm => absurd (hword _ hm) (by decide)
      refine ⟨.word (c :: cs), rfl, hmark, fun p => by simp only [ofLexeme, h], ?_⟩
      intro before after hclear hafter
      exact .word hclear.1 (by simp) hword hclear.2 hafter
    · obtain rfl : cs = [] := List.isEmpty_iff.1 hnil
      obtain ⟨-, -, -, hword, hspace⟩ := Kind.of_ofMark? h
      have hmark : c ≠ '#' := by
        rintro rfl
        cases h
      refine ⟨.single c, rfl, by simpa using Ne.symm hmark, fun p => ?_, ?_⟩
      · simp only [ofLexeme, hspace, h]
        rfl
      · intro before after hclear _
        by_cases hn : c = '\n'
        · rw [hn]
          exact .newline
        · exact .single hclear.1 hmark hn hword

/-- Texts that are tokens, with spaces between them, are cut into these texts. -/
theorem exists_laid_join {ws : List String} {ks : List Kind}
    (h : List.Forall₂ (fun w k => Kind.ofChars? w.toList = some k) ws ks) {before : List Char}
    (hclear : Clear before) :
    ∃ xs, Lexeme.Laid before xs ∧ xs.flatMap Lexeme.chars = (Text.join " " ws).toList ∧
      ∀ p, ∃ ts, ofLexemes p xs = .ok ts ∧ ts.map Token.text = ws ∧ ts.map Token.kind = ks := by
  induction h generalizing before with
  | nil => exact ⟨[], .nil, rfl, fun p => ⟨[], rfl, rfl, rfl⟩⟩
  | @cons w k ws ks hw hws ih =>
    obtain ⟨x, hchars, hmark, htoken, hstands⟩ := exists_lexeme_of_ofChars? hw
    rw [String.ofList_toList] at htoken
    cases hws with
    | nil =>
      refine ⟨[x], .cons (hstands _ _ hclear (by simp)) .nil, by simp [Text.join, hchars], ?_⟩
      intro p
      refine ⟨[⟨k, w, p.span w⟩], ?_, rfl, rfl⟩
      simp [ofLexemes, htoken]
    | @cons w' k' ws' ks' hw' hws' =>
      have hnext : Clear (before ++ x.chars ++ (Lexeme.single ' ').chars) := by
        rw [hchars]
        exact hclear.append_space hmark
      obtain ⟨xs, hlaid, hflat, htokens⟩ := ih hnext
      refine ⟨x :: .single ' ' :: xs, .cons ?_ (.cons ?_ hlaid), ?_, ?_⟩
      · exact hstands _ _ hclear (by simp [Lexeme.chars, isWordChar])
      · refine .single ?_ (by decide) (by decide) (by decide)
        intro hm
        rcases mem_of_mem_lastLine hm with hm | hm
        · exact hclear.1 hm
        · exact hmark (hchars ▸ hm)
      · have hjoin : Text.join " " (w :: w' :: ws') = w ++ " " ++ Text.join " " (w' :: ws') := rfl
        rw [List.flatMap_cons, List.flatMap_cons, hflat, hchars, hjoin, String.toList_append,
          String.toList_append, List.append_assoc]
        rfl
      · intro p
        obtain ⟨ts, hts, htext, hkind⟩ := htokens ((p.after x.chars).after [' '])
        refine ⟨⟨k, w, p.span w⟩ :: ts, ?_, by simp [htext], by simp [hkind]⟩
        have hspace : ofLexeme (p.after x.chars) (.single ' ') = .ok none := rfl
        simp only [ofLexemes, htoken, hspace]
        rw [show (Lexeme.single ' ').chars = [' '] from rfl, hts]
        rfl

end Token

/-- **Texts that are tokens, with spaces between them, are read as these tokens.** -/
theorem tokenize_join {ws : List String} {ks : List Token.Kind}
    (h : List.Forall₂ (fun w k => Token.Kind.ofChars? w.toList = some k) ws ks) :
    ∃ ts, tokenize (Text.join " " ws) = .ok ts ∧ ts.map Token.text = ws ∧
      ts.map Token.kind = ks := by
  obtain ⟨xs, hlaid, hflat, htokens⟩ := Token.exists_laid_join h Token.clear_nil
  obtain ⟨ts, hts, htext, hkind⟩ := htokens .start
  refine ⟨ts, ?_, htext, hkind⟩
  rw [tokenize, ← hflat, lexemes_of_laid hlaid, hts]

/-- Without a separator among them, they are one statement. -/
theorem statements_join {ws : List String} {ks : List Token.Kind}
    (h : List.Forall₂ (fun w k => Token.Kind.ofChars? w.toList = some k) ws ks) (hne : ws ≠ [])
    (hks : .separator ∉ ks) :
    ∃ ts, tokenize (Text.join " " ws) = .ok ts ∧ statements (Text.join " " ws) = .ok [ts] ∧
      ts.map Token.text = ws ∧ ts.map Token.kind = ks := by
  obtain ⟨ts, hts, htext, hkind⟩ := tokenize_join h
  have hsep : ∀ t ∈ ts, t.isSeparator = false := by
    intro t ht
    rw [Token.isSeparator, beq_eq_false_iff_ne]
    intro hk
    exact hks (hkind ▸ hk ▸ List.mem_map_of_mem ht)
  have hnil : ts ≠ [] := by
    rintro rfl
    exact hne htext.symm
  refine ⟨ts, hts, ?_, htext, hkind⟩
  rw [statements, hts, Except.map, Text.words_of_not_sep hnil hsep]

/-! ### Literals -/

namespace Text

/-- A hexadecimal digit is a decimal one or a letter. -/
theorem isAlphanum_of_hexValue {c : Char} {d : Nat} (h : hexValue c = some d) :
    c.isAlphanum = true ∧ (d < 10 → c.isDigit = true) := by
  unfold hexValue at h
  simp only [Bool.and_eq_true, decide_eq_true_eq, Char.le_def] at h
  split_ifs at h with hdigit hlower hupper
  · have hc : c.isDigit = true := by
      simp only [Char.isDigit, Bool.and_eq_true, decide_eq_true_eq]
      exact hdigit
    exact ⟨by simp [Char.isAlphanum, hc], fun _ => hc⟩
  · cases h
    have hc : c.isLower = true := by
      simp only [Char.isLower, Bool.and_eq_true, decide_eq_true_eq]
      exact ⟨hlower.1, UInt32.le_trans hlower.2 (by decide)⟩
    exact ⟨by simp [Char.isAlphanum, Char.isAlpha, hc], fun hd => by omega⟩
  · cases h
    have hc : c.isUpper = true := by
      simp only [Char.isUpper, decide_eq_true_eq]
      exact ⟨hupper.1, UInt32.le_trans hupper.2 (by decide)⟩
    exact ⟨by simp [Char.isAlphanum, Char.isAlpha, hc], fun hd => by omega⟩

theorem hexValue_of_digit {radix d : Nat} {c : Char} (h : digit radix c = some d) :
    hexValue c = some d ∧ d < radix := by
  obtain ⟨hv, hd⟩ := Option.filter_eq_some_iff.1 h
  exact ⟨hv, by simpa using hd⟩

/-- All characters of a numeral are digits. -/
theorem digit_of_numeralFrom {radix n m : Nat} {cs : List Char}
    (h : numeralFrom radix n cs = some m) {c : Char} (hc : c ∈ cs) :
    ∃ d, digit radix c = some d := by
  induction cs generalizing n with
  | nil => cases hc
  | cons e cs ih =>
    rw [numeralFrom] at h
    split at h
    · rename_i d hd
      rcases List.mem_cons.1 hc with rfl | hc
      · exact ⟨d, hd⟩
      · exact ih h hc
    · cases h

theorem digit_of_numeral {radix m : Nat} {cs : List Char} (h : numeral radix cs = some m) :
    cs ≠ [] ∧ ∀ c ∈ cs, ∃ d, digit radix c = some d := by
  cases cs with
  | nil => cases h
  | cons e cs => exact ⟨by simp, fun c => digit_of_numeralFrom h⟩

end Text

namespace Literal

open Text

/-- The digits of a literal are all of it, or follow a zero and a letter. -/
theorem split_cases (cs : List Char) :
    split cs = (10, cs) ∨ ∃ c radix ds, cs = '0' :: c :: ds ∧ c.isAlphanum = true ∧
      split cs = (radix, ds) := by
  unfold split
  split
  case h_7 => exact Or.inl rfl
  all_goals exact Or.inr ⟨_, _, _, rfl, by decide, rfl⟩

/-- A literal starts with a digit and is a word. -/
theorem isWord_of_value? {s : String} {n : Nat} (h : value? s = some n) :
    ∃ c cs, s.toList = c :: cs ∧ c.isDigit = true ∧ ∀ d ∈ c :: cs, d.isAlphanum = true := by
  have hnumeral : numeral (split s.toList).1 (split s.toList).2 = some n :=
    (Option.filter_eq_some_iff.1 h).1
  rcases split_cases s.toList with hsplit | ⟨c, radix, ds, hs, hc, hsplit⟩
  · rw [hsplit] at hnumeral
    obtain ⟨hne, hdigits⟩ := digit_of_numeral hnumeral
    obtain ⟨c, cs, hs⟩ := List.exists_cons_of_ne_nil hne
    rw [hs] at hdigits
    refine ⟨c, cs, hs, ?_, fun d hd => ?_⟩
    · obtain ⟨d, hd⟩ := hdigits c (by simp)
      obtain ⟨hv, hlt⟩ := hexValue_of_digit hd
      exact (isAlphanum_of_hexValue hv).2 hlt
    · obtain ⟨e, he⟩ := hdigits d hd
      exact (isAlphanum_of_hexValue (hexValue_of_digit he).1).1
  · rw [hsplit] at hnumeral
    obtain ⟨-, hdigits⟩ := digit_of_numeral hnumeral
    refine ⟨'0', c :: ds, hs, by decide, fun d hd => ?_⟩
    rcases List.mem_cons.1 hd with rfl | hd
    · decide
    · rcases List.mem_cons.1 hd with rfl | hd
      · exact hc
      · obtain ⟨e, he⟩ := hdigits d hd
        exact (isAlphanum_of_hexValue (hexValue_of_digit he).1).1

/-- **A literal is one token**, a number with the value of the literal. -/
theorem ofChars?_of_value? {s : String} {n : Nat} (h : value? s = some n) :
    Token.Kind.ofChars? s.toList = some (.number n) := by
  obtain ⟨c, cs, hs, hc, hword⟩ := isWord_of_value? h
  have hall : (c :: cs).all isWordChar = true := by
    rw [List.all_eq_true]
    intro d hd
    simp [isWordChar, hword d hd]
  have hvalue : value? (String.ofList (c :: cs)) = some n := by rw [← hs, String.ofList_toList, h]
  simp only [hs, Token.Kind.ofChars?, hall, if_true, Token.Kind.ofWord?, hc, hvalue]
  rfl

end Literal
end RowAsm
