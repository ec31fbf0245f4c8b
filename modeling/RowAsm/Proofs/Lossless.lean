import RowAsm.Proofs.Lexical

/-!
# Lexing is lossless

`Accounts text ts` says that the tokens `ts` account for a text: they stand in it where their spans
say, in order; between them are only spaces and comments, and every separator is a token; words are
maximal, and those that start with a digit are numbers. The tokens of a text do
(`tokenize_accounts_for_text`).

A character is in a comment if a `#` stands on its line, before it or at it (`Commented`), because a
`#` is never part of a token. So whether a character is in a token is decided by the character and
its line so far (`covers_iff`).

Statements are the maximal runs of tokens without a separator, said by `Text.Runs` of any list.
-/

namespace RowAsm

open String (utf8Len)

/-! ### Maximal runs -/

namespace Text

variable {α : Type} {sep : α → Bool}

/-- The lists `ss` are the maximal non-empty runs of items of `l` that are no separators. -/
inductive Runs (sep : α → Bool) : List α → List (List α) → Prop
  | nil {g : List α} (hg : ∀ a ∈ g, sep a = true) : Runs sep g []
  | cons {g s l : List α} {ss : List (List α)} (hg : ∀ a ∈ g, sep a = true) (hne : s ≠ [])
      (hs : ∀ a ∈ s, sep a = false) (hl : ∀ a ∈ l.head?, sep a = true) (h : Runs sep l ss) :
      Runs sep (g ++ s ++ l) (s :: ss)

theorem words_append_of_sep {g : List α} (hg : ∀ a ∈ g, sep a = true) (l : List α) :
    words sep (g ++ l) = words sep l := by
  induction g with
  | nil => rfl
  | cons a g ih =>
    have ha : sep a = true := hg a (by simp)
    rw [List.cons_append, ← ih fun b hb => hg b (by simp [hb])]
    exact words_append_cons ha [] _

/-- Items without a separator among them are one word. -/
theorem words_of_not_sep {s : List α} (hne : s ≠ []) (hs : ∀ a ∈ s, sep a = false) :
    words sep s = [s] := by
  have hfields : fields sep s = [s] := by
    clear hne
    induction s with
    | nil => rfl
    | cons a s ih => rw [fields, if_neg (by simp [hs a]), ih fun b hb => hs b (by simp [hb])]
  simp [words, hfields, hne]

theorem words_append_of_not_sep {s l : List α} (hne : s ≠ []) (hs : ∀ a ∈ s, sep a = false)
    (hl : ∀ a ∈ l.head?, sep a = true) : words sep (s ++ l) = s :: words sep l := by
  cases l with
  | nil => simp [words_of_not_sep hne hs]
  | cons a l =>
    have ha : sep a = true := hl a rfl
    rw [words_append_cons ha, words_of_not_sep hne hs, List.singleton_append]
    exact congrArg (s :: ·) (words_append_cons ha [] l).symm

theorem words_of_runs {l : List α} {ss : List (List α)} (h : Runs sep l ss) : words sep l = ss := by
  induction h with
  | nil hg => simpa using words_append_of_sep hg []
  | cons hg hne hs hl _ ih =>
    rw [List.append_assoc, words_append_of_sep hg, words_append_of_not_sep hne hs hl, ih]

theorem exists_runs (sep : α → Bool) (l : List α) : ∃ ss, Runs sep l ss := by
  induction l with
  | nil => exact ⟨[], .nil (by simp)⟩
  | cons a l ih =>
    obtain ⟨ss, h⟩ := ih
    cases ha : sep a with
    | true =>
      -- one more separator before the first run
      cases h with
      | nil hg => exact ⟨[], .nil (by simpa using ⟨ha, hg⟩)⟩
      | @cons g s l ss hg hne hs hl h =>
        exact ⟨s :: ss, .cons (g := a :: g) (by simpa using ⟨ha, hg⟩) hne hs hl h⟩
    | false =>
      by_cases hl : ∀ b ∈ l.head?, sep b = true
      · exact ⟨[a] :: ss, .cons (g := []) (s := [a]) (by simp) (by simp) (by simpa using ha) hl h⟩
      · -- the first run starts here and grows
        cases h with
        | nil hg => exact absurd (fun b hb => hg b (List.mem_of_mem_head? hb)) hl
        | @cons g s l ss hg hne hs hnext h =>
          cases g with
          | nil =>
            exact ⟨(a :: s) :: ss, .cons (g := []) (s := a :: s) (by simp) (by simp)
              (by simpa using ⟨ha, hs⟩) hnext h⟩
          | cons b g => exact absurd (by simpa using hg b (by simp)) hl

/-- **The words of a list are its maximal runs.** -/
theorem runs_iff {l : List α} {ss : List (List α)} : Runs sep l ss ↔ words sep l = ss := by
  refine ⟨words_of_runs, ?_⟩
  rintro rfl
  obtain ⟨ss, h⟩ := exists_runs sep l
  rwa [words_of_runs h]

/-- A list that cutting at separators leaves whole. -/
structure IsWord (sep : α → Bool) (w : List α) : Prop where
  ne_nil : w ≠ []
  not_sep : ∀ a ∈ w, sep a = false

theorem isWord_of_mem_words {l w : List α} (h : w ∈ words sep l) : IsWord sep w := by
  refine ⟨(mem_words_iff.1 h).2, ?_⟩
  have hruns : Runs sep l (words sep l) := runs_iff.2 rfl
  generalize words sep l = ws at hruns h
  induction hruns with
  | nil => cases h
  | cons _ _ hs _ _ ih =>
    rcases List.mem_cons.1 h with rfl | h
    · exact hs
    · exact ih h

end Text

/-! ### Comments and tokens -/

/-- After the characters `before`, the character `c` stands in a comment: a `#` stands on its line,
before it or at it. -/
def Commented (before : List Char) (c : Char) : Prop := '#' ∈ lastLine (before ++ [c])

theorem Lexeme.eq_of_single {c d : Char} {u v : List Char}
    (h : (Lexeme.single d).chars = u ++ c :: v) : u = [] ∧ c = d ∧ v = [] := by
  rw [chars, List.singleton_eq_append_iff] at h
  simpa [eq_comm] using h

open Lexeme in
/-- A character is in a comment if its lexeme is one. -/
theorem Lexeme.Stands.commented_iff {before after u v : List Char} {x : Lexeme} {c : Char}
    (h : x.Stands before after) (hx : x.chars = u ++ c :: v) :
    Commented (before ++ u) c ↔ ∃ cs, x = .comment cs := by
  unfold Commented
  rw [List.append_assoc]
  have hpart : ∀ d ∈ u ++ [c], d ∈ x.chars := by
    intro d hd
    rw [hx]
    simp only [List.mem_append, List.mem_cons] at hd ⊢
    tauto
  cases h with
  | @comment cs _ hline hcs _ =>
    have hnewline : '\n' ∉ u ++ [c] := fun hm => by simpa [chars, hcs] using hpart _ hm
    have hmark : '#' ∈ u ++ [c] := by
      rw [chars, List.cons_eq_append_iff] at hx
      rcases hx with ⟨rfl, hx⟩ | ⟨u, rfl, -⟩
      · simp [(List.cons.inj hx).1]
      · simp
    rw [lastLine_append hnewline, List.mem_append]
    exact ⟨fun _ => ⟨_, rfl⟩, fun _ => Or.inr hmark⟩
  | word hline _ hcs _ _ =>
    have hnewline : '\n' ∉ u ++ [c] := fun hm => absurd (hcs _ (hpart _ hm)) (by decide)
    have hmark : '#' ∉ u ++ [c] := fun hm => absurd (hcs _ (hpart _ hm)) (by decide)
    rw [lastLine_append hnewline, List.mem_append]
    simp [hline, hmark]
  | newline =>
    obtain ⟨rfl, rfl, -⟩ := eq_of_single hx
    rw [List.nil_append, lastLine_newline]
    simp [lastLine]
  | single hline hmark hnewline _ =>
    obtain ⟨rfl, rfl, -⟩ := eq_of_single hx
    rw [List.nil_append, lastLine_append (by simpa using Ne.symm hnewline), List.mem_append]
    simp [hline, Ne.symm hmark]

/-- A character that is in no comment and in no word is a lexeme by itself. -/
theorem Lexeme.Stands.eq_single {before after u v : List Char} {x : Lexeme} {c : Char}
    (h : x.Stands before after) (hx : x.chars = u ++ c :: v)
    (hcomment : ¬ Commented (before ++ u) c) (hword : isWordChar c = false) :
    x = .single c ∧ u = [] := by
  cases x with
  | comment cs => exact absurd ((h.commented_iff hx).2 ⟨cs, rfl⟩) hcomment
  | word cs =>
    cases h with
    | word _ _ hcs _ _ =>
      rw [hcs c (by rw [show cs = u ++ c :: v from hx]; simp)] at hword
      cases hword
  | single d =>
    obtain ⟨hu, rfl, -⟩ := eq_of_single hx
    exact ⟨rfl, hu⟩

namespace Token

/-- The token covers the byte at an offset. -/
def Covers (t : Token) (i : Nat) : Prop := t.span.offset ≤ i ∧ i < t.span.offset + t.span.len

/-- The token is a word: a name or a number. -/
def IsWord (t : Token) : Prop := t.kind = .word ∨ ∃ v, t.kind = .number v

variable {p : Position} {t : Token} {c : Char} {cs : List Char}

theorem of_ofLexeme_word (h : ofLexeme p (.word cs) = .ok (some t)) :
    t.text = String.ofList cs ∧ Kind.ofWord? cs = some t.kind := by
  simp only [ofLexeme] at h
  split at h
  · rename_i kind hkind
    cases h
    exact ⟨rfl, hkind⟩
  · cases h

theorem of_ofLexeme_single (h : ofLexeme p (.single c) = .ok (some t)) :
    t.text = String.ofList [c] ∧ Kind.ofMark? c = some t.kind := by
  simp only [ofLexeme] at h
  split_ifs at h
  · cases h
  · split at h
    · rename_i kind hkind
      cases h
      exact ⟨rfl, hkind⟩
    · cases h

/-- A word is a number if it starts with a digit, and a name if not. -/
theorem Kind.of_ofWord? {k : Kind} (h : ofWord? (c :: cs) = some k) :
    (c.isDigit = true ∧ ∃ v, k = .number v ∧ Literal.value? (String.ofList (c :: cs)) = some v) ∨
      (c.isDigit = false ∧ k = .word) := by
  rw [ofWord?] at h
  split_ifs at h with hc
  · obtain ⟨v, hv, rfl⟩ := Option.map_eq_some_iff.1 h
    exact Or.inl ⟨hc, v, rfl, hv⟩
  · cases h
    exact Or.inr ⟨by simpa using hc, rfl⟩

/-- A mark is no word, and it is neither a digit nor another character of words, nor a space. -/
theorem Kind.of_ofMark? {k : Kind} (h : ofMark? c = some k) :
    k ≠ .word ∧ (∀ v, k ≠ .number v) ∧ c.isDigit = false ∧ Lexeme.isWordChar c = false ∧
      isSpace c = false := by
  unfold ofMark? at h
  split at h <;> cases h <;> exact ⟨by simp, by simp, by decide⟩

/-- A byte of a lexeme is covered if the lexeme leaves a token. -/
theorem covers_iff_of_append {ys zs : List Lexeme} {x : Lexeme} {ts : List Token}
    (h : ofLexemes p (ys ++ x :: zs) = .ok ts) {i : Nat}
    (hlo : p.offset + utf8Len (ys.flatMap Lexeme.chars) ≤ i)
    (hhi : i < p.offset + utf8Len (ys.flatMap Lexeme.chars) + utf8Len x.chars) :
    (∃ t ∈ ts, t.Covers i) ↔
      ∃ t, ofLexeme (p.after (ys.flatMap Lexeme.chars)) x = .ok (some t) := by
  obtain ⟨us, o, vs, hus, ho, hvs, rfl⟩ := exists_of_ofLexemes_middle h
  constructor
  · rintro ⟨t, ht, hcovers⟩
    unfold Covers at hcovers
    rcases List.mem_append.1 ht with ht | ht
    · -- the tokens of the lexemes before it end before the byte
      have hend := (span_of_ofLexemes hus ht).2
      omega
    · rcases List.mem_append.1 ht with ht | ht
      · rw [Option.mem_toList] at ht
        exact ⟨t, ht ▸ ho⟩
      · -- the tokens of the lexemes after it start after the byte
        have hstart := (span_of_ofLexemes hvs ht).1
        rw [Position.offset_after, Position.offset_after] at hstart
        omega
  · rintro ⟨t, ht⟩
    obtain rfl : o = some t := Except.ok.inj (ho.symm.trans ht)
    obtain ⟨hoffset, hlen⟩ := span_of_ofLexeme ht
    rw [Position.offset_after] at hoffset
    refine ⟨t, by simp, ?_⟩
    unfold Covers
    omega

end Token

/-! ### Texts -/

/-- The tokens `ts` account for the text. -/
structure Accounts (text : String) (ts : List Token) : Prop where
  /-- A token is not empty and stands where its span says, on the line and at the column of it. -/
  marks : ∀ t ∈ ts, t.text ≠ "" ∧ t.span.Marks text t.text
  /-- In a text of fewer than 2 ^ 32 - 1 bytes lines and columns have 32 bits. -/
  counters : text.utf8ByteSize < 2 ^ 32 - 1 → ∀ t ∈ ts, t.span.line < 2 ^ 32 ∧ t.span.col < 2 ^ 32
  /-- Tokens are in order and do not overlap. -/
  ordered : ts.Pairwise fun t u => t.span.offset + t.span.len ≤ u.span.offset
  /-- The bytes of a character are in a token, except for those of spaces and comments. -/
  covered : ∀ before c after, text.toList = before ++ c :: after → ∀ i, utf8Len before ≤ i →
    i < utf8Len before + c.utf8Size →
      ((∃ t ∈ ts, t.Covers i) ↔ Token.isSpace c = false ∧ ¬ Commented before c)
  /-- A newline is a separator, and so is a `;` outside comments. -/
  separators : ∀ before c after, text.toList = before ++ c :: after →
    (c = '\n' ∨ (c = ';' ∧ ¬ Commented before c)) →
      ∃ t ∈ ts, t.kind = .separator ∧ t.text = String.ofList [c] ∧ t.span.offset = utf8Len before
  /-- A word cannot be extended to either side. -/
  words : ∀ t ∈ ts, t.IsWord → (∀ c ∈ t.text.toList, Lexeme.isWordChar c = true) ∧
    ∃ before after, text.toList = before ++ t.text.toList ++ after ∧
      t.span.offset = utf8Len before ∧ (∀ c ∈ before.getLast?, Lexeme.isWordChar c = false) ∧
      ∀ c ∈ after.head?, Lexeme.isWordChar c = false
  /-- Numbers are the tokens that start with a digit, and have the value of their literal. -/
  numbers : ∀ t ∈ ts, ((∃ v, t.kind = .number v) ↔ ∃ c ∈ t.text.toList.head?, c.isDigit = true) ∧
    ∀ v, t.kind = .number v → Literal.value? t.text = some v
  /-- Every other token is a mark. -/
  others : ∀ t ∈ ts, ¬ t.IsWord → ∃ c, t.text = String.ofList [c] ∧
    Token.Kind.ofMark? c = some t.kind

/-- The lexemes of a text, with a token of one of them. -/
theorem exists_lexeme_of_tokenize {text : String} {ts : List Token} (h : tokenize text = .ok ts)
    {t : Token} (ht : t ∈ ts) :
    ∃ before x after, text.toList = before ++ x.chars ++ after ∧ x.Stands before after ∧
      Token.ofLexeme (Position.start.after before) x = .ok (some t) := by
  obtain ⟨ys, x, zs, hxs, hx⟩ := Token.exists_lexeme_of_ofLexemes h ht
  exact ⟨_, x, _, toList_eq_of_lexemes hxs, stands_of_lexemes hxs, hx⟩

/-- The lexeme that a character of a text is in. -/
theorem exists_lexeme_of_char {text : String} {before after : List Char} {c : Char}
    (h : text.toList = before ++ c :: after) :
    ∃ ys x zs u v, lexemes text.toList = ys ++ x :: zs ∧ before = ys.flatMap Lexeme.chars ++ u ∧
      x.chars = u ++ c :: v ∧ x.Stands (ys.flatMap Lexeme.chars) (zs.flatMap Lexeme.chars) := by
  have hflat := flatMap_chars_lexemes text.toList
  rw [h] at hflat
  obtain ⟨ys, x, zs, u, v, hxs, hbefore, hx, -⟩ := Lexeme.exists_of_flatMap hflat
  rw [← h] at hxs
  exact ⟨ys, x, zs, u, v, hxs, hbefore, hx, stands_of_lexemes hxs⟩

/-- A lexeme leaves a token, unless its characters are spaces or in a comment. -/
theorem Lexeme.Stands.exists_token_iff {before after u v : List Char} {x : Lexeme} {c : Char}
    (h : x.Stands before after) (hx : x.chars = u ++ c :: v) {p : Position} {o : Option Token}
    (ho : Token.ofLexeme p x = .ok o) :
    (∃ t, Token.ofLexeme p x = .ok (some t)) ↔
      Token.isSpace c = false ∧ ¬ Commented (before ++ u) c := by
  rw [h.commented_iff hx]
  cases x with
  | comment cs => simp [Token.ofLexeme]
  | word cs =>
    have hspace : Token.isSpace c = false := by
      cases h with
      | word _ _ hcs _ _ =>
        have hc : isWordChar c = true := hcs c (by rw [show cs = u ++ c :: v from hx]; simp)
        rw [← Bool.not_eq_true]
        intro hs
        simp only [Token.isSpace, Bool.or_eq_true, beq_iff_eq] at hs
        rcases hs with (rfl | rfl) | rfl <;> cases hc
    simp only [Token.ofLexeme] at ho ⊢
    split at ho
    · simp [hspace]
    · cases ho
  | single d =>
    obtain ⟨-, rfl, -⟩ := eq_of_single hx
    simp only [Token.ofLexeme] at ho ⊢
    cases hs : Token.isSpace c with
    | true => simp
    | false =>
      rw [if_neg (by simp [hs])] at ho
      split at ho
      · simp
      · cases ho

theorem not_commented_newline (before : List Char) : ¬ Commented before '\n' := by
  rw [Commented, lastLine_newline]
  simp [lastLine]

section Tokens

variable {text : String} {ts : List Token} {t : Token} {before after : List Char} {c : Char}

/-- A token is a maximal word, read as one, or a mark. -/
theorem Token.word_or_mark (h : tokenize text = .ok ts) (ht : t ∈ ts) :
    (∃ before d ds after, t.text = String.ofList (d :: ds) ∧
      text.toList = before ++ d :: ds ++ after ∧ t.span.offset = utf8Len before ∧
      (Lexeme.word (d :: ds)).Stands before after ∧ Kind.ofWord? (d :: ds) = some t.kind) ∨
      ∃ d, t.text = String.ofList [d] ∧ Kind.ofMark? d = some t.kind := by
  obtain ⟨before, x, after, htext, hx, ho⟩ := exists_lexeme_of_tokenize h ht
  cases x with
  | comment cs => cases ho
  | word cs =>
    obtain ⟨hword, hkind⟩ := of_ofLexeme_word ho
    have hoffset := (span_of_ofLexeme ho).1
    rw [Position.offset_after, show Position.start.offset = 0 from rfl, Nat.zero_add] at hoffset
    obtain ⟨d, ds, rfl⟩ : ∃ d ds, cs = d :: ds := by
      cases hx with
      | word _ hne _ _ _ => exact List.exists_cons_of_ne_nil hne
    exact Or.inl ⟨before, d, ds, after, hword, htext, hoffset, hx, hkind⟩
  | single d => exact Or.inr ⟨d, of_ofLexeme_single ho⟩

theorem counters_of_mem_tokens (h : tokenize text = .ok ts) (ht : t ∈ ts)
    (hsize : text.utf8ByteSize < 2 ^ 32 - 1) : t.span.line < 2 ^ 32 ∧ t.span.col < 2 ^ 32 := by
  obtain ⟨left, right, hsplit, hspan⟩ := exists_split_of_tokenize h ht
  rw [List.append_assoc] at hsplit
  rw [hspan]
  exact Position.counters_lt hsize hsplit

/-- A character is in a token unless it is a space or in a comment. -/
theorem covers_iff (h : tokenize text = .ok ts) (hc : text.toList = before ++ c :: after) {i : Nat}
    (hlo : utf8Len before ≤ i) (hhi : i < utf8Len before + c.utf8Size) :
    (∃ t ∈ ts, t.Covers i) ↔ Token.isSpace c = false ∧ ¬ Commented before c := by
  obtain ⟨ys, x, zs, u, v, hxs, rfl, hx, hstands⟩ := exists_lexeme_of_char hc
  unfold tokenize at h
  rw [hxs] at h
  have hstart : Position.start.offset = 0 := rfl
  have hlen : utf8Len x.chars = utf8Len u + (c.utf8Size + utf8Len v) := by
    rw [hx, String.utf8Len_append, String.utf8Len_cons, Nat.add_comm (utf8Len v)]
  rw [String.utf8Len_append] at hlo hhi
  obtain ⟨_, o, _, -, ho, -⟩ := Token.exists_of_ofLexemes_middle h
  rw [Token.covers_iff_of_append h (by omega) (by omega), hstands.exists_token_iff hx ho]

/-- A separator that is in no comment is a token. -/
theorem exists_separator (h : tokenize text = .ok ts) (hc : text.toList = before ++ c :: after)
    (hmark : Token.Kind.ofMark? c = some .separator) (hcomment : ¬ Commented before c) :
    ∃ t ∈ ts, t.kind = .separator ∧ t.text = String.ofList [c] ∧
      t.span.offset = utf8Len before := by
  obtain ⟨ys, x, zs, u, v, hxs, rfl, hx, hstands⟩ := exists_lexeme_of_char hc
  unfold tokenize at h
  rw [hxs] at h
  obtain ⟨us, o, vs, -, ho, -, rfl⟩ := Token.exists_of_ofLexemes_middle h
  obtain ⟨-, -, -, hword, hspace⟩ := Token.Kind.of_ofMark? hmark
  obtain ⟨rfl, rfl⟩ := hstands.eq_single hx hcomment hword
  simp only [Token.ofLexeme, hspace, hmark] at ho
  cases ho
  refine ⟨_, List.mem_append_right us List.mem_cons_self, rfl, rfl, ?_⟩
  simp [Position.span, Position.offset_after, Position.start]

end Tokens

/-- **Lexing is lossless.** The tokens of a text account for it, and the statements of the text are
the maximal runs of these tokens between separators. -/
theorem tokenize_accounts_for_text (text : String) (ts : List Token) (h : tokenize text = .ok ts) :
    Accounts text ts ∧ ∀ ss, statements text = .ok ss ↔ Text.Runs Token.isSeparator ts ss := by
  constructor
  · constructor
    case marks => exact fun t => marks_of_mem_tokens h
    case counters => exact fun hsize t ht => counters_of_mem_tokens h ht hsize
    case ordered => exact Token.pairwise_of_ofLexemes h
    case covered => exact fun before c after hc i => covers_iff h hc
    case separators =>
      rintro before c after hc (rfl | ⟨rfl, hcomment⟩)
      · exact exists_separator h hc rfl (not_commented_newline before)
      · exact exists_separator h hc rfl hcomment
    case words =>
      intro t ht hword
      rcases Token.word_or_mark h ht with
        ⟨before, d, ds, after, hd, htext, hoffset, hstands, -⟩ | ⟨d, -, hmark⟩
      · rw [hd, String.toList_ofList]
        cases hstands with
        | word _ _ hcs hbefore hafter => exact ⟨hcs, before, after, htext, hoffset, hbefore, hafter⟩
      · obtain ⟨hname, hnumber, -⟩ := Token.Kind.of_ofMark? hmark
        rcases hword with hword | ⟨v, hword⟩
        · exact absurd hword hname
        · exact absurd hword (hnumber v)
    case numbers =>
      intro t ht
      rcases Token.word_or_mark h ht with ⟨-, d, ds, -, hd, -, -, -, hkind⟩ | ⟨d, hd, hmark⟩
      · rw [hd, String.toList_ofList]
        rcases Token.Kind.of_ofWord? hkind with ⟨hdigit, v, hv, hvalue⟩ | ⟨hdigit, hname⟩
        · refine ⟨by simp [hv, hdigit], fun w hw => ?_⟩
          obtain rfl : v = w := Token.Kind.number.inj (hv.symm.trans hw)
          exact hvalue
        · simp [hname, hdigit]
      · obtain ⟨-, hnumber, hdigit, -⟩ := Token.Kind.of_ofMark? hmark
        rw [hd, String.toList_ofList]
        simp [hnumber, hdigit]
    case others =>
      intro t ht hword
      rcases Token.word_or_mark h ht with ⟨-, d, ds, -, -, -, -, -, hkind⟩ | hmark
      · rcases Token.Kind.of_ofWord? hkind with ⟨-, v, hv, -⟩ | ⟨-, hname⟩
        · exact absurd (Or.inr ⟨v, hv⟩) hword
        · exact absurd (Or.inl hname) hword
      · exact hmark
  · intro ss
    rw [Text.runs_iff, statements, h]
    simp [Except.map]

/-- A comment with a `;` in it that is not all of ASCII, and an empty statement. -/
theorem tokenize_accounts_for_mov :
    let text := "mov eax,0x1F # µ; x\r\n;nop"
    let mov : List Token := [⟨.word, "mov", ⟨1, 1, 0, 3⟩⟩, ⟨.word, "eax", ⟨1, 5, 4, 3⟩⟩,
      ⟨.comma, ",", ⟨1, 8, 7, 1⟩⟩, ⟨.number 31, "0x1F", ⟨1, 9, 8, 4⟩⟩]
    let nop : List Token := [⟨.word, "nop", ⟨2, 2, 23, 3⟩⟩]
    let ts := mov ++ ⟨.separator, "\n", ⟨1, 22, 21, 1⟩⟩ :: ⟨.separator, ";", ⟨2, 1, 22, 1⟩⟩ :: nop
    tokenize text = .ok ts ∧ Accounts text ts ∧ statements text = .ok [mov, nop] ∧
      Text.Runs Token.isSeparator ts [mov, nop] := by
  intro text mov nop ts
  have h : tokenize text = .ok ts := by decide +kernel
  have hs : statements text = .ok [mov, nop] := by decide +kernel
  obtain ⟨haccounts, hruns⟩ := tokenize_accounts_for_text text ts h
  exact ⟨h, haccounts, hs, (hruns _).1 hs⟩

end RowAsm
