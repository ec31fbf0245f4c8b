import Mathlib
import RowAsm.Source.Token

/-!
# Positions of tokens

The counters of a position count the bytes and newlines before it: the offset is the number of bytes
(`offset_after`), the line counts the newlines (`line_after`) and the column the bytes after the
last of them (`col_after`). So line and column exceed one by at most the number of bytes
(`line_after_le`, `col_after_le`).

Tokens come from the lexemes of a text one by one (`Token.exists_lexeme_of_ofLexemes`), up to the
first that leaves a diagnostic (`Token.exists_lexeme_of_ofLexemes_error`). So every token stands in
its text where its span says (`exists_split_of_tokenize`), and so does what a malformed text is
blamed on (`exists_split_of_tokenize_error`). A span always cuts its text between characters
(`Span.Cuts`), and its line and column are those of the cut (`Span.Marks`).
-/

namespace RowAsm

open String (utf8Len)

/-! ### Counters -/

namespace Position

theorem offset_next (p : Position) (c : Char) : (p.next c).offset = p.offset + c.utf8Size := by
  unfold next
  split_ifs with h
  · subst h
    rfl
  · rfl

theorem offset_after (p : Position) (cs : List Char) :
    (p.after cs).offset = p.offset + utf8Len cs := by
  induction cs generalizing p with
  | nil => rfl
  | cons c cs ih =>
    rw [after_cons, ih, offset_next, String.utf8Len_cons]
    omega

/-- The line counts the newlines. -/
theorem line_after (p : Position) (cs : List Char) :
    (p.after cs).line = p.line + cs.count '\n' := by
  induction cs generalizing p with
  | nil => rfl
  | cons c cs ih =>
    rw [after_cons, ih, List.count_cons]
    by_cases hc : c = '\n'
    · rw [next, if_pos hc, if_pos (by simp [hc])]
      show p.line + 1 + _ = _
      omega
    · rw [next, if_neg hc, if_neg (by simp [hc])]
      rfl

/-- The column counts the bytes after the last newline. -/
theorem col_after (cs : List Char) :
    (start.after cs).col = 1 + utf8Len (cs.rtakeWhile (· != '\n')) := by
  induction cs using List.reverseRecOn with
  | nil => rfl
  | append_singleton cs c ih =>
    rw [after_append, after_cons, after_nil]
    by_cases hc : c = '\n'
    · rw [List.rtakeWhile_concat, if_neg (by simp [hc]), next, if_pos hc]
      rfl
    · rw [List.rtakeWhile_concat, if_pos (by simpa using hc), next, if_neg hc, ih,
        String.utf8Len_append, String.utf8Len_cons, String.utf8Len_nil]
      show 1 + _ + c.utf8Size = _
      omega

theorem line_after_le (p : Position) (cs : List Char) :
    (p.after cs).line ≤ p.line + utf8Len cs := by
  induction cs generalizing p with
  | nil => exact le_rfl
  | cons c cs ih =>
    have hc := c.utf8Size_pos
    have hn : (p.next c).line ≤ p.line + 1 := by
      unfold next
      split_ifs <;> simp
    have := ih (p.next c)
    rw [after_cons, String.utf8Len_cons]
    omega

theorem col_after_le {p : Position} (h : 1 ≤ p.col) (cs : List Char) :
    1 ≤ (p.after cs).col ∧ (p.after cs).col ≤ p.col + utf8Len cs := by
  induction cs generalizing p with
  | nil => exact ⟨h, le_rfl⟩
  | cons c cs ih =>
    have hc := c.utf8Size_pos
    have hn : 1 ≤ (p.next c).col ∧ (p.next c).col ≤ p.col + c.utf8Size := by
      unfold next
      split_ifs <;> simp <;> omega
    have := ih hn.1
    rw [after_cons, String.utf8Len_cons]
    omega

/-- In a text of fewer than 2 ^ 32 - 1 bytes the counters have 32 bits. -/
theorem counters_lt {text : String} (h : text.utf8ByteSize < 2 ^ 32 - 1) {before after : List Char}
    (hs : text.toList = before ++ after) :
    (start.after before).line < 2 ^ 32 ∧ (start.after before).col < 2 ^ 32 := by
  have hlen : utf8Len before ≤ text.utf8ByteSize := by
    rw [← String.ofList_toList (s := text), String.utf8ByteSize_ofList, hs, String.utf8Len_append]
    exact Nat.le_add_right _ _
  have hline := line_after_le start before
  have hcol := (col_after_le (p := start) le_rfl before).2
  have hs : start.line = 1 ∧ start.col = 1 := ⟨rfl, rfl⟩
  omega

end Position

/-! ### Spans -/

/-- A span cuts `word` out of `text`: both its ends are between characters. -/
def Span.Cuts (span : Span) (text word : String) : Prop :=
  ∃ before after : String, text = before ++ word ++ after ∧
    span.offset = before.utf8ByteSize ∧ span.len = word.utf8ByteSize

/-- A span marks `word` in `text`: it cuts the word out, its line counts the newlines before the
word, and its column the bytes before it on its line, both from one. -/
def Span.Marks (span : Span) (text word : String) : Prop :=
  ∃ before after : String, text = before ++ word ++ after ∧
    span.offset = before.utf8ByteSize ∧ span.len = word.utf8ByteSize ∧
    span.line = 1 + before.toList.count '\n' ∧
    span.col = 1 + utf8Len (before.toList.rtakeWhile (· != '\n'))

theorem Position.marks_span {text word : String} {before after : List Char}
    (h : text.toList = before ++ word.toList ++ after) :
    ((start.after before).span word).Marks text word := by
  refine ⟨String.ofList before, String.ofList after, ?_, ?_, rfl, ?_, ?_⟩
  · apply String.toList_inj.1
    simpa using h
  · show (start.after before).offset = _
    rw [offset_after, String.utf8ByteSize_ofList]
    exact Nat.zero_add _
  · rw [String.toList_ofList]
    exact line_after start before
  · rw [String.toList_ofList]
    exact col_after before

theorem Position.cuts_span {text word : String} {before after : List Char}
    (h : text.toList = before ++ word.toList ++ after) :
    ((start.after before).span word).Cuts text word := by
  obtain ⟨left, right, htext, hoffset, hlen, -⟩ := marks_span h
  exact ⟨left, right, htext, hoffset, hlen⟩

namespace Token

/-- A token of a lexeme is the lexeme, where it stands. -/
theorem of_ofLexeme {p : Position} {x : Lexeme} {t : Token} (h : ofLexeme p x = .ok (some t)) :
    t.text = String.ofList x.chars ∧ t.span = p.span t.text := by
  unfold ofLexeme at h
  split at h
  · cases h
  · simp only at h
    split at h <;> cases h
    exact ⟨rfl, rfl⟩
  · simp only at h
    split_ifs at h
    · cases h
    · split at h <;> cases h
      exact ⟨rfl, rfl⟩

theorem of_ofLexeme_error {p : Position} {x : Lexeme} {d : Diagnostic}
    (h : ofLexeme p x = .error d) :
    ∃ message, d = .malformed message (p.span (String.ofList x.chars)) := by
  unfold ofLexeme at h
  split at h
  · cases h
  · simp only at h
    split at h <;> cases h
    exact ⟨_, rfl⟩
  · simp only at h
    split_ifs at h
    · split at h <;> cases h
      exact ⟨_, rfl⟩

variable {p : Position} {xs : List Lexeme} {ts : List Token} {t : Token}

theorem exists_of_ofLexemes_cons {x : Lexeme} (h : ofLexemes p (x :: xs) = .ok ts) :
    ∃ o us, ofLexeme p x = .ok o ∧ ofLexemes (p.after x.chars) xs = .ok us ∧
      ts = o.toList ++ us := by
  unfold ofLexemes at h
  split at h
  · cases h
  · rename_i o ho
    split at h
    · cases h
    · rename_i us hus
      cases h
      exact ⟨o, us, ho, hus, rfl⟩

/-- Every token is that of a lexeme, at the place of the lexeme. -/
theorem exists_lexeme_of_ofLexemes (h : ofLexemes p xs = .ok ts) (ht : t ∈ ts) :
    ∃ ys x zs, xs = ys ++ x :: zs ∧
      ofLexeme (p.after (ys.flatMap Lexeme.chars)) x = .ok (some t) := by
  induction xs generalizing p ts with
  | nil =>
    cases h
    cases ht
  | cons x xs ih =>
    obtain ⟨o, us, ho, hus, rfl⟩ := exists_of_ofLexemes_cons h
    rcases List.mem_append.1 ht with ht | ht
    · rw [Option.mem_toList] at ht
      exact ⟨[], x, xs, rfl, ht ▸ ho⟩
    · obtain ⟨ys, y, zs, rfl, hy⟩ := ih hus ht
      exact ⟨x :: ys, y, zs, rfl, by rwa [List.flatMap_cons, Position.after_append]⟩

/-- Reading lexemes fails at the first that leaves a diagnostic. -/
theorem exists_lexeme_of_ofLexemes_error {d : Diagnostic} (h : ofLexemes p xs = .error d) :
    ∃ ys x zs us, xs = ys ++ x :: zs ∧ ofLexemes p ys = .ok us ∧
      ofLexeme (p.after (ys.flatMap Lexeme.chars)) x = .error d := by
  induction xs generalizing p with
  | nil => cases h
  | cons x xs ih =>
    rw [ofLexemes] at h
    split at h
    · rename_i e he
      cases h
      exact ⟨[], x, xs, [], rfl, rfl, he⟩
    · rename_i t ht
      split at h
      · rename_i e he
        cases h
        obtain ⟨ys, y, zs, us, rfl, hys, hy⟩ := ih he
        refine ⟨x :: ys, y, zs, t.toList ++ us, rfl, by rw [ofLexemes, ht, hys], ?_⟩
        rwa [List.flatMap_cons, Position.after_append]
      · cases h

end Token

/-- A text around one of its lexemes. -/
theorem toList_eq_of_lexemes {text : String} {ys zs : List Lexeme} {x : Lexeme}
    (h : lexemes text.toList = ys ++ x :: zs) :
    text.toList = ys.flatMap Lexeme.chars ++ x.chars ++ zs.flatMap Lexeme.chars := by
  rw [← flatMap_chars_lexemes text.toList, h, List.flatMap_append, List.flatMap_cons,
    List.append_assoc]

/-- **Every token stands where its span says.** -/
theorem exists_split_of_tokenize {text : String} {ts : List Token} (h : tokenize text = .ok ts)
    {t : Token} (ht : t ∈ ts) :
    ∃ left right, text.toList = left ++ t.text.toList ++ right ∧
      t.span = (Position.start.after left).span t.text := by
  obtain ⟨ys, x, zs, hxs, hx⟩ := Token.exists_lexeme_of_ofLexemes h ht
  obtain ⟨htext, hspan⟩ := Token.of_ofLexeme hx
  refine ⟨_, zs.flatMap Lexeme.chars, ?_, hspan⟩
  rw [toList_eq_of_lexemes hxs, htext, String.toList_ofList]

theorem exists_split_of_tokenize_error {text : String} {d : Diagnostic}
    (h : tokenize text = .error d) :
    ∃ left word right message, text.toList = left ++ word ++ right ∧
      d = .malformed message ((Position.start.after left).span (String.ofList word)) := by
  obtain ⟨ys, x, zs, us, hxs, -, hx⟩ := Token.exists_lexeme_of_ofLexemes_error h
  obtain ⟨message, rfl⟩ := Token.of_ofLexeme_error hx
  exact ⟨_, _, _, message, toList_eq_of_lexemes hxs, rfl⟩

end RowAsm
