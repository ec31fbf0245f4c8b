import RowAsm.Proofs.Concatenation

/-!
# Where lexemes stand

`Lexeme.Stands before x after` says that between the characters `before` and `after` the lexeme `x`
is as it should be: a comment starts at the first `#` of its line and runs to the end of the line, a
word is a maximal run of the characters of words, and every other character stands alone.
`Lexeme.Laid before xs` says this of every lexeme of a list.

The lexemes of a text are laid so (`laid_lexemes`), and they are the only ones that are
(`lexemes_of_laid`). Tokens keep the order of their lexemes (`Token.pairwise_of_ofLexemes`).
-/

namespace RowAsm

open String (utf8Len)

/-! ### Lexemes between characters -/

/-- The characters after the last newline. -/
def lastLine (cs : List Char) : List Char := cs.rtakeWhile (· != '\n')

theorem lastLine_append {cs ds : List Char} (h : '\n' ∉ ds) :
    lastLine (cs ++ ds) = lastLine cs ++ ds := by
  induction ds using List.reverseRecOn with
  | nil => simp
  | append_singleton ds d ih =>
    rw [List.mem_append, List.mem_singleton, not_or] at h
    have hd : (d != '\n') = true := by simpa using Ne.symm h.2
    rw [← List.append_assoc, lastLine, List.rtakeWhile_concat, if_pos hd, ← lastLine, ih h.1,
      List.append_assoc]

theorem lastLine_newline (cs ds : List Char) :
    lastLine (cs ++ '\n' :: ds) = lastLine ds := by
  induction ds using List.reverseRecOn with
  | nil =>
    rw [lastLine, List.rtakeWhile_concat, if_neg (by simp)]
    rfl
  | append_singleton ds d ih =>
    rw [← List.cons_append, ← List.append_assoc, lastLine, lastLine, List.rtakeWhile_concat,
      List.rtakeWhile_concat, ← lastLine, ← lastLine, ih]

namespace Lexeme

/-- The lexeme is as it should be between the characters before it and those after it. -/
inductive Stands (before : List Char) : Lexeme → List Char → Prop
  | comment {cs after : List Char} (hline : '#' ∉ lastLine before) (hcs : '\n' ∉ cs)
      (hafter : ∀ c ∈ after.head?, c = '\n') : Stands before (.comment ('#' :: cs)) after
  | word {cs after : List Char} (hline : '#' ∉ lastLine before) (hne : cs ≠ [])
      (hcs : ∀ c ∈ cs, isWordChar c = true) (hbefore : ∀ c ∈ before.getLast?, isWordChar c = false)
      (hafter : ∀ c ∈ after.head?, isWordChar c = false) : Stands before (.word cs) after
  | newline {after : List Char} : Stands before (.single '\n') after
  | single {c : Char} {after : List Char} (hline : '#' ∉ lastLine before) (hmark : c ≠ '#')
      (hnewline : c ≠ '\n') (hword : isWordChar c = false) : Stands before (.single c) after

/-- The lexemes are as they should be after the characters `before`. -/
inductive Laid : List Char → List Lexeme → Prop
  | nil {before : List Char} : Laid before []
  | cons {before : List Char} {x : Lexeme} {xs : List Lexeme}
      (hx : x.Stands before (xs.flatMap chars)) (hxs : Laid (before ++ x.chars) xs) :
      Laid before (x :: xs)

theorem Laid.stands {before : List Char} {ys zs : List Lexeme} {x : Lexeme}
    (h : Laid before (ys ++ x :: zs)) :
    x.Stands (before ++ ys.flatMap chars) (zs.flatMap chars) := by
  induction ys generalizing before with
  | nil =>
    cases h with
    | cons hx _ => simpa using hx
  | cons y ys ih =>
    cases h with
    | cons _ hys => simpa using ih hys

/-- Neither a comment nor a word of the characters `before` goes on in `cs`. -/
structure Ready (before cs : List Char) : Prop where
  line : (∀ c ∈ cs.head?, c = '\n') ∨ '#' ∉ lastLine before
  word : (∀ c ∈ before.getLast?, isWordChar c = false) ∨ ∀ c ∈ cs.head?, isWordChar c = false

end Lexeme

open Lexeme

theorem not_of_mem_head?_dropWhile {α : Type} {p : α → Bool} {l : List α} {a : α}
    (h : a ∈ (l.dropWhile p).head?) : p a = false := by
  have := List.head?_dropWhile_not p l
  rw [Option.mem_def.1 h] at this
  simpa using this

/-- **The lexemes of a text are as they should be.** -/
theorem laid_lexemes {before cs : List Char} (h : Ready before cs) : Laid before (lexemes cs) := by
  fun_induction lexemes cs generalizing before with
  | case1 => exact .nil
  | case2 cs ih =>
    have hline : '#' ∉ lastLine before := h.line.resolve_left fun hn => by simpa using hn '#'
    have hcs : '\n' ∉ cs.takeWhile (· != '\n') := fun hm => by
      simpa using List.mem_takeWhile_imp hm
    have hafter : ∀ c ∈ (cs.dropWhile (· != '\n')).head?, c = '\n' := fun c hc => by
      simpa using not_of_mem_head?_dropWhile hc
    refine .cons ?_ (ih ⟨Or.inl hafter, ?_⟩)
    · rw [flatMap_chars_lexemes]
      exact .comment hline hcs hafter
    · refine Or.inr fun c hc => ?_
      rw [hafter c hc]
      rfl
  | case3 c cs hc hw ih =>
    have hall : ∀ d ∈ c :: cs.takeWhile isWordChar, isWordChar d = true := by
      intro d hd
      rcases List.mem_cons.1 hd with rfl | hd
      · exact hw
      · exact List.mem_takeWhile_imp hd
    have hmark : '#' ∉ c :: cs.takeWhile isWordChar := fun hm => absurd (hall _ hm) (by decide)
    have hnewline : '\n' ∉ c :: cs.takeWhile isWordChar := fun hm => absurd (hall _ hm) (by decide)
    have hline : '#' ∉ lastLine before := h.line.resolve_left fun hn => by
      rw [hn c rfl] at hw
      cases hw
    have hbefore := h.word.resolve_right fun hn => by
      rw [hn c rfl] at hw
      cases hw
    have hafter : ∀ d ∈ (cs.dropWhile isWordChar).head?, isWordChar d = false := fun d hd =>
      not_of_mem_head?_dropWhile hd
    refine .cons ?_ (ih ⟨Or.inr ?_, Or.inr hafter⟩)
    · rw [flatMap_chars_lexemes]
      exact .word hline (by simp) hall hbefore hafter
    · rw [chars, lastLine_append hnewline, List.mem_append, not_or]
      exact ⟨hline, hmark⟩
  | case4 c cs hc hw ih =>
    rw [Bool.not_eq_true] at hw
    have hword : ∀ d ∈ (before ++ [c]).getLast?, isWordChar d = false := by simpa using hw
    by_cases hn : c = '\n'
    · subst hn
      refine .cons .newline (ih ⟨Or.inr ?_, Or.inl hword⟩)
      rw [chars, lastLine_newline]
      simp [lastLine]
    · have hline : '#' ∉ lastLine before := h.line.resolve_left fun h => hn (h c rfl)
      refine .cons (.single hline hc hn hw) (ih ⟨Or.inr ?_, Or.inl hword⟩)
      rw [chars, lastLine_append (by simpa using Ne.symm hn), List.mem_append, not_or]
      exact ⟨hline, by simpa using Ne.symm hc⟩

/-- The lexemes of a whole text are as they should be. -/
theorem laid_lexemes_nil (cs : List Char) : Lexeme.Laid [] (lexemes cs) :=
  laid_lexemes ⟨by simp [lastLine], by simp⟩

/-- A lexeme of a text is as it should be between the lexemes before it and after it. -/
theorem stands_of_lexemes {cs : List Char} {ys zs : List Lexeme} {x : Lexeme}
    (h : lexemes cs = ys ++ x :: zs) : x.Stands (ys.flatMap chars) (zs.flatMap chars) := by
  have hlaid := laid_lexemes_nil cs
  rw [h] at hlaid
  exact hlaid.stands

theorem while_append {α : Type} {p : α → Bool} {l r : List α} (hl : ∀ a ∈ l, p a = true)
    (hr : ∀ a ∈ r.head?, p a = false) :
    (l ++ r).takeWhile p = l ∧ (l ++ r).dropWhile p = r := by
  rw [List.takeWhile_append_of_pos hl, List.dropWhile_append_of_pos hl]
  cases r with
  | nil => simp
  | cons a r => simp [hr a rfl]

/-- **No other lexemes are as they should be.** -/
theorem lexemes_of_laid {before : List Char} {xs : List Lexeme} (h : Laid before xs) :
    lexemes (xs.flatMap chars) = xs := by
  induction h with
  | nil => rw [List.flatMap_nil, lexemes]
  | @cons before x xs hx _ ih =>
    rw [List.flatMap_cons]
    cases hx with
    | @comment cs _ _ hcs hafter =>
      have hline : ∀ c ∈ cs, (c != '\n') = true := by
        intro c hc
        rw [bne_iff_ne]
        rintro rfl
        exact hcs hc
      have hend : ∀ c ∈ (xs.flatMap chars).head?, (c != '\n') = false := by simpa using hafter
      obtain ⟨htake, hdrop⟩ := while_append hline hend
      rw [chars, List.cons_append, lexemes, if_pos rfl, htake, hdrop, ih]
    | @word cs _ _ hne hcs _ hafter =>
      obtain ⟨c, cs, rfl⟩ := List.exists_cons_of_ne_nil hne
      have hc : isWordChar c = true := hcs c (by simp)
      have hmark : c ≠ '#' := by
        rintro rfl
        cases hc
      obtain ⟨htake, hdrop⟩ := while_append (fun d hd => hcs d (List.mem_cons_of_mem c hd)) hafter
      rw [chars, List.cons_append, lexemes, if_neg hmark, if_pos hc, htake, hdrop, ih]
    | newline =>
      rw [chars, List.singleton_append, lexemes, if_neg (by decide), if_neg (by decide), ih]
    | single _ hmark _ hword =>
      rw [chars, List.singleton_append, lexemes, if_neg hmark, if_neg (by simp [hword]), ih]

/-- Every character of a text is in one of its lexemes. -/
theorem Lexeme.exists_of_flatMap {xs : List Lexeme} {before after : List Char} {c : Char}
    (h : xs.flatMap chars = before ++ c :: after) :
    ∃ ys x zs u v, xs = ys ++ x :: zs ∧ before = ys.flatMap chars ++ u ∧ x.chars = u ++ c :: v ∧
      after = v ++ zs.flatMap chars := by
  induction xs generalizing before with
  | nil => simp at h
  | cons x xs ih =>
    rw [List.flatMap_cons, List.append_eq_append_iff] at h
    rcases h with ⟨u, rfl, hu⟩ | ⟨u, hx, hu⟩
    · obtain ⟨ys, y, zs, w, v, rfl, rfl, hy, rfl⟩ := ih hu
      exact ⟨x :: ys, y, zs, w, v, rfl, by simp, hy, rfl⟩
    · cases u with
      | nil =>
        have hnil : xs.flatMap chars = [] ++ c :: after := hu.symm
        obtain ⟨ys, y, zs, w, v, rfl, hw, hy, rfl⟩ := ih hnil
        refine ⟨x :: ys, y, zs, w, v, rfl, ?_, hy, rfl⟩
        rw [List.append_nil] at hx
        rw [List.flatMap_cons, hx, List.append_assoc, ← hw, List.append_nil]
      | cons d u =>
        obtain ⟨rfl, rfl⟩ := List.cons.inj hu
        exact ⟨[], x, xs, before, u, rfl, by simp, hx, rfl⟩

/-! ### Tokens of lexemes -/

namespace Token

variable {p : Position} {xs : List Lexeme} {ts : List Token} {t : Token}

theorem exists_of_ofLexemes_append {ys zs : List Lexeme} (h : ofLexemes p (ys ++ zs) = .ok ts) :
    ∃ us vs, ofLexemes p ys = .ok us ∧
      ofLexemes (p.after (ys.flatMap chars)) zs = .ok vs ∧ ts = us ++ vs := by
  rw [ofLexemes_append] at h
  split at h
  · cases h
  · rename_i us hus
    split at h
    · cases h
    · rename_i vs hvs
      cases h
      exact ⟨us, vs, hus, hvs, rfl⟩

/-- The tokens of the lexemes before `x`, of `x`, and of the lexemes after it. -/
theorem exists_of_ofLexemes_middle {ys zs : List Lexeme} {x : Lexeme}
    (h : ofLexemes p (ys ++ x :: zs) = .ok ts) :
    ∃ us o vs, ofLexemes p ys = .ok us ∧ ofLexeme (p.after (ys.flatMap chars)) x = .ok o ∧
      ofLexemes ((p.after (ys.flatMap chars)).after x.chars) zs = .ok vs ∧
      ts = us ++ (o.toList ++ vs) := by
  obtain ⟨us, _, hus, hrest, rfl⟩ := exists_of_ofLexemes_append h
  obtain ⟨o, vs, ho, hvs, rfl⟩ := exists_of_ofLexemes_cons hrest
  exact ⟨us, o, vs, hus, ho, hvs, rfl⟩

theorem span_of_ofLexeme {x : Lexeme} (h : ofLexeme p x = .ok (some t)) :
    t.span.offset = p.offset ∧ t.span.len = utf8Len x.chars := by
  obtain ⟨htext, hspan⟩ := of_ofLexeme h
  rw [hspan, Position.span, htext, String.utf8ByteSize_ofList]
  exact ⟨rfl, rfl⟩

/-- Tokens lie within their lexemes. -/
theorem span_of_ofLexemes (h : ofLexemes p xs = .ok ts) (ht : t ∈ ts) :
    p.offset ≤ t.span.offset ∧
      t.span.offset + t.span.len ≤ p.offset + utf8Len (xs.flatMap chars) := by
  obtain ⟨ys, x, zs, rfl, hx⟩ := exists_lexeme_of_ofLexemes h ht
  obtain ⟨hoffset, hlen⟩ := span_of_ofLexeme hx
  rw [Position.offset_after] at hoffset
  simp only [List.flatMap_append, List.flatMap_cons, String.utf8Len_append]
  omega

/-- Tokens are in order and do not overlap. -/
theorem pairwise_of_ofLexemes (h : ofLexemes p xs = .ok ts) :
    ts.Pairwise fun t u => t.span.offset + t.span.len ≤ u.span.offset := by
  induction xs generalizing p ts with
  | nil =>
    cases h
    exact .nil
  | cons x xs ih =>
    obtain ⟨o, us, ho, hus, rfl⟩ := exists_of_ofLexemes_cons h
    refine List.pairwise_append.2 ⟨by cases o <;> simp, ih hus, fun t ht u hu => ?_⟩
    rw [Option.mem_toList] at ht
    obtain ⟨hoffset, hlen⟩ := span_of_ofLexeme (ht ▸ ho)
    have hle := (span_of_ofLexemes hus hu).1
    rw [Position.offset_after] at hle
    omega

end Token
end RowAsm
