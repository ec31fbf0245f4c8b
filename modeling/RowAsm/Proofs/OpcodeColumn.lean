import RowAsm.Proofs.Compile

/-!
# The characters of an opcode column

An opcode column is brought to one spelling by replacing texts in it, and then cut into tokens. No
replacement removes a character that is foreign to the tokens (`Text.mem_replace`), so a column that
is a program has only blanks and the characters of tokens in it (`Row.isColumnChar_of_program`).

The markers of other encodings have characters that no token has. So a column with such a marker
would be refused without a check for it (`Row.checkEncoding_of_program`).
-/

namespace RowAsm

namespace Text

/-- Replacing a text keeps the characters that are not in it. -/
theorem mem_replaceFrom {pat new : List Char} (hpat : pat ≠ []) {c : Char} (hc : c ∉ pat)
    {skip : Nat} {cs : List Char} (h : c ∈ cs.drop skip) : c ∈ replaceFrom pat new skip cs := by
  induction cs generalizing skip with
  | nil => simp at h
  | cons a cs ih =>
    cases skip with
    | succ skip =>
      rw [replaceFrom]
      exact ih (by simpa using h)
    | zero =>
      rw [replaceFrom]
      split_ifs with hp
      · -- the occurrence takes its own characters only
        obtain ⟨rest, hrest⟩ := List.isPrefixOf_iff_prefix.1 hp
        have hmem : c ∈ rest := by
          have : c ∈ pat ++ rest := by rwa [hrest]
          exact (List.mem_append.1 this).resolve_left hc
        have hdrop : cs.drop (pat.length - 1) = rest := by
          obtain ⟨b, pat, rfl⟩ := List.exists_cons_of_ne_nil hpat
          obtain ⟨-, rfl⟩ := List.cons.inj hrest
          simp
        exact List.mem_append_right _ (ih (hdrop ▸ hmem))
      · rcases List.mem_cons.1 h with rfl | h
        · exact List.mem_cons_self
        · exact List.mem_cons_of_mem a (ih (by simpa using h))

theorem mem_replace {pat new : String} (hpat : pat.toList ≠ []) {c : Char} (hc : c ∉ pat.toList)
    {cs : List Char} (h : c ∈ cs) : c ∈ replace pat new cs :=
  mem_replaceFrom hpat hc (by simpa using h)

/-- What is no separator is in a field. -/
theorem exists_mem_fields {α : Type} {sep : α → Bool} {l : List α} {a : α} (ha : a ∈ l)
    (hsep : sep a = false) : ∃ f ∈ fields sep l, a ∈ f := by
  obtain ⟨l, r, rfl⟩ := List.append_of_mem ha
  induction l with
  | nil =>
    simp only [List.nil_append, fields, hsep, Bool.false_eq_true, if_false]
    split
    · exact ⟨[a], by simp⟩
    · exact ⟨_, List.mem_cons_self, List.mem_cons_self⟩
  | cons b l ih =>
    obtain ⟨f, hf, haf⟩ := ih (by simp)
    simp only [List.cons_append, fields]
    split_ifs
    · exact ⟨f, List.mem_cons_of_mem _ hf, haf⟩
    · split
      · rename_i h
        rw [h] at hf
        cases hf
      · rename_i g gs h
        rw [h] at hf
        rcases List.mem_cons.1 hf with rfl | hf
        · exact ⟨b :: f, List.mem_cons_self, List.mem_cons_of_mem b haf⟩
        · exact ⟨f, List.mem_cons_of_mem _ hf, haf⟩

theorem exists_mem_words {α : Type} {sep : α → Bool} {l : List α} {a : α} (ha : a ∈ l)
    (hsep : sep a = false) : ∃ w ∈ words sep l, a ∈ w := by
  obtain ⟨f, hf, haf⟩ := exists_mem_fields ha hsep
  exact ⟨f, mem_words_iff.2 ⟨hf, List.ne_nil_of_mem haf⟩, haf⟩

/-- What occurs in a text has its characters from there. -/
theorem mem_of_contains {pat cs : List Char} (h : contains pat cs = true) {c : Char}
    (hc : c ∈ pat) : c ∈ cs := by
  induction cs with
  | nil =>
    rw [contains, List.isEmpty_iff] at h
    rw [h] at hc
    exact hc
  | cons a cs ih =>
    rw [contains, Bool.or_eq_true] at h
    rcases h with h | h
    · exact (List.isPrefixOf_iff_prefix.1 h).subset hc
    · exact List.mem_cons_of_mem a (ih h)

end Text

/-! ### Tokens -/

namespace Part

/-- The characters that tokens of an opcode column are made of: hexadecimal digits, and those of the
other tokens. -/
def isColumnChar (c : Char) : Bool :=
  (Text.hexValue c).isSome || ['R', 'X', '.', 'W', '/', '+', 'r', 'i', 'o', 'w'].contains c

theorem isColumnChar_of_hexValue {c : Char} {n : Nat} (h : Text.hexValue c = some n) :
    isColumnChar c = true := by
  rw [isColumnChar, h]
  rfl

theorem isColumnChar_of_byte? {cs : List Char} {b : UInt8} (h : byte? cs = some b) :
    ∀ c ∈ cs, isColumnChar c = true := by
  unfold byte? at h
  split at h
  · rename_i c d
    split_ifs at h with hplus
    · obtain ⟨n, hn, -⟩ := Option.map_eq_some_iff.1 h
      subst hplus
      simpa using ⟨by decide, isColumnChar_of_hexValue hn⟩
    · split at h
      · rename_i m n hm hn
        simpa using ⟨isColumnChar_of_hexValue hm, isColumnChar_of_hexValue hn⟩
      · cases h
  · cases h

theorem isColumnChar_of_ofPattern {tok : List Char} {p : Part} (h : ofPattern tok = .ok p) :
    ∀ c ∈ tok, isColumnChar c = true := by
  unfold ofPattern at h
  split at h
  · -- a digit
    rename_i d
    split_ifs at h with hd
    have hdigit : ('0' ≤ d && d ≤ '9') = true := by
      rw [Bool.and_eq_true, decide_eq_true_eq, decide_eq_true_eq] at hd ⊢
      exact ⟨hd.1, hd.2.trans (by decide)⟩
    have hvalue : Text.hexValue d = some (d.toNat - '0'.toNat) := if_pos hdigit
    simpa using ⟨by decide, isColumnChar_of_hexValue hvalue⟩
  · cases h
  · split_ifs at h
    split at h
    · -- a byte that takes a register
      rename_i stem size hcut
      split at h
      · rename_i b hb
        split_ifs at h with hsize
        have hsizes : fillSizes.all (fun s => s.all isColumnChar) = true := by decide
        have hmark : "+r".toList.all isColumnChar = true := by decide
        rw [← Text.append_of_cut hcut]
        intro c hc
        rw [List.mem_append, List.mem_append] at hc
        rcases hc with (hc | hc) | hc
        · exact isColumnChar_of_byte? hb c hc
        · exact List.all_eq_true.1 hmark c hc
        · have := List.all_eq_true.1 hsizes size (List.contains_iff_mem.1 hsize)
          exact List.all_eq_true.1 this c hc
      · cases h
    · split at h
      · rename_i b hb
        exact isColumnChar_of_byte? hb
      · cases h

theorem isColumnChar_of_ofToken {tok : List Char} {p : Option Part} (h : ofToken tok = .ok p) :
    ∀ c ∈ tok, isColumnChar c = true := by
  unfold ofToken at h
  split at h
  case h_11 =>
    cases hp : ofPattern tok with
    | error e => rw [hp] at h; cases h
    | ok q => exact isColumnChar_of_ofPattern hp
  -- the words are closed texts
  all_goals exact List.all_eq_true.1 (by decide)

theorem exists_ofToken_of_program {toks : List (List Char)} {ps : List Part}
    (h : program toks = .ok ps) : ∀ tok ∈ toks, ∃ p, ofToken tok = .ok p := by
  induction toks generalizing ps with
  | nil => simp
  | cons tok toks ih =>
    unfold program at h
    split at h
    · cases h
    · rename_i p hp
      split at h
      · cases h
      · rename_i qs hqs
        intro tok' htok'
        rcases List.mem_cons.1 htok' with rfl | htok'
        · exact ⟨p, hp⟩
        · exact ih hqs tok' htok'

end Part

/-! ### Columns -/

namespace Row

/-- What is neither a blank nor in a text that is replaced gets into a token. -/
theorem exists_mem_tokens {text : List Char} {c : Char} (hc : c ∈ text)
    (hblank : Text.isBlank c = false) (hchar : Part.isColumnChar c = false) :
    ∃ tok ∈ tokens text, c ∈ tok := by
  -- the replaced texts have blanks and characters of tokens only
  have hpat : ∀ pat : String, pat.toList.all (fun d => Text.isBlank d || Part.isColumnChar d) →
      c ∉ pat.toList := by
    intro pat hpat hmem
    have := List.all_eq_true.1 hpat c hmem
    simp [hblank, hchar] at this
  refine Text.exists_mem_words ?_ hblank
  refine Text.mem_replace (by decide) (hpat _ (by decide)) ?_
  refine Text.mem_replace (by decide) (hpat _ (by decide)) ?_
  refine Text.mem_replace (by decide) (hpat _ (by decide)) ?_
  refine Text.mem_replace (by decide) (hpat _ (by decide)) ?_
  exact Text.mem_replace (by decide) (hpat _ (by decide)) hc

/-- **A column that is a program** has only blanks and the characters of tokens in it. -/
theorem isColumnChar_of_program {text : List Char} {prog : List Part}
    (h : program text = .ok prog) {c : Char} (hc : c ∈ text) (hblank : Text.isBlank c = false) :
    Part.isColumnChar c = true := by
  by_contra hchar
  obtain ⟨tok, htok, hmem⟩ := exists_mem_tokens hc hblank (Bool.not_eq_true _ ▸ hchar)
  obtain ⟨p, hp⟩ := Part.exists_ofToken_of_program h tok htok
  exact hchar (Part.isColumnChar_of_ofToken hp c hmem)

/-- A column that is a program has no marker of another encoding. -/
theorem checkEncoding_of_program {text : List Char} {prog : List Part}
    (h : program text = .ok prog) : checkEncoding text = .ok () := by
  have hforeign : ∀ c ∈ ['V', 'P', 'N'], c ∉ text := by
    intro c hc hmem
    have hnot : ['V', 'P', 'N'].all (fun d => !Text.isBlank d && !Part.isColumnChar d) = true := by
      decide
    have hc := List.all_eq_true.1 hnot c hc
    rw [Bool.and_eq_true, Bool.not_eq_true', Bool.not_eq_true'] at hc
    have := isColumnChar_of_program h hmem hc.1
    rw [hc.2] at this
    cases this
  have hnone : marker? text = none := by
    unfold marker?
    split_ifs with hvex hxop
    · exact absurd (Text.mem_of_contains hvex (by decide)) (hforeign 'V' (by decide))
    · exact absurd (Text.mem_of_contains hxop (by decide)) (hforeign 'P' (by decide))
    · rw [Option.map_eq_none_iff, List.find?_eq_none]
      intro f hf hmark
      have hN : 'N' ∈ f := by
        rw [Bool.or_eq_true, beq_iff_eq, beq_iff_eq] at hmark
        rcases hmark with rfl | rfl <;> simp
      exact hforeign 'N' (by decide) (Text.mem_of_mem_fields hf hN)
  rw [checkEncoding, hnone]

/-- What a row gives once its columns are read. -/
theorem compile_eq_template {row : Row} {m : String} {rest : List (List Char)} {ops : List Operand}
    {prog : List Part}
    (hhead : headed (opcodeMnemonic? (spaced row.opcode)) (fields row.signature) = .ok (m, rest))
    (hops : operands rest = .ok ops) (hprog : program (spaced row.opcode) = .ok prog) :
    row.compile = template m ops prog := by
  simp only [compile, checkEncoding_of_program hprog, hhead, hops, hprog, bind, Except.bind]

end Row
end RowAsm
