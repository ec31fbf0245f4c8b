import RowAsm.Proofs.OpcodeColumn

/-!
# The tokens of an opcode column

`Part.IsToken B tok p` is the notation of the opcode column, said without the reader of it: the
token `tok` is a word of the notation, a slash and a digit below eight, a byte, or a byte with the
mark `+r` and a size; and it stands for the part `p`, or for none if it is the remark `/r`. What a
byte looks like is left to `B`. In the notation it is two hexadecimal digits (`Part.TwoDigits`).

Reading accepts one form more: a plus sign in the place of the first digit (`Part.PlusDigit`). With
both forms the notation is exactly what is read (`ofToken_eq_ok_iff`, `program_eq_ok_iff`), so the
tokens of a row that gives a template are in the notation if and only if none of them starts with
a plus sign (`Row.compile_tokens`).
-/

namespace RowAsm

/-- What has a hexadecimal value is no character without one. -/
theorem Text.ne_of_hexValue {c d : Char} {n : Nat} (h : hexValue c = some n)
    (hd : hexValue d = none) : c ≠ d := by
  rintro rfl
  rw [h] at hd
  cases hd

/-- The digits below eight. -/
theorem Text.digit_eight_eq_some_iff {c : Char} {n : Nat} :
    digit 8 c = some n ↔ ('0' ≤ c ∧ c ≤ '7') ∧ c.toNat - '0'.toNat = n := by
  have hle : ∀ a b : Char, a ≤ b ↔ a.toNat ≤ b.toNat := fun _ _ => Iff.rfl
  have h0 : '0'.toNat = 48 := rfl
  have h7 : '7'.toNat = 55 := rfl
  have h9 : '9'.toNat = 57 := rfl
  simp only [digit, hexValue, Option.filter_eq_some_iff, Bool.and_eq_true, decide_eq_true_eq, hle]
  split_ifs with hdigit hlower hupper
  · simp only [Option.some.injEq]
    omega
  · have ha : 'a'.toNat = 97 := rfl
    simp only [Option.some.injEq]
    omega
  · have ha : 'A'.toNat = 65 := rfl
    simp only [Option.some.injEq]
    omega
  · simp only [false_and, false_iff]
    omega

namespace Part

/-! ### The notation -/

/-- The words of the notation, and what they stand for. -/
def words : List (List Char × Option Part) :=
  [("REX".toList, some (.rex false)), ("REX.W".toList, some (.rex true)), ("/r".toList, none),
    ("ib".toList, some (.immediate 8)), ("iw".toList, some (.immediate 16)),
    ("id".toList, some (.immediate 32)), ("io".toList, some (.immediate 64)),
    ("cb".toList, some (.relative 8)), ("cw".toList, some (.relative 16)),
    ("cd".toList, some (.relative 32))]

/-- Two hexadecimal digits and their value. -/
inductive TwoDigits : List Char → UInt8 → Prop
  | intro {c d : Char} {m n : Nat} (hc : Text.hexValue c = some m) (hd : Text.hexValue d = some n) :
      TwoDigits [c, d] (UInt8.ofNat (m * 16 + n))

/-- A plus sign and one hexadecimal digit, with the value of the digit. -/
inductive PlusDigit : List Char → UInt8 → Prop
  | intro {d : Char} {n : Nat} (hd : Text.hexValue d = some n) : PlusDigit ['+', d] (UInt8.ofNat n)

/-- The token stands for a part, or for nothing; `B` says how bytes are written. A word is not read
as a byte. -/
inductive IsToken (B : List Char → UInt8 → Prop) : List Char → Option Part → Prop
  | word {tok : List Char} {p : Option Part} (h : (tok, p) ∈ words) : IsToken B tok p
  | digit {c : Char} {n : Nat} (hc : Text.digit 8 c = some n) :
      IsToken B ['/', c] (some (.digit (UInt8.ofNat n)))
  | byte {cs : List Char} {b : UInt8} (hb : B cs b) (hw : cs ∉ words.map Prod.fst) :
      IsToken B cs (some (.byte b))
  | fill {cs size : List Char} {b : UInt8} (hb : B cs b) (hs : size ∈ fillSizes) :
      IsToken B (cs ++ ['+', 'r'] ++ size) (some (.fill b))

/-- A byte as it is read. -/
def IsByte (cs : List Char) (b : UInt8) : Prop := TwoDigits cs b ∨ PlusDigit cs b

/-! ### Reading a token -/

theorem byte?_eq_some_iff {cs : List Char} {b : UInt8} : byte? cs = some b ↔ IsByte cs b := by
  constructor
  · intro h
    unfold byte? at h
    split at h
    · split_ifs at h with hplus
      · obtain ⟨n, hn, rfl⟩ := Option.map_eq_some_iff.1 h
        subst hplus
        exact Or.inr ⟨hn⟩
      · split at h
        · rename_i m n hm hn
          cases h
          exact Or.inl ⟨hm, hn⟩
        · cases h
    · cases h
  · rintro (⟨hc, hd⟩ | @⟨d, n, hd⟩)
    · have hplus := Text.ne_of_hexValue hc (d := '+') (by decide)
      simp [byte?, hplus, hc, hd]
    · simp [byte?, hd]

theorem ofToken_of_word {tok : List Char} {p : Option Part} (h : (tok, p) ∈ words) :
    ofToken tok = .ok p := by
  have hall : words.all (fun w => ofToken w.1 = .ok w.2) = true := by decide
  simpa using List.all_eq_true.1 hall _ h

theorem ofToken_of_not_word {tok : List Char} (h : tok ∉ words.map Prod.fst) :
    ofToken tok = (ofPattern tok).map some := by
  unfold ofToken
  split
  case h_11 => rfl
  all_goals exact absurd (by decide) h

/-- A byte is two characters, and no mark is among them. -/
theorem IsByte.exists_chars {cs : List Char} {b : UInt8} (h : IsByte cs b) :
    ∃ c d n, cs = [c, d] ∧ c ≠ '/' ∧ Text.hexValue d = some n := by
  rcases h with ⟨hc, hd⟩ | @⟨d, n, hd⟩
  · exact ⟨_, _, _, rfl, Text.ne_of_hexValue hc (by decide), hd⟩
  · exact ⟨_, _, _, rfl, by decide, hd⟩

theorem ofPattern_byte {cs : List Char} {b : UInt8} (h : IsByte cs b) :
    ofPattern cs = .ok (.byte b) := by
  obtain ⟨c, d, n, rfl, hc, hd⟩ := h.exists_chars
  have hi := Text.ne_of_hexValue hd (d := 'i') (by decide)
  have hr := Text.ne_of_hexValue hd (d := 'r') (by decide)
  have hcut : Text.cut ['+', 'r'] [c, d] = none := by
    simp [Text.cut, List.isPrefixOf, Ne.symm hr]
  have hsuffix : ['+', 'i'].isSuffixOf [c, d] = false := by
    simp [List.isSuffixOf, List.isPrefixOf, Ne.symm hi]
  unfold ofPattern
  split
  · simp_all
  · simp_all
  · rw [hsuffix, hcut, byte?_eq_some_iff.2 h]
    rfl

theorem ofPattern_fill {cs size : List Char} {b : UInt8} (h : IsByte cs b)
    (hs : size ∈ fillSizes) : ofPattern (cs ++ ['+', 'r'] ++ size) = .ok (.fill b) := by
  obtain ⟨c, d, n, rfl, hc, hd⟩ := h.exists_chars
  have hr := Text.ne_of_hexValue hd (d := 'r') (by decide)
  have hcut : Text.cut ['+', 'r'] ([c, d] ++ ['+', 'r'] ++ size) = some ([c, d], size) := by
    simp [Text.cut, List.isPrefixOf, Ne.symm hr]
  have hsuffix : ['+', 'i'].isSuffixOf ([c, d] ++ ['+', 'r'] ++ size) = false := by
    simp only [fillSizes, List.mem_cons, List.not_mem_nil, or_false] at hs
    rcases hs with rfl | rfl | rfl | rfl <;> simp [List.isSuffixOf, List.isPrefixOf]
  unfold ofPattern
  split
  · simp_all
  · simp_all
  · rw [hsuffix, hcut]
    simp [byte?_eq_some_iff.2 h, hs]

theorem isToken_of_ofPattern {tok : List Char} {p : Part} (h : ofPattern tok = .ok p)
    (hw : tok ∉ words.map Prod.fst) : IsToken IsByte tok (some p) := by
  unfold ofPattern at h
  split at h
  · rename_i c
    split_ifs at h with hc
    cases h
    rw [Bool.and_eq_true, decide_eq_true_eq, decide_eq_true_eq] at hc
    exact .digit (Text.digit_eight_eq_some_iff.2 ⟨hc, rfl⟩)
  · cases h
  · split_ifs at h
    split at h
    · rename_i stem size hcut
      split at h
      · rename_i b hb
        split_ifs at h with hsize
        cases h
        rw [← Text.append_of_cut hcut]
        exact .fill (byte?_eq_some_iff.1 hb) (List.contains_iff_mem.1 hsize)
      · cases h
    · split at h
      · rename_i b hb
        cases h
        exact .byte (byte?_eq_some_iff.1 hb) hw
      · cases h

/-- **A token is read exactly if it is in the notation**, with a plus sign admitted as the first
digit of a byte. -/
theorem ofToken_eq_ok_iff {tok : List Char} {p : Option Part} :
    ofToken tok = .ok p ↔ IsToken IsByte tok p := by
  constructor
  · intro h
    by_cases hw : tok ∈ words.map Prod.fst
    · obtain ⟨⟨_, q⟩, hq, rfl⟩ := List.mem_map.1 hw
      rw [ofToken_of_word hq] at h
      cases h
      exact .word hq
    · rw [ofToken_of_not_word hw] at h
      cases hp : ofPattern tok with
      | error e => rw [hp] at h; cases h
      | ok q =>
        rw [hp] at h
        cases h
        exact isToken_of_ofPattern hp hw
  · intro h
    cases h with
    | word h => exact ofToken_of_word h
    | @digit c n hc =>
      obtain ⟨hrange, rfl⟩ := Text.digit_eight_eq_some_iff.1 hc
      have hr : c ≠ 'r' := by
        rintro rfl
        exact absurd hrange (by decide)
      rw [ofToken_of_not_word (by simp [words, hr]), ofPattern, if_pos (by simpa using hrange)]
      rfl
    | byte hb hw => rw [ofToken_of_not_word hw, ofPattern_byte hb]; rfl
    | @fill cs size b hb hs =>
      obtain ⟨c, d, n, rfl, -, -⟩ := hb.exists_chars
      have hw : [c, d] ++ ['+', 'r'] ++ size ∉ words.map Prod.fst := by
        simp [words]
      rw [ofToken_of_not_word hw, ofPattern_fill hb hs]
      rfl

/-- The program of a column is what its tokens stand for. -/
theorem program_eq_ok_iff {toks : List (List Char)} {prog : List Part} :
    program toks = .ok prog ↔
      ∃ ps, List.Forall₂ (IsToken IsByte) toks ps ∧ prog = ps.reduceOption := by
  induction toks generalizing prog with
  | nil => simp [program, eq_comm]
  | cons tok toks ih =>
    have hcons : ∀ (p : Option Part) (ps : List (Option Part)),
        (p :: ps).reduceOption = p.toList ++ ps.reduceOption := by
      rintro (_ | p) ps <;> rfl
    constructor
    · intro h
      unfold program at h
      split at h
      · cases h
      · rename_i p hp
        split at h
        · cases h
        · rename_i qs hqs
          cases h
          obtain ⟨ps, hps, rfl⟩ := ih.1 hqs
          exact ⟨p :: ps, .cons (ofToken_eq_ok_iff.1 hp) hps, (hcons p ps).symm⟩
    · rintro ⟨_, hps, rfl⟩
      cases hps with
      | @cons _ p _ ps hp hps =>
        simp only [program, ofToken_eq_ok_iff.2 hp, ih.2 ⟨ps, hps, rfl⟩, hcons]

/-- A token that is read is in the notation unless it starts with a plus sign. -/
theorem isToken_twoDigits_iff {tok : List Char} {p : Option Part} :
    IsToken TwoDigits tok p ↔ tok.head? ≠ some '+' ∧ IsToken IsByte tok p := by
  constructor
  · intro h
    cases h with
    | word h =>
      have hall : words.all (fun w => w.1.head? ≠ some '+') = true := by decide
      exact ⟨by simpa using List.all_eq_true.1 hall _ h, .word h⟩
    | digit hc => exact ⟨by simp, .digit hc⟩
    | byte hb hw =>
      refine ⟨?_, .byte (Or.inl hb) hw⟩
      obtain ⟨hc, -⟩ := hb
      simpa using Text.ne_of_hexValue hc (by decide)
    | fill hb hs =>
      refine ⟨?_, .fill (Or.inl hb) hs⟩
      obtain ⟨hc, -⟩ := hb
      simpa using Text.ne_of_hexValue hc (by decide)
  · rintro ⟨hplus, h⟩
    cases h with
    | word h => exact .word h
    | digit hc => exact .digit hc
    | byte hb hw =>
      rcases hb with hb | @⟨d, n, hd⟩
      · exact .byte hb hw
      · simp at hplus
    | fill hb hs =>
      rcases hb with hb | @⟨d, n, hd⟩
      · exact .fill hb hs
      · simp at hplus

theorem forall₂_twoDigits_iff {toks : List (List Char)} {ps : List (Option Part)} :
    List.Forall₂ (IsToken TwoDigits) toks ps ↔
      (∀ tok ∈ toks, tok.head? ≠ some '+') ∧ List.Forall₂ (IsToken IsByte) toks ps := by
  have hsplit : IsToken TwoDigits = fun tok p => tok.head? ≠ some '+' ∧ IsToken IsByte tok p := by
    funext tok p
    exact propext isToken_twoDigits_iff
  rw [hsplit, List.forall₂_and_left]

end Part

/-! ### Rows -/

namespace Row

/-- **What an opcode column may hold.** The tokens of a row that gives a template are in the
notation, and its program is what they stand for, one after another, remarks left out; only that a
byte may have a plus sign for its first digit. A column with any other token is refused. The tokens
are in the notation as it stands exactly if none of them starts with a plus sign. -/
theorem compile_tokens (row : Row) :
    (∀ t, row.compile = .ok t →
      (∃ ps, List.Forall₂ (Part.IsToken Part.IsByte) (tokens (spaced row.opcode)) ps ∧
        t.program = ps.reduceOption) ∧
      ((∃ ps, List.Forall₂ (Part.IsToken Part.TwoDigits) (tokens (spaced row.opcode)) ps ∧
          t.program = ps.reduceOption) ↔
        ∀ tok ∈ tokens (spaced row.opcode), tok.head? ≠ some '+')) ∧
    ((∃ tok ∈ tokens (spaced row.opcode), ∀ p, ¬ Part.IsToken Part.IsByte tok p) →
      ∃ e, row.compile = .error e) := by
  have hread : ∀ t, row.compile = .ok t → ∃ ps,
      List.Forall₂ (Part.IsToken Part.IsByte) (tokens (spaced row.opcode)) ps ∧
        t.program = ps.reduceOption := by
    intro t h
    obtain ⟨-, -, -, hprog, -⟩ := compile_cases h
    exact Part.program_eq_ok_iff.1 hprog
  refine ⟨fun t h => ⟨hread t h, ?_, ?_⟩, ?_⟩
  · rintro ⟨ps, hps, -⟩
    exact (Part.forall₂_twoDigits_iff.1 hps).1
  · intro hplus
    obtain ⟨ps, hps, hprog⟩ := hread t h
    exact ⟨ps, Part.forall₂_twoDigits_iff.2 ⟨hplus, hps⟩, hprog⟩
  · rintro ⟨tok, htok, hnot⟩
    cases h : row.compile with
    | error e => exact ⟨e, rfl⟩
    | ok t =>
      obtain ⟨-, -, -, hprog, -⟩ := compile_cases h
      obtain ⟨p, hp⟩ := Part.exists_ofToken_of_program hprog tok htok
      exact absurd (Part.ofToken_eq_ok_iff.1 hp) (hnot p)

/-- A column of all sorts of tokens, where `cb` is the word, though it is two hexadecimal digits;
and a column with a token that is none. -/
theorem compile_tokens_foo :
    let row : Row := ⟨"FOO r64, rel8", "REX.W + 0f B8 +rd/r cb"⟩
    let t : Template := ⟨"foo", [.register 64, .relative 8],
      [.rex true, .byte 0x0F, .fill 0xB8, .relative 8], false⟩
    (row.compile = .ok t ∧
      (∀ tok ∈ tokens (spaced row.opcode), tok.head? ≠ some '+') ∧
      ∃ ps, List.Forall₂ (Part.IsToken Part.TwoDigits) (tokens (spaced row.opcode)) ps ∧
        t.program = ps.reduceOption) ∧
    ∃ e, (⟨"NOP", "9G"⟩ : Row).compile = .error e := by
  intro row t
  have hrow : row.compile = .ok t := by decide +kernel
  have hplus : ∀ tok ∈ tokens (spaced row.opcode), tok.head? ≠ some '+' := by decide +kernel
  obtain ⟨-, hiff⟩ := (compile_tokens row).1 t hrow
  have hbad : ∀ p, ¬ Part.IsToken Part.IsByte ['9', 'G'] p := by
    intro p h
    have hok := Part.ofToken_eq_ok_iff.2 h
    have herror : Part.ofToken ['9', 'G'] = .error (.opcode "9G") := by decide
    rw [herror] at hok
    cases hok
  have hmem : ['9', 'G'] ∈ tokens (spaced "9G") := by decide +kernel
  exact ⟨⟨hrow, hplus, hiff.2 hplus⟩, (compile_tokens ⟨"NOP", "9G"⟩).2 ⟨_, hmem, hbad⟩⟩

/-- **A sign passes for a digit**: the column `+5` is read as the byte five, though it is no token
of the notation. -/
theorem compile_plus_digit :
    (⟨"NOP", "+5"⟩ : Row).compile = .ok ⟨"nop", [], [.byte 5], false⟩ ∧
      tokens (spaced "+5") = [['+', '5']] ∧
      ∀ p, ¬ Part.IsToken Part.TwoDigits ['+', '5'] p :=
  ⟨by decide +kernel, by decide +kernel, fun p h => (Part.isToken_twoDigits_iff.1 h).1 rfl⟩

end Row
end RowAsm
