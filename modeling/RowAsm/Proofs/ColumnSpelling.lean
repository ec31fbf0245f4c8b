import RowAsm.Proofs.Lossless
import RowAsm.Proofs.OpcodeTokens

/-!
# Spellings of an opcode column

The opcode column of a program can be written in more than one way. `Row.Column prog ws` says that
the words `ws` are such a way: each part in one of its spellings (`Part.Written`), remarks `/r` in
any number, and a digit either as a word or stuck to the word before it.

A column is brought to one spelling by four replacements of texts, one after another, and a fifth
that sets slashes apart. They act on each item alone, because an item starts with a character that
no replaced text has in the middle: with a slash, or with a space before a character that goes with
no mark (`Row.opens`). So a column is read item by item (`Row.program_append`), and every spelling
of a program is read as this program (`Row.program_of_column`).
-/

namespace RowAsm

/-! ### Replacing in a part of a text -/

namespace Text

/-- No occurrence of `pat` reaches into the text `b` from before it: no ending of `pat` after its
first character is a beginning of `b`. -/
def Bars (pat b : List Char) : Prop := ∀ v, v <:+ pat.tail → v ≠ [] → ¬ v <+: b

theorem replaceFrom_append {pat new b : List Char} (hpat : pat ≠ []) (hb : Bars pat b)
    {a : List Char} {skip : Nat} (hskip : skip ≤ a.length) :
    replaceFrom pat new skip (a ++ b) =
      replaceFrom pat new skip a ++ replaceFrom pat new 0 b := by
  induction a generalizing skip with
  | nil =>
    obtain rfl : skip = 0 := by simpa using hskip
    simp [replaceFrom]
  | cons c a ih =>
    cases skip with
    | succ skip => simpa only [List.cons_append, replaceFrom] using ih (by simpa using hskip)
    | zero =>
      rw [List.cons_append, replaceFrom, replaceFrom]
      by_cases hp : pat <+: c :: a
      · have hlen : pat.length - 1 ≤ a.length := by
          have := hp.length_le
          rw [List.length_cons] at this
          omega
        have hp' : pat <+: c :: (a ++ b) := hp.trans (List.prefix_append (c :: a) b)
        rw [if_pos (List.isPrefixOf_iff_prefix.2 hp), if_pos (List.isPrefixOf_iff_prefix.2 hp'),
          ih hlen, List.append_assoc]
      · -- an occurrence that starts here would end in `b`
        have hp' : ¬ pat <+: c :: (a ++ b) := by
          intro h
          have ha : c :: a <+: c :: (a ++ b) := List.prefix_append (c :: a) b
          rcases List.prefix_or_prefix_of_prefix h ha with h' | ⟨v, rfl⟩
          · exact hp h'
          · have hv : v ≠ [] := by
              rintro rfl
              exact hp (by simp)
            exact hb v (List.suffix_append a v) hv ((List.prefix_append_right_inj _).1 h)
        rw [if_neg (mt List.isPrefixOf_iff_prefix.1 hp),
          if_neg (mt List.isPrefixOf_iff_prefix.1 hp'), ih (Nat.zero_le _), List.cons_append]

theorem replace_append {pat : String} {b : List Char} (hpat : pat.toList ≠ [])
    (hb : Bars pat.toList b) (new : String) (a : List Char) :
    replace pat new (a ++ b) = replace pat new a ++ replace pat new b :=
  replaceFrom_append hpat hb (Nat.zero_le _)

/-- A character that starts no occurrence stays. -/
theorem replace_cons {pat new : String} {c : Char} {cs : List Char}
    (h : ¬ pat.toList <+: c :: cs) : replace pat new (c :: cs) = c :: replace pat new cs := by
  rw [replace, replaceFrom, if_neg (mt List.isPrefixOf_iff_prefix.1 h), replace]

theorem replace_cons_of_head_ne {pat new : String} {c d : Char} (hpat : pat.toList.head? = some d)
    (h : d ≠ c) (cs : List Char) : replace pat new (c :: cs) = c :: replace pat new cs := by
  refine replace_cons fun hp => ?_
  obtain ⟨rest, hrest⟩ := List.head?_eq_some_iff.1 hpat
  rw [hrest, List.cons_prefix_cons] at hp
  exact h hp.1

theorem words_space (cs : List Char) : words isBlank (' ' :: cs) = words isBlank cs :=
  words_append_cons rfl [] cs

end Text

/-! ### Items of a column -/

namespace Row

/-- The texts that are replaced before slashes are set apart, and what replaces them. -/
def rewrites : List (String × String) :=
  [("REX.W +", "REX.W"), ("REX +", "REX"), (" +r", "+r"), ("+ r", "+r")]

/-- A column with each of these texts replaced. -/
def joined (rs : List (String × String)) (text : List Char) : List Char :=
  rs.foldl (fun text r => Text.replace r.1 r.2 text) text

theorem tokens_eq (text : List Char) :
    tokens text = Text.words Text.isBlank (Text.replace "/" " /" (joined rewrites text)) := rfl

/-- Whether a text starts an item of a column: with a slash, or with a space and a character that no
mark goes on with. -/
def opens : List Char → Bool
  | '/' :: _ => true
  | ' ' :: c :: _ => !([' ', '+', 'r'].contains c)
  | _ => false

theorem opens_cases {b : List Char} (h : opens b = true) :
    (∃ cs, b = '/' :: cs) ∨ ∃ c cs, b = ' ' :: c :: cs ∧ c ∉ [' ', '+', 'r'] := by
  unfold opens at h
  split at h
  · exact Or.inl ⟨_, rfl⟩
  · exact Or.inr ⟨_, _, rfl, by simpa using h⟩
  · cases h

/-- No ending of a replaced text starts an item. -/
theorem not_prefix_of_opens {b : List Char} (h : opens b = true) {r : String × String}
    (hr : r ∈ rewrites) {v : List Char} (hv : v <:+ r.1.toList) (hne : v ≠ []) : ¬ v <+: b := by
  have hall : rewrites.all (fun r => r.1.toList.tails.all fun v => v.head? ≠ some '/' ∧
      (v.head? = some ' ' → v.tail.head? ∈ [some '+', some 'r'])) = true := by
    decide +kernel
  have hends := List.all_eq_true.1 (List.all_eq_true.1 hall r hr) v ((List.mem_tails _ _).2 hv)
  rw [decide_eq_true_eq] at hends
  obtain ⟨d, v, rfl⟩ := List.exists_cons_of_ne_nil hne
  intro hpre
  rcases opens_cases h with ⟨cs, rfl⟩ | ⟨c, cs, rfl, hc⟩
  · obtain ⟨rfl, -⟩ := List.cons_prefix_cons.1 hpre
    exact hends.1 rfl
  · obtain ⟨rfl, hrest⟩ := List.cons_prefix_cons.1 hpre
    have hnext := hends.2 rfl
    cases v with
    | nil => simp at hnext
    | cons x v =>
      obtain ⟨rfl, -⟩ := List.cons_prefix_cons.1 hrest
      simp only [List.tail_cons, List.head?_cons, List.mem_cons, Option.some.injEq,
        List.not_mem_nil, or_false] at hnext
      rcases hnext with rfl | rfl <;> simp at hc

theorem bars_of_opens {b : List Char} (h : opens b = true) {r : String × String}
    (hr : r ∈ rewrites) : Text.Bars r.1.toList b :=
  fun _ hv hne => not_prefix_of_opens h hr (hv.trans (List.tail_suffix _)) hne

theorem ne_nil_of_rewrites {r : String × String} (hr : r ∈ rewrites) : r.1.toList ≠ [] := by
  have hall : rewrites.all (fun r => r.1.toList ≠ []) = true := by decide +kernel
  simpa using List.all_eq_true.1 hall r hr

/-- A replacement leaves the first character of a text as it is, unless it is a space. -/
theorem exists_replace_cons {r : String × String} (hr : r ∈ rewrites) {c : Char} (hc : c ≠ ' ')
    (cs : List Char) : ∃ cs', Text.replace r.1 r.2 (c :: cs) = c :: cs' := by
  have hall : rewrites.all (fun r => r.1.toList.head? = some ' ' ∨
      (r.1.toList ≠ [] ∧ r.1.toList.head? = r.2.toList.head?)) = true := by
    decide +kernel
  by_cases hp : r.1.toList <+: c :: cs
  · have hhead := List.all_eq_true.1 hall r hr
    rw [decide_eq_true_eq] at hhead
    rw [Text.replace, Text.replaceFrom, if_pos (List.isPrefixOf_iff_prefix.2 hp)]
    cases hpat : r.1.toList with
    | nil => simp [hpat] at hhead
    | cons d pat =>
      obtain rfl : d = c := (List.cons_prefix_cons.1 (hpat ▸ hp)).1
      have hnew : r.2.toList.head? = some d := by simpa [hpat, hc, eq_comm] using hhead
      obtain ⟨new, hnew⟩ := List.head?_eq_some_iff.1 hnew
      exact ⟨_, by rw [hnew, List.cons_append]⟩
  · exact ⟨_, Text.replace_cons hp⟩

theorem opens_replace {b : List Char} (h : opens b = true) {r : String × String}
    (hr : r ∈ rewrites) : opens (Text.replace r.1 r.2 b) = true := by
  have hp := not_prefix_of_opens h hr List.suffix_rfl (ne_nil_of_rewrites hr)
  rcases opens_cases h with ⟨cs, rfl⟩ | ⟨c, cs, rfl, hc⟩
  · rw [Text.replace_cons hp]
    rfl
  · obtain ⟨cs', hcs'⟩ := exists_replace_cons hr (List.ne_of_not_mem_cons hc) cs
    rw [Text.replace_cons hp, hcs']
    simpa [opens] using hc

theorem joined_append {rs : List (String × String)} (hrs : rs ⊆ rewrites) {b : List Char}
    (h : opens b = true) (a : List Char) :
    joined rs (a ++ b) = joined rs a ++ joined rs b ∧ opens (joined rs b) = true := by
  induction rs generalizing a b with
  | nil => exact ⟨rfl, h⟩
  | cons r rs ih =>
    obtain ⟨hr, hrs⟩ := List.cons_subset.1 hrs
    have happend := Text.replace_append (ne_nil_of_rewrites hr) (bars_of_opens h hr) r.2 a
    simp only [joined, List.foldl_cons, happend]
    exact ih hrs (opens_replace h hr) _

/-- **A column is cut into tokens item by item.** -/
theorem tokens_append {b : List Char} (h : opens b = true) (a : List Char) :
    tokens (a ++ b) = tokens a ++ tokens b := by
  obtain ⟨hjoined, hopens⟩ := joined_append (List.Subset.refl rewrites) h a
  have hslash : Text.Bars "/".toList (joined rewrites b) := by
    intro v hv hne
    exact absurd (List.suffix_nil.1 hv) hne
  -- a blank stands before `b` once slashes are set apart
  have hblank : ∃ cs, Text.replace "/" " /" (joined rewrites b) = ' ' :: cs := by
    rcases opens_cases hopens with ⟨cs, hcs⟩ | ⟨c, cs, hcs, -⟩
    · exact ⟨_, by rw [hcs]; rfl⟩
    · exact ⟨_, by rw [hcs]; rfl⟩
  obtain ⟨cs, hcs⟩ := hblank
  rw [tokens_eq, tokens_eq, tokens_eq, hjoined, Text.replace_append (by decide) hslash, hcs,
    Text.words_append_cons rfl, Text.words_space]

/-- A space before a column makes no difference. -/
theorem tokens_space (x : List Char) : tokens (' ' :: x) = tokens x := by
  simp only [tokens]
  -- a space is the beginning of one replaced text only
  rw [Text.replace_cons_of_head_ne (d := 'R') rfl (by decide),
    Text.replace_cons_of_head_ne (d := 'R') rfl (by decide)]
  generalize Text.replace "REX +" "REX" (Text.replace "REX.W +" "REX.W" x) = y
  by_cases hy : [' ', '+', 'r'] <+: ' ' :: y
  · -- the mark takes the space
    obtain ⟨-, z, rfl⟩ := List.cons_prefix_cons.1 hy
    have hmark : Text.replace " +r" "+r" (' ' :: (['+', 'r'] ++ z)) =
        Text.replace " +r" "+r" (['+', 'r'] ++ z) := by
      simp [Text.replace, Text.replaceFrom]
    rw [hmark]
  · have hstays : ¬ " +r".toList <+: ' ' :: y := hy
    rw [Text.replace_cons hstays,
      Text.replace_cons_of_head_ne (d := '+') rfl (by decide),
      Text.replace_cons_of_head_ne (d := '/') rfl (by decide)]
    exact Text.words_space _

/-- **A column is read item by item.** -/
theorem program_append {a b : List Char} (h : opens b = true) {ps qs : List Part}
    (ha : program a = .ok ps) (hb : program b = .ok qs) : program (a ++ b) = .ok (ps ++ qs) := by
  obtain ⟨us, hus, rfl⟩ := Part.program_eq_ok_iff.1 ha
  obtain ⟨vs, hvs, rfl⟩ := Part.program_eq_ok_iff.1 hb
  rw [program, tokens_append h, ← List.reduceOption_append]
  exact Part.program_eq_ok_iff.2 ⟨us ++ vs, List.rel_append hus hvs, rfl⟩

end Row

/-! ### Bytes -/

theorem Text.hexValue_upperDigit {n : Nat} (h : n < 16) : hexValue (upperDigit n) = some n := by
  interval_cases n <;> decide

/-- The two digits of a byte. -/
theorem Text.exists_digits_hexByte (b : UInt8) : ∃ m n, m < 16 ∧ n < 16 ∧
    (hexByte b).toList = [upperDigit m, upperDigit n] ∧ UInt8.ofNat (m * 16 + n) = b := by
  have hb : b.toNat < 256 := b.toNat_lt
  have hvalue : b.toNat / 16 * 16 + b.toNat % 16 = b.toNat := Nat.div_add_mod' b.toNat 16
  refine ⟨b.toNat / 16, b.toNat % 16, by omega, by omega, ?_, ?_⟩
  · rw [hexByte, String.toList_ofList]
  · rw [hvalue, UInt8.ofNat_toNat]

theorem Text.not_isBlank_hexByte (b : UInt8) : ∀ c ∈ (hexByte b).toList, isBlank c = false := by
  have hdigit : ∀ n < 16, isBlank (upperDigit n) = false := by decide
  obtain ⟨m, n, hm, hn, hchars, -⟩ := exists_digits_hexByte b
  rw [hchars]
  simpa using ⟨hdigit m hm, hdigit n hn⟩

namespace Part

theorem twoDigits_hexByte (b : UInt8) : TwoDigits (Text.hexByte b).toList b := by
  obtain ⟨m, n, hm, hn, hchars, hvalue⟩ := Text.exists_digits_hexByte b
  have h := TwoDigits.intro (Text.hexValue_upperDigit hm) (Text.hexValue_upperDigit hn)
  rwa [hvalue, ← hchars] at h

/-- A byte is no word, since no word starts with a capital digit. -/
theorem hexByte_not_mem_words (b : UInt8) : (Text.hexByte b).toList ∉ words.map Prod.fst := by
  have hall : ∀ n < 16, (words.map Prod.fst).all (fun w => w.head? ≠ some (Text.upperDigit n)) :=
    by decide
  obtain ⟨m, n, hm, -, hchars, -⟩ := Text.exists_digits_hexByte b
  intro hmem
  have hhead := List.all_eq_true.1 (hall m hm) _ hmem
  simp [hchars] at hhead

/-! ### Spellings of a part -/

theorem not_isBlank_mark {size : List Char} (hs : size ∈ fillSizes) :
    ∀ c ∈ ['+', 'r'] ++ size, Text.isBlank c = false := by
  have hall : ∀ size ∈ fillSizes, (['+', 'r'] ++ size).all (fun c => !Text.isBlank c) := by decide
  simpa using hall size hs

/-- The parts that are no opcode bytes. -/
def marks : List Part :=
  words.filterMap Prod.snd ++ (List.range 8).map fun n => .digit (UInt8.ofNat n)

/-- The part is what some token stands for. -/
def HasToken (p : Part) : Prop := ∃ tok, ofToken tok = .ok (some p)

theorem hasToken_of_program {toks : List (List Char)} {prog : List Part}
    (h : program toks = .ok prog) {p : Part} (hp : p ∈ prog) : p.HasToken := by
  obtain ⟨tok, -, htok⟩ := exists_token_of_program h hp
  exact ⟨tok, htok⟩

theorem HasToken.mem_marks {p : Part} (h : p.HasToken) (hp : p.isOpcode = false) : p ∈ marks := by
  obtain ⟨tok, htok⟩ := h
  cases ofToken_eq_ok_iff.1 htok with
  | word hw => exact List.mem_append_left _ (List.mem_filterMap.2 ⟨_, hw, rfl⟩)
  | @digit c n hc =>
    have hn : n < 8 := by simpa using (Option.filter_eq_some_iff.1 hc).2
    exact List.mem_append_right _ (List.mem_map.2 ⟨n, List.mem_range.2 hn, rfl⟩)
  | byte => cases hp
  | fill => cases hp

/-- The words `us` of a column write the part, or they are a remark and write none. A byte that
takes a register has a size after its mark, and the mark may stand apart or be divided; a REX marker
may have a plus sign after it. -/
inductive Written : Option Part → List (List Char) → Prop
  | plain {p : Part} (hp : p.isFill = false) : Written (some p) [p.display.toList]
  | fill {b : UInt8} {size : List Char} (hs : size ∈ fillSizes) :
      Written (some (.fill b)) [(Part.fill b).display.toList ++ size]
  | fillBefore {b : UInt8} {size : List Char} (hs : size ∈ fillSizes) :
      Written (some (.fill b)) [(Text.hexByte b).toList, '+' :: 'r' :: size]
  | fillAfter {b : UInt8} {size : List Char} (hs : size ∈ fillSizes) :
      Written (some (.fill b)) [(Text.hexByte b).toList ++ ['+'], 'r' :: size]
  | rex {w : Bool} : Written (some (.rex w)) [(Part.rex w).display.toList, ['+']]
  | remark : Written none [['/', 'r']]

end Part

namespace Row

/-- The words `ws` of a column write the program: one item after another, where a digit may stick to
the word before it. -/
inductive Column : List Part → List (List Char) → Prop
  | nil : Column [] []
  | item {ps : List Part} {ws us : List (List Char)} {q : Option Part} (h : Column ps ws)
      (hq : Part.Written q us) : Column (ps ++ q.toList) (ws ++ us)
  | glued {ps : List Part} {ws : List (List Char)} {w : List Char} {d : UInt8}
      (h : Column ps (ws ++ [w])) :
      Column (ps ++ [.digit d]) (ws ++ [w ++ (Part.digit d).display.toList])

/-- The words with a space before each. -/
def spread (ws : List (List Char)) : List Char := ws.flatMap fun w => ' ' :: w

theorem spread_append (ws us : List (List Char)) : spread (ws ++ us) = spread ws ++ spread us :=
  List.flatMap_append

theorem spread_cons (w : List Char) (ws : List (List Char)) :
    spread (w :: ws) = ' ' :: [' '].intercalate (w :: ws) := by
  induction ws generalizing w with
  | nil => simp [spread]
  | cons u ws ih =>
    have htail : spread (w :: u :: ws) = ' ' :: (w ++ spread (u :: ws)) := rfl
    rw [htail, ih u, List.intercalate_cons_cons, List.append_assoc, List.singleton_append]

/-- The program of words with single spaces between them. -/
theorem program_intercalate (ws : List (List Char)) :
    program ([' '].intercalate ws) = program (spread ws) := by
  cases ws with
  | nil => rfl
  | cons w ws => rw [spread_cons, program, program, tokens_space]

/-! ### Reading an item -/

/-- A byte with what is made of the rest of its item is one token. -/
theorem tokens_hexByte (b : UInt8) {rest mark : List Char}
    (hmark : Text.replace "/" " /" (joined rewrites rest) = mark)
    (hblank : ∀ c ∈ mark, Text.isBlank c = false) :
    tokens (' ' :: ((Text.hexByte b).toList ++ rest)) = [(Text.hexByte b).toList ++ mark] := by
  obtain ⟨m, n, hm, hn, hchars, -⟩ := Text.exists_digits_hexByte b
  -- no replaced text starts with a digit
  have hdigit : ∀ n < 16, 'R' ≠ Text.upperDigit n ∧ ' ' ≠ Text.upperDigit n ∧
      '+' ≠ Text.upperDigit n ∧ '/' ≠ Text.upperDigit n := by
    decide
  have hpass : ∀ n < 16, ∀ cs, Text.replace "/" " /" (joined rewrites (Text.upperDigit n :: cs)) =
      Text.upperDigit n :: Text.replace "/" " /" (joined rewrites cs) := by
    intro n hn cs
    obtain ⟨hR, hspace, hplus, hslash⟩ := hdigit n hn
    simp only [joined, rewrites, List.foldl_cons, List.foldl_nil]
    rw [Text.replace_cons_of_head_ne rfl hR, Text.replace_cons_of_head_ne rfl hR,
      Text.replace_cons_of_head_ne rfl hspace, Text.replace_cons_of_head_ne rfl hplus,
      Text.replace_cons_of_head_ne rfl hslash]
  have hread : Text.replace "/" " /" (joined rewrites ((Text.hexByte b).toList ++ rest)) =
      (Text.hexByte b).toList ++ mark := by
    rw [hchars, List.cons_append, List.cons_append, List.nil_append, hpass m hm, hpass n hn, hmark]
    rfl
  rw [tokens_space, tokens_eq, hread]
  refine Text.words_of_not_sep (by simp [hchars]) fun c hc => ?_
  rcases List.mem_append.1 hc with hc | hc
  · exact Text.not_isBlank_hexByte b c hc
  · exact hblank c hc

theorem program_byte (b : UInt8) :
    program (' ' :: (Text.hexByte b).toList) = .ok [.byte b] := by
  have htokens : tokens (' ' :: (Text.hexByte b).toList) = [(Text.hexByte b).toList] := by
    have hnothing : Text.replace "/" " /" (joined rewrites []) = [] := rfl
    simpa using tokens_hexByte b hnothing (by simp)
  have htoken : Part.IsToken Part.IsByte (Text.hexByte b).toList (some (.byte b)) :=
    .byte (Or.inl (Part.twoDigits_hexByte b)) (Part.hexByte_not_mem_words b)
  rw [program, htokens]
  exact Part.program_eq_ok_iff.2 ⟨_, .cons htoken .nil, rfl⟩

/-- The mark of a byte that takes a register is read in each of its spellings. -/
theorem program_fill (b : UInt8) {size mark : List Char} (hs : size ∈ Part.fillSizes)
    (hmark : mark ∈ [['+', 'r'], [' ', '+', 'r'], ['+', ' ', 'r']]) :
    program (' ' :: ((Text.hexByte b).toList ++ (mark ++ size))) = .ok [.fill b] := by
  have hread : ∀ size ∈ Part.fillSizes, ∀ mark ∈ [['+', 'r'], [' ', '+', 'r'], ['+', ' ', 'r']],
      Text.replace "/" " /" (joined rewrites (mark ++ size)) = ['+', 'r'] ++ size := by
    decide +kernel
  have htoken : Part.IsToken Part.IsByte ((Text.hexByte b).toList ++ ['+', 'r'] ++ size)
    (some (.fill b)) := .fill (Or.inl (Part.twoDigits_hexByte b)) hs
  rw [program, tokens_hexByte b (hread size hs mark hmark) (Part.not_isBlank_mark hs),
    ← List.append_assoc]
  exact Part.program_eq_ok_iff.2 ⟨_, .cons htoken .nil, rfl⟩

/-- The other parts are finitely many. -/
theorem program_mark {p : Part} (hp : p ∈ Part.marks) :
    program (' ' :: p.display.toList) = .ok [p] ∧ opens (' ' :: p.display.toList) = true := by
  have hall : Part.marks.all (fun p => program (' ' :: p.display.toList) = .ok [p] ∧
      opens (' ' :: p.display.toList) = true) = true := by
    decide +kernel
  simpa using List.all_eq_true.1 hall p hp

theorem opens_hexByte (b : UInt8) (rest : List Char) :
    opens (' ' :: ((Text.hexByte b).toList ++ rest)) = true := by
  have hall : ∀ n < 16, [' ', '+', 'r'].contains (Text.upperDigit n) = false := by decide
  obtain ⟨m, n, hm, -, hchars, -⟩ := Text.exists_digits_hexByte b
  rw [hchars, List.cons_append, opens, hall m hm]
  rfl

/-- **An item is read as its part**, whatever its spelling. -/
theorem program_of_written {q : Option Part} {us : List (List Char)} (h : Part.Written q us)
    (hq : ∀ p ∈ q, p.HasToken) :
    program (spread us) = .ok q.toList ∧ opens (spread us) = true := by
  cases h with
  | @plain p hp =>
    have hspread : spread [p.display.toList] = ' ' :: p.display.toList := by simp [spread]
    rw [hspread]
    cases p with
    | byte b => exact ⟨program_byte b, by simpa [Part.display] using opens_hexByte b []⟩
    | fill b => cases hp
    | digit | rex | immediate | relative => exact program_mark ((hq _ rfl).mem_marks rfl)
  | @fill b size hs =>
    have hspread : spread [(Part.fill b).display.toList ++ size] =
        ' ' :: ((Text.hexByte b).toList ++ (['+', 'r'] ++ size)) := by
      simp [spread, Part.display]
    rw [hspread]
    exact ⟨program_fill b hs (by simp), opens_hexByte b _⟩
  | @fillBefore b size hs =>
    have hspread : spread [(Text.hexByte b).toList, '+' :: 'r' :: size] =
        ' ' :: ((Text.hexByte b).toList ++ ([' ', '+', 'r'] ++ size)) := by
      simp [spread]
    rw [hspread]
    exact ⟨program_fill b hs (by simp), opens_hexByte b _⟩
  | @fillAfter b size hs =>
    have hspread : spread [(Text.hexByte b).toList ++ ['+'], 'r' :: size] =
        ' ' :: ((Text.hexByte b).toList ++ (['+', ' ', 'r'] ++ size)) := by
      simp [spread]
    rw [hspread]
    exact ⟨program_fill b hs (by simp), opens_hexByte b _⟩
  | @rex w => cases w <;> decide +kernel
  | remark => decide +kernel

/-- **Every spelling of a program is read as this program.** -/
theorem program_of_column {ps : List Part} {ws : List (List Char)} (h : Column ps ws)
    (hps : ∀ p ∈ ps, p.HasToken) : program (spread ws) = .ok ps := by
  induction h with
  | nil => rfl
  | item _ hq ih =>
    simp only [List.mem_append, Option.mem_toList] at hps
    obtain ⟨hprogram, hopens⟩ := program_of_written hq fun p hp => hps p (Or.inr hp)
    rw [spread_append]
    exact program_append hopens (ih fun p hp => hps p (Or.inl hp)) hprogram
  | @glued ps ws w d _ ih =>
    simp only [List.mem_append, List.mem_singleton] at hps
    have hspread : spread (ws ++ [w ++ (Part.digit d).display.toList]) =
        spread (ws ++ [w]) ++ (Part.digit d).display.toList := by
      simp [spread]
    have hopens : opens (Part.digit d).display.toList = true := by
      simp [Part.display, opens, toString]
    rw [hspread]
    refine program_append hopens (ih fun p hp => hps p (Or.inl hp)) ?_
    rw [program, ← tokens_space]
    exact (program_mark ((hps _ (Or.inr rfl)).mem_marks rfl)).1

end Row
end RowAsm
