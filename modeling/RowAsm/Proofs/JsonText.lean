import RowAsm.Json.Form
import RowAsm.Proofs.Lexical

/-!
# Reading a JSON text back

`Json.Reads v` says that the compact text of `v` is read as `v` wherever a value may stand: with any
containers open, and before any text into which no number goes on. The scalars that forms are made
of have this property, and arrays and records have it if their parts do, so that every such value is
read back from its text (`Reads.parse?_render`).

The reader is followed from state to state: `readFrom_cons` takes one token, and `readFrom_items`
and `readFrom_members` take the rest of a container up to the end of it.
-/

namespace RowAsm

/-! ### Decimal and hexadecimal digits -/

namespace Text

theorem digit_of_isDigit {c : Char} (h : c.isDigit = true) :
    digit 10 c = some (c.toNat - '0'.toNat) := by
  have hc := h
  simp only [Char.isDigit, Bool.and_eq_true, decide_eq_true_eq] at hc
  have hle : c.toNat ≤ 57 := UInt32.le_iff_toNat_le.1 hc.2
  have hv : hexValue c = some (c.toNat - '0'.toNat) := by
    unfold hexValue
    rw [if_pos]
    simpa only [Bool.and_eq_true, decide_eq_true_eq, Char.le_def] using hc
  rw [digit, hv, Option.filter_some, if_pos]
  have h0 : '0'.toNat = 48 := rfl
  rw [decide_eq_true_eq]
  omega

theorem digit_digitChar {d : Nat} (h : d < 16) : digit 16 (Nat.digitChar d) = some d :=
  (by decide : ∀ d < 16, digit 16 (Nat.digitChar d) = some d) d h

theorem numeralFrom_of_isDigit {cs : List Char} (h : ∀ c ∈ cs, c.isDigit = true) (n : Nat) :
    numeralFrom 10 n cs = some (Nat.ofDigitChars 10 cs n) := by
  induction cs generalizing n with
  | nil => rfl
  | cons c cs ih =>
    rw [List.forall_mem_cons] at h
    rw [numeralFrom, digit_of_isDigit h.1, Nat.ofDigitChars_cons, Nat.mul_comm 10 n]
    exact ih h.2 _

theorem isDigit_toDigits (n : Nat) : ∀ c ∈ Nat.toDigits 10 n, c.isDigit = true :=
  fun _ hc => Nat.isDigit_of_mem_toDigits (by decide) (by decide) hc

/-- A number is the value of its digits. -/
theorem numeral_toDigits (n : Nat) : numeral 10 (Nat.toDigits 10 n) = some n := by
  have hvalue := numeralFrom_of_isDigit (isDigit_toDigits n) 0
  rw [Nat.ofDigitChars_ten_toDigits] at hvalue
  cases h : Nat.toDigits 10 n with
  | nil => exact absurd h Nat.toDigits_ne_nil
  | cons c cs => rwa [h] at hvalue

/-- The digits of a positive number do not start with a zero. -/
theorem head?_toDigits_ne_zero {n : Nat} (h : 0 < n) : (Nat.toDigits 10 n).head? ≠ some '0' := by
  induction n using Nat.strong_induction_on with
  | _ n ih =>
    by_cases hn : n < 10
    · rw [Nat.toDigits_of_lt_base hn]
      interval_cases n <;> decide
    · have hdiv : 0 < n / 10 := Nat.div_pos (Nat.not_lt.1 hn) (by decide)
      rw [Nat.toDigits_of_base_le (by decide) (Nat.not_lt.1 hn), List.head?_append]
      cases hd : (Nat.toDigits 10 (n / 10)).head? with
      | none => exact absurd (List.head?_eq_none_iff.1 hd) Nat.toDigits_ne_nil
      | some c =>
        rw [Option.some_or, ← hd]
        exact ih (n / 10) (Nat.div_lt_self h (by decide)) hdiv

end Text

namespace Json

/-! ### Tokens at the start of a text -/

/-- No number goes on into these characters. -/
def EndsNumber (rest : List Char) : Prop :=
  ∀ c ∈ rest.head?, c.isDigit = false ∧ c ≠ '.' ∧ c ≠ 'e' ∧ c ≠ 'E'

theorem whole_toDigits (n : Nat) {rest : List Char} (h : EndsNumber rest) :
    whole (Nat.toDigits 10 n ++ rest) = some (Nat.toDigits 10 n, rest) := by
  have hd : digits (Nat.toDigits 10 n ++ rest) = (Nat.toDigits 10 n, rest) := by
    obtain ⟨htake, hdrop⟩ := while_append (Text.isDigit_toDigits n) fun c hc => (h c hc).1
    rw [digits, htake, hdrop]
  rw [whole, hd]
  split
  · next he => exact absurd (congrArg Prod.fst he) Nat.toDigits_ne_nil
  · next c cs _ he =>
    -- only zero starts with a zero, and it is one digit
    have he : Nat.toDigits 10 n = '0' :: c :: cs := congrArg Prod.fst he
    rcases Nat.eq_zero_or_pos n with rfl | hn
    · simp at he
    · exact absurd (by rw [he]; rfl) (Text.head?_toDigits_ne_zero hn)
  · next he => rw [he]

theorem fraction_of_endsNumber {rest : List Char} (h : EndsNumber rest) :
    fraction rest = some ([], rest) := by
  unfold fraction
  split
  · exact absurd rfl (h _ rfl).2.1
  · rfl

theorem exponent_of_endsNumber {rest : List Char} (h : EndsNumber rest) :
    exponent rest = some ([], rest) := by
  cases rest with
  | nil => rfl
  | cons c cs =>
    obtain ⟨-, -, he, hE⟩ := h c rfl
    simp [exponent, he, hE]

theorem magnitude_toDigits (n : Nat) {rest : List Char} (h : EndsNumber rest) :
    magnitude (Nat.toDigits 10 n ++ rest) = some (Nat.toDigits 10 n, rest) := by
  simp [magnitude, whole_toDigits n h, fraction_of_endsNumber h, exponent_of_endsNumber h]

/-- A text that starts with a digit starts with a number. -/
theorem token?_of_isDigit {c : Char} (hc : c.isDigit = true) (cs : List Char) :
    token? (c :: cs) = (magnitude (c :: cs)).map fun (text, rest) => (.number text, rest) := by
  unfold token?
  split
  case h_11 =>
    unfold numeral
    split
    · next he =>
      cases he
      cases hc
    · rfl
  all_goals
    next he =>
      cases he
      cases hc

/-! ### Strings -/

theorem codeUnit?_hex4 {n : Nat} (h : n < 65536) :
    codeUnit? (Nat.digitChar (n / 4096 % 16)) (Nat.digitChar (n / 256 % 16))
      (Nat.digitChar (n / 16 % 16)) (Nat.digitChar (n % 16)) = some n := by
  simp only [codeUnit?, Text.numeral, Text.numeralFrom,
    Text.digit_digitChar (Nat.mod_lt _ (by decide : 0 < 16))]
  congr 1
  omega

/-- A character is written by a short escape, by its code unit, or as it stands. -/
theorem escape_cases (c : Char) :
    (∃ e, shortEscape? e = some c ∧ escape c = ['\\', e]) ∨
    (c.toNat < 0x20 ∧ escape c = '\\' :: 'u' :: hex4 c.toNat) ∨
    (c ≠ '"' ∧ c ≠ '\\' ∧ ¬ c.toNat < 0x20 ∧ escape c = [c]) := by
  unfold escape
  split_ifs with hquote hslash hb hf hn hr ht hcontrol
  · exact .inl ⟨'"', congrArg some hquote.symm, rfl⟩
  · exact .inl ⟨'\\', congrArg some hslash.symm, rfl⟩
  · exact .inl ⟨'b', congrArg some hb.symm, rfl⟩
  · exact .inl ⟨'f', congrArg some hf.symm, rfl⟩
  · exact .inl ⟨'n', congrArg some hn.symm, rfl⟩
  · exact .inl ⟨'r', congrArg some hr.symm, rfl⟩
  · exact .inl ⟨'t', congrArg some ht.symm, rfl⟩
  · exact .inr (.inl ⟨hcontrol, rfl⟩)
  · exact .inr (.inr ⟨hquote, hslash, hcontrol, rfl⟩)

/-- A code unit below the surrogates is a character. -/
theorem Mark.ofUnit_toNat {c : Char} (h : c.toNat < 0xD800) : ofUnit c.toNat = .char c := by
  have hlow : ¬ 0xDC00 ≤ c.toNat := by omega
  simp [ofUnit, isHigh, isLow, Nat.not_le.2 h, hlow]

/-- A character is read back from its escape. -/
theorem stringBody_escape (c : Char) (rest : List Char) :
    stringBody (escape c ++ rest) = addMark (.char c) (stringBody rest) := by
  obtain ⟨e, he, hc⟩ | ⟨hcontrol, hc⟩ | ⟨hquote, hslash, hcontrol, hc⟩ := escape_cases c
  · have hu : e ≠ 'u' := by
      rintro rfl
      cases he
    simp [hc, stringBody, he, hu]
  · have hunit := Mark.ofUnit_toNat (Nat.lt_trans hcontrol (by decide))
    have hcode := codeUnit?_hex4 (Nat.lt_trans hcontrol (by decide))
    simp only [hc, hex4, List.cons_append, List.nil_append, stringBody, hcode, hunit]
  · rw [hc, List.singleton_append, stringBody]
    · simp [hslash, hcontrol]
    all_goals grind

/-- The marks of a string are read back up to its closing quote. -/
theorem stringBody_marks (s : String) (rest : List Char) :
    stringBody ((marks s).flatMap renderMark ++ '"' :: rest) = some (marks s, rest) := by
  unfold marks
  induction s.toList with
  | nil => simp [stringBody]
  | cons c cs ih =>
    simp only [List.map_cons, List.flatMap_cons, renderMark, List.append_assoc,
      stringBody_escape] at ih ⊢
    rw [ih]
    rfl

theorem token?_renderString (s : String) (rest : List Char) :
    token? (renderString (marks s) ++ rest) = some (.string (marks s), rest) := by
  simp [renderString, token?, stringBody_marks]

/-! ### Stepping through a text -/

/-- The state after all tokens of a text. -/
def readFrom (s : State) (cs : List Char) : Option State :=
  (tokens cs).bind fun ts => ts.foldlM State.step s

/-- The first token makes a step, and the rest of the text is read after it. -/
theorem readFrom_cons {c : Char} {cs rest : List Char} {t : Token} (hc : isBlank c = false)
    (h : token? (c :: cs) = some (t, rest)) {s s' : State} (hs : s.step t = some s') :
    readFrom s (c :: cs) = readFrom s' rest := by
  have htokens : tokens (c :: cs) = (tokens rest).map (t :: ·) := by
    rw [tokens, hc, if_neg (by decide)]
    split
    · next hnone => simp [h] at hnone
    · next hsome =>
      rw [h] at hsome
      cases hsome
      cases tokens rest <;> rfl
  rw [readFrom, readFrom, htokens]
  cases tokens rest with
  | none => rfl
  | some ts => simp [hs]

/-- A value is due in this state, inside the containers `stack`. -/
inductive State.Awaits : State → List Frame → Prop
  | value (stack : List Frame) : Awaits (.value stack) stack
  | firstItem (stack : List Frame) : Awaits (.firstItem stack) (.items [] :: stack)

theorem State.Awaits.step {s : State} {stack : List Frame} (h : s.Awaits stack) {t : Token}
    (ht : t ≠ .closeArray) : s.step t = beginValue stack t := by
  cases h with
  | value => rfl
  | firstItem =>
    cases t with
    | closeArray => exact absurd rfl ht
    | _ => rfl

/-- The key of a member is due in this state, after the members `done`. -/
inductive State.AwaitsKey : State → List (List Mark × Json) → List Frame → Prop
  | firstKey (stack : List Frame) : AwaitsKey (.firstKey stack) [] stack
  | nextKey (done : List (List Mark × Json)) (stack : List Frame) :
    AwaitsKey (.nextKey done stack) done stack

theorem State.AwaitsKey.step {s : State} {done : List (List Mark × Json)} {stack : List Frame}
    (h : s.AwaitsKey done stack) (k : List Mark) :
    s.step (.string k) = some (.colon done k stack) := by
  cases h <;> rfl

/-- The compact text of the value is read as the value wherever a value may stand. -/
def Reads (v : Json) : Prop :=
  ∀ ⦃s : State⦄ ⦃stack : List Frame⦄ ⦃rest : List Char⦄, s.Awaits stack → EndsNumber rest →
    readFrom s (renderChars v ++ rest) = readFrom (.after v stack) rest

/-! ### Scalars -/

theorem reads_bool (b : Bool) : Reads (.bool b) := by
  intro s stack rest hs _
  cases b <;> exact readFrom_cons (by decide) rfl (hs.step (by decide))

theorem reads_nat (n : Nat) : Reads (nat n) := by
  intro s stack rest hs hrest
  cases hd : Nat.toDigits 10 n with
  | nil => exact absurd hd Nat.toDigits_ne_nil
  | cons c cs =>
    have hc : c.isDigit = true := Text.isDigit_toDigits n c (by simp [hd])
    have htoken := token?_of_isDigit hc (cs ++ rest)
    rw [← List.cons_append, ← hd, magnitude_toDigits n hrest] at htoken
    have hblank : isBlank c = false := by
      simp only [isBlank, Bool.or_eq_false_iff, beq_eq_false_iff_ne]
      refine ⟨⟨⟨?_, ?_⟩, ?_⟩, ?_⟩ <;>
      · rintro rfl
        cases hc
    rw [nat, renderChars, hd, List.cons_append]
    rw [hd] at htoken
    exact readFrom_cons hblank htoken (hs.step (by simp))

theorem reads_str (s : String) : Reads (str s) := by
  intro st stack rest hs _
  rw [str, renderChars]
  exact readFrom_cons (by decide) (token?_renderString s rest) (hs.step (by simp))

/-! ### Containers -/

theorem renderItems_cons_cons (v w : Json) (vs : List Json) :
    renderItems (v :: w :: vs) = renderChars v ++ ',' :: renderItems (w :: vs) := by
  rw [renderItems]
  simp

/-- The items of an array are read up to the end of it. -/
theorem readFrom_items {v : Json} {vs : List Json} (h : ∀ w ∈ v :: vs, Reads w) {s : State}
    {done : List Json} {stack : List Frame} (hs : s.Awaits (.items done :: stack))
    (rest : List Char) :
    readFrom s (renderItems (v :: vs) ++ ']' :: rest) =
      readFrom (.after (.array (done.reverse ++ v :: vs)) stack) rest := by
  induction vs generalizing v s done with
  | nil =>
    rw [renderItems, h v (by simp) hs (by simp [EndsNumber])]
    refine (readFrom_cons (by decide) rfl rfl).trans ?_
    simp
  | cons w vs ih =>
    rw [List.forall_mem_cons] at h
    rw [renderItems_cons_cons, List.append_assoc, List.cons_append,
      h.1 hs (by simp [EndsNumber])]
    refine (readFrom_cons (by decide) rfl rfl).trans ?_
    simp [ih h.2 (.value _)]

theorem reads_array {vs : List Json} (h : ∀ v ∈ vs, Reads v) : Reads (.array vs) := by
  intro s stack rest hs _
  rw [renderChars, List.cons_append, List.append_assoc]
  refine (readFrom_cons (by decide) rfl (hs.step (by decide))).trans ?_
  cases vs with
  | nil => exact readFrom_cons (by decide) rfl rfl
  | cons v vs => exact readFrom_items h (.firstItem stack) rest

theorem renderMembers_cons_cons (k : List Mark) (v : Json) (m : List Mark × Json)
    (ms : List (List Mark × Json)) :
    renderMembers ((k, v) :: m :: ms) =
      renderString k ++ ':' :: (renderChars v ++ ',' :: renderMembers (m :: ms)) := by
  rw [renderMembers]
  simp

/-- One member is read: its key, the colon and its value. -/
theorem readFrom_member {k : String} {v : Json} (h : Reads v) {s : State}
    {done : List (List Mark × Json)} {stack : List Frame} (hs : s.AwaitsKey done stack)
    {rest : List Char} (hrest : EndsNumber rest) :
    readFrom s (renderString (marks k) ++ ':' :: (renderChars v ++ rest)) =
      readFrom (.after v (.members done (marks k) :: stack)) rest := by
  refine (readFrom_cons (by decide) (token?_renderString k _) (hs.step _)).trans ?_
  refine (readFrom_cons (by decide) rfl rfl).trans ?_
  exact h (.value _) hrest

/-- The members of an object, under the marks of their names. -/
def members (fields : List (String × Json)) : List (List Mark × Json) :=
  fields.map fun (name, v) => (marks name, v)

/-- The members of an object are read up to the end of it. -/
theorem readFrom_members {f : String × Json} {fs : List (String × Json)}
    (h : ∀ g ∈ f :: fs, Reads g.2) {s : State} {done : List (List Mark × Json)}
    {stack : List Frame} (hs : s.AwaitsKey done stack) (rest : List Char) :
    readFrom s (renderMembers (members (f :: fs)) ++ '\x7d' :: rest) =
      readFrom (.after (.object (done.reverse ++ members (f :: fs))) stack) rest := by
  induction fs generalizing f s done with
  | nil =>
    simp only [members, List.map_cons, List.map_nil, renderMembers, List.append_assoc,
      List.cons_append]
    rw [readFrom_member (h f (by simp)) hs (by simp [EndsNumber])]
    refine (readFrom_cons (by decide) rfl rfl).trans ?_
    simp
  | cons g fs ih =>
    rw [List.forall_mem_cons] at h
    simp only [members, List.map_cons, renderMembers_cons_cons, List.append_assoc,
      List.cons_append] at ih ⊢
    rw [readFrom_member h.1 hs (by simp [EndsNumber])]
    refine (readFrom_cons (by decide) rfl rfl).trans ?_
    simp [ih h.2 (.nextKey _ _)]

theorem reads_record {fields : List (String × Json)} (h : ∀ f ∈ fields, Reads f.2) :
    Reads (record fields) := by
  intro s stack rest hs _
  rw [record, renderChars, List.cons_append, List.append_assoc]
  refine (readFrom_cons (by decide) rfl (hs.step (by decide))).trans ?_
  cases fields with
  | nil => exact readFrom_cons (by decide) rfl rfl
  | cons f fields => exact readFrom_members h (.firstKey stack) rest

/-! ### Whole texts -/

/-- **A value is read back from its compact text.** -/
theorem Reads.parse?_render {v : Json} (h : Reads v) : parse? v.render = some v := by
  have hread : readFrom (.value []) (renderChars v ++ []) = some (.after v []) := by
    rw [h (.value []) (by simp [EndsNumber])]
    simp [readFrom, tokens]
  rw [List.append_nil] at hread
  obtain ⟨ts, hts, hfold⟩ := Option.bind_eq_some_iff.1 hread
  rw [parse?, render, String.toList_ofList, hts]
  simp [hfold, State.result?]

end Json
end RowAsm
