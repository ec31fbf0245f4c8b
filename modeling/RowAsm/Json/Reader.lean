import RowAsm.Json.Basic

/-!
# Reading JSON

* `Json.tokens cs` cuts a text into tokens. Blanks are space, tab, newline and carriage return; a
  number has no leading zeros and no plus sign; a string has no control characters.
* `Json.State.step` takes one token. A state holds the containers that are open, so a whole text is
  read by stepping through its tokens once, whatever its depth.
* `Json.parse? s` reads a text that is one value.
-/

namespace RowAsm
namespace Json

/-- A token of a JSON text. -/
inductive Token
  | openArray
  | closeArray
  | openObject
  | closeObject
  | comma
  | colon
  | null
  | bool (b : Bool)
  | number (text : List Char)
  | string (marks : List Mark)
  deriving DecidableEq, Repr

/-! ### Tokens -/

/-- The value of four hexadecimal digits. -/
def codeUnit? (a b c d : Char) : Option Nat := Text.numeral 16 [a, b, c, d]

/-- The character of a short escape. -/
def shortEscape? : Char → Option Char
  | '"' => some '"'
  | '\\' => some '\\'
  | '/' => some '/'
  | 'b' => some '\x08'
  | 'f' => some '\x0c'
  | 'n' => some '\n'
  | 'r' => some '\r'
  | 't' => some '\t'
  | _ => none

/-- Puts a mark before what a string reader gave. -/
def addMark (m : Mark) : Option (List Mark × List Char) → Option (List Mark × List Char) :=
  Option.map fun (ms, rest) => (m :: ms, rest)

/-- Reads a string after its opening quote, up to and including the closing one. -/
def stringBody : List Char → Option (List Mark × List Char)
  | [] => none
  | '"' :: cs => some ([], cs)
  | '\\' :: 'u' :: a :: b :: c :: d :: cs =>
    match codeUnit? a b c d with
    | some n => addMark (.ofUnit n) (stringBody cs)
    | none => none
  | '\\' :: e :: cs =>
    match shortEscape? e with
    | some c => addMark (.char c) (stringBody cs)
    | none => none
  | c :: cs =>
    if c = '\\' || c.toNat < 0x20 then none else addMark (.char c) (stringBody cs)

/-- A run of digits and what follows it. -/
def digits (cs : List Char) : List Char × List Char :=
  (cs.takeWhile Char.isDigit, cs.dropWhile Char.isDigit)

/-- Reads the digits of a whole number, which has no leading zeros. -/
def whole (cs : List Char) : Option (List Char × List Char) :=
  match digits cs with
  | ([], _) => none
  | ('0' :: _ :: _, _) => none
  | (ds, rest) => some (ds, rest)

/-- Reads the fraction of a number, if there is one. -/
def fraction : List Char → Option (List Char × List Char)
  | '.' :: cs =>
    match digits cs with
    | ([], _) => none
    | (ds, rest) => some ('.' :: ds, rest)
  | cs => some ([], cs)

/-- Reads the sign of an exponent, if there is one. -/
def exponentSign : List Char → List Char × List Char
  | '+' :: cs => (['+'], cs)
  | '-' :: cs => (['-'], cs)
  | cs => ([], cs)

/-- Reads the exponent of a number, if there is one. -/
def exponent : List Char → Option (List Char × List Char)
  | [] => some ([], [])
  | e :: cs =>
    if e = 'e' || e = 'E' then
      let (sign, cs) := exponentSign cs
      match digits cs with
      | ([], _) => none
      | (ds, rest) => some (e :: (sign ++ ds), rest)
    else some ([], e :: cs)

/-- Reads a number without its minus sign. -/
def magnitude (cs : List Char) : Option (List Char × List Char) := do
  let (ds, cs) ← whole cs
  let (fs, cs) ← fraction cs
  let (es, cs) ← exponent cs
  some (ds ++ fs ++ es, cs)

/-- Reads a number. -/
def numeral : List Char → Option (List Char × List Char)
  | '-' :: cs => (magnitude cs).map fun (ds, rest) => ('-' :: ds, rest)
  | cs => magnitude cs

/-- Reads the token at the start of a text that starts with no blank. -/
def token? : List Char → Option (Token × List Char)
  | '[' :: cs => some (.openArray, cs)
  | ']' :: cs => some (.closeArray, cs)
  | '\x7b' :: cs => some (.openObject, cs)
  | '\x7d' :: cs => some (.closeObject, cs)
  | ',' :: cs => some (.comma, cs)
  | ':' :: cs => some (.colon, cs)
  | '"' :: cs => (stringBody cs).map fun (ms, rest) => (.string ms, rest)
  | 'n' :: 'u' :: 'l' :: 'l' :: cs => some (.null, cs)
  | 't' :: 'r' :: 'u' :: 'e' :: cs => some (.bool true, cs)
  | 'f' :: 'a' :: 'l' :: 's' :: 'e' :: cs => some (.bool false, cs)
  | cs => (numeral cs).map fun (text, rest) => (.number text, rest)

/-- The blanks of a JSON text. -/
def isBlank (c : Char) : Bool := c == ' ' || c == '\n' || c == '\t' || c == '\r'

/-! ### Every token takes a character -/

theorem length_stringBody_le {cs rest : List Char} {ms : List Mark}
    (h : stringBody cs = some (ms, rest)) : rest.length ≤ cs.length := by
  fun_induction stringBody cs generalizing ms rest with
  | case2 cs => simp_all
  | case3 a b c d cs n hn ih | case5 e cs _ c hc ih | case8 c cs _ _ _ _ ih =>
    obtain ⟨⟨ms', rest'⟩, h', he⟩ := Option.map_eq_some_iff.1 h
    cases he
    have := ih h'
    simp only [List.length_cons]
    omega
  | case1 | case4 | case6 | case7 => simp at h

theorem length_digits_le (cs : List Char) : (digits cs).2.length ≤ cs.length :=
  (List.dropWhile_sublist _).length_le

theorem length_whole_lt {cs ds rest : List Char} (h : whole cs = some (ds, rest)) :
    rest.length < cs.length := by
  have hl : (digits cs).1.length + (digits cs).2.length = cs.length := by
    rw [← List.length_append]
    exact congrArg List.length List.takeWhile_append_dropWhile
  unfold whole at h
  split at h
  · simp at h
  · simp at h
  · next hne _ hd =>
    simp only [Option.some.injEq, Prod.mk.injEq] at h
    rw [h.1, h.2] at hd
    rw [hd] at hl
    have : 0 < ds.length := List.length_pos_iff.2 fun he => hne (h.1.trans he)
    simp only at hl
    omega

theorem length_fraction_le {cs fs rest : List Char} (h : fraction cs = some (fs, rest)) :
    rest.length ≤ cs.length := by
  unfold fraction at h
  split at h
  · next cs =>
    have hl := length_digits_le cs
    split at h
    · simp at h
    · next hd =>
      simp only [Option.some.injEq, Prod.mk.injEq] at h
      rw [hd] at hl
      rw [← h.2, List.length_cons]
      exact Nat.le_succ_of_le hl
  · simp only [Option.some.injEq, Prod.mk.injEq] at h
    exact Nat.le_of_eq (congrArg List.length h.2.symm)

theorem length_exponentSign_le (cs : List Char) : (exponentSign cs).2.length ≤ cs.length := by
  unfold exponentSign
  split <;> simp

theorem length_exponent_le {cs es rest : List Char} (h : exponent cs = some (es, rest)) :
    rest.length ≤ cs.length := by
  unfold exponent at h
  split at h
  · simp_all
  · next e cs =>
    split at h
    · have hs := length_exponentSign_le cs
      have hl := length_digits_le (exponentSign cs).2
      simp only at h
      split at h
      · simp at h
      · next hd =>
        simp only [Option.some.injEq, Prod.mk.injEq] at h
        rw [hd] at hl
        rw [← h.2, List.length_cons]
        exact Nat.le_succ_of_le (Nat.le_trans hl hs)
    · simp only [Option.some.injEq, Prod.mk.injEq] at h
      exact Nat.le_of_eq (congrArg List.length h.2.symm)

theorem length_magnitude_lt {cs ds rest : List Char} (h : magnitude cs = some (ds, rest)) :
    rest.length < cs.length := by
  obtain ⟨⟨w, cs₁⟩, h₁, h⟩ := Option.bind_eq_some_iff.1 h
  obtain ⟨⟨f, cs₂⟩, h₂, h⟩ := Option.bind_eq_some_iff.1 h
  obtain ⟨⟨e, cs₃⟩, h₃, h⟩ := Option.bind_eq_some_iff.1 h
  cases h
  exact Nat.lt_of_le_of_lt (length_exponent_le h₃)
    (Nat.lt_of_le_of_lt (length_fraction_le h₂) (length_whole_lt h₁))

theorem length_numeral_lt {cs ds rest : List Char} (h : numeral cs = some (ds, rest)) :
    rest.length < cs.length := by
  unfold numeral at h
  split at h
  · obtain ⟨⟨ds', rest'⟩, h', he⟩ := Option.map_eq_some_iff.1 h
    cases he
    exact Nat.lt_succ_of_lt (length_magnitude_lt h')
  · exact length_magnitude_lt h

theorem length_token?_lt {cs rest : List Char} {t : Token} (h : token? cs = some (t, rest)) :
    rest.length < cs.length := by
  unfold token? at h
  split at h
  case h_7 =>
    obtain ⟨⟨ms, rest'⟩, h', he⟩ := Option.map_eq_some_iff.1 h
    cases he
    exact Nat.lt_succ_of_le (length_stringBody_le h')
  case h_11 =>
    obtain ⟨⟨ds, rest'⟩, h', he⟩ := Option.map_eq_some_iff.1 h
    cases he
    exact length_numeral_lt h'
  all_goals
    simp only [Option.some.injEq, Prod.mk.injEq] at h
    rw [← h.2]
    simp only [List.length_cons]
    omega

/-- The tokens of a text. -/
def tokens : List Char → Option (List Token)
  | [] => some []
  | c :: cs =>
    if isBlank c then tokens cs
    else
      match _h : token? (c :: cs) with
      | none => none
      | some (t, rest) =>
        match tokens rest with
        | none => none
        | some ts => some (t :: ts)
termination_by cs => cs.length
decreasing_by
  · simp
  · exact length_token?_lt _h

/-! ### Values -/

/-- A container that is open: the items of an array so far, or the members of an object so far and
the key of the value to come. The last one read comes first. -/
inductive Frame
  | items (done : List Json)
  | members (done : List (List Mark × Json)) (key : List Mark)

/-- What is due next, inside the containers that are open. -/
inductive State
  /-- A value. -/
  | value (stack : List Frame)
  /-- A value or the end of the array that was just opened. -/
  | firstItem (stack : List Frame)
  /-- A key or the end of the object that was just opened. -/
  | firstKey (stack : List Frame)
  /-- A key of an object that has members already. -/
  | nextKey (done : List (List Mark × Json)) (stack : List Frame)
  /-- The colon after a key. -/
  | colon (done : List (List Mark × Json)) (key : List Mark) (stack : List Frame)
  /-- What follows a value: a comma or the end of the container, or nothing. -/
  | after (v : Json) (stack : List Frame)

namespace State

/-- Takes the first token of a value. -/
def beginValue (stack : List Frame) : Token → Option State
  | .null => some (.after .null stack)
  | .bool b => some (.after (.bool b) stack)
  | .number text => some (.after (.number text) stack)
  | .string ms => some (.after (.string ms) stack)
  | .openArray => some (.firstItem stack)
  | .openObject => some (.firstKey stack)
  | _ => none

/-- Takes one token. -/
def step : State → Token → Option State
  | .value stack, t => beginValue stack t
  | .firstItem stack, .closeArray => some (.after (.array []) stack)
  | .firstItem stack, t => beginValue (.items [] :: stack) t
  | .firstKey stack, .closeObject => some (.after (.object []) stack)
  | .firstKey stack, .string k => some (.colon [] k stack)
  | .nextKey done stack, .string k => some (.colon done k stack)
  | .colon done k stack, .colon => some (.value (.members done k :: stack))
  | .after v (.items done :: stack), .comma => some (.value (.items (v :: done) :: stack))
  | .after v (.items done :: stack), .closeArray =>
    some (.after (.array (v :: done).reverse) stack)
  | .after v (.members done k :: stack), .comma => some (.nextKey ((k, v) :: done) stack)
  | .after v (.members done k :: stack), .closeObject =>
    some (.after (.object ((k, v) :: done).reverse) stack)
  | _, _ => none

/-- The value of a state in which nothing is open. -/
def result? : State → Option Json
  | .after v [] => some v
  | _ => none

end State

/-- Reads a text that is one value, with blanks around it. -/
def parse? (s : String) : Option Json := do
  let ts ← tokens s.toList
  let state ← ts.foldlM State.step (.value [])
  state.result?

end Json
end RowAsm
