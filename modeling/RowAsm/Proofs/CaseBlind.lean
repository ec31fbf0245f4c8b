import RowAsm.Proofs.Alike

/-!
# Letter case does not matter

Tokens that agree up to case are read alike (`Grammar.alike_same`), so statements that do have one
answer. For texts the same holds of the code, not of the diagnostics, which quote the text: putting
a text in lower case does so with its lexemes (`lexemes_map_toLower`), tokens and statements
(`toOption_statements_lower`), and leaves the code as it is (`toOption_encodeText_lower`).
-/

namespace RowAsm

open Text (same lower)

/-! ### Statements -/

theorem Grammar.alike_same : Grammar.Alike fun s t => same s t = true where
  refl := Text.same_self
  symm := Text.same_comm.1
  value := Literal.value?_of_same
  word h _ hw := Text.same_trans (Text.same_comm.1 h) hw

namespace Encoder

variable {rows : List Row} {e : Encoder}

theorem encode_eq_of_same (he : e.table = .compile rows) {tokens tokens' : List String}
    (h : List.Forall₂ (fun t t' => same t t' = true) tokens tokens') :
    e.encode tokens = e.encode tokens' := by
  refine encode_eq_of_variant he Grammar.alike_same ?_ ?_
  · intro t _ word _ s s' hs hword
    exact Text.same_trans (Text.same_comm.1 hs) hword
  · cases h with
    | nil => exact .nil
    | cons hx hw => exact .cons hx hw

end Encoder

/-! ### Lexemes -/

namespace Text

theorem utf8Size_toLower (c : Char) : c.toLower.utf8Size = c.utf8Size :=
  apply_toLower Char.utf8Size (by decide) c

theorem utf8Len_map_toLower (cs : List Char) :
    String.utf8Len (cs.map Char.toLower) = String.utf8Len cs := by
  induction cs with
  | nil => rfl
  | cons c cs ih =>
    rw [List.map_cons, String.utf8Len_cons, String.utf8Len_cons, ih, utf8Size_toLower]

theorem utf8ByteSize_lower (s : String) : (lower s).utf8ByteSize = s.utf8ByteSize := by
  rw [lower, String.utf8ByteSize_ofList, utf8Len_map_toLower, ← String.utf8ByteSize_ofList,
    String.ofList_toList]

end Text

theorem Position.after_map_toLower (p : Position) (cs : List Char) :
    p.after (cs.map Char.toLower) = p.after cs := by
  induction cs generalizing p with
  | nil => rfl
  | cons c cs ih =>
    have hnext : p.next c.toLower = p.next c := by
      simp only [next, Text.toLower_eq_iff (d := '\n') rfl, Text.utf8Size_toLower]
    rw [List.map_cons, after_cons, after_cons, hnext, ih]

namespace Lexeme

/-- The lexeme in lower case. -/
def lower : Lexeme → Lexeme
  | .comment cs => .comment (cs.map Char.toLower)
  | .word cs => .word (cs.map Char.toLower)
  | .single c => .single c.toLower

theorem chars_lower (x : Lexeme) : x.lower.chars = x.chars.map Char.toLower := by
  cases x <;> rfl

theorem isWordChar_toLower (c : Char) : isWordChar c.toLower = isWordChar c :=
  Text.apply_toLower isWordChar (by decide) c

end Lexeme

open Lexeme in
/-- Lexemes in lower case are those of the text in lower case. -/
theorem lexemes_map_toLower (cs : List Char) :
    lexemes (cs.map Char.toLower) = (lexemes cs).map Lexeme.lower := by
  have hword : isWordChar ∘ Char.toLower = isWordChar := funext isWordChar_toLower
  have hline : (fun c => c != '\n') ∘ Char.toLower = fun c => c != '\n' := by
    funext c
    exact Text.apply_toLower (fun c => c != '\n') (by decide) c
  fun_induction lexemes cs with
  | case1 => simp [lexemes]
  | case2 cs ih =>
    have hmark : Char.toLower '#' = '#' := rfl
    rw [List.map_cons, hmark, lexemes, if_pos rfl, List.takeWhile_map, List.dropWhile_map, hline,
      ih]
    rfl
  | case3 c cs hc hw ih =>
    have hc' : c.toLower ≠ '#' := fun h => hc ((Text.toLower_eq_iff rfl c).1 h)
    rw [List.map_cons, lexemes, if_neg hc', isWordChar_toLower, if_pos hw, List.takeWhile_map,
      List.dropWhile_map, hword, ih]
    rfl
  | case4 c cs hc hw ih =>
    have hc' : c.toLower ≠ '#' := fun h => hc ((Text.toLower_eq_iff rfl c).1 h)
    rw [List.map_cons, lexemes, if_neg hc', isWordChar_toLower, if_neg hw, ih]
    rfl

/-! ### Tokens -/

namespace Token

/-- The token with its text in lower case. -/
def lower (t : Token) : Token := { t with text := Text.lower t.text }

theorem Kind.ofWord?_map_toLower (cs : List Char) :
    Kind.ofWord? (cs.map Char.toLower) = Kind.ofWord? cs := by
  cases cs with
  | nil => rfl
  | cons c cs =>
    have hc : c.toLower.isDigit = c.isDigit := Text.apply_toLower Char.isDigit (by decide) c
    have hv : Literal.value? (String.ofList ((c :: cs).map Char.toLower)) =
        Literal.value? (String.ofList (c :: cs)) := by
      rw [← Literal.value?_lower (String.ofList (c :: cs)), Text.lower, String.toList_ofList]
    rw [List.map_cons] at hv ⊢
    simp only [Kind.ofWord?, hc, hv]

theorem toOption_ofLexeme_lower (p : Position) (x : Lexeme) :
    (ofLexeme p x.lower).toOption = (ofLexeme p x).toOption.map (Option.map lower) := by
  have htext : ∀ cs : List Char, String.ofList (cs.map Char.toLower) =
      Text.lower (String.ofList cs) := by
    intro cs
    rw [Text.lower, String.toList_ofList]
  have hspan : ∀ s : String, p.span (Text.lower s) = p.span s := by
    intro s
    rw [Position.span, Position.span, Text.utf8ByteSize_lower]
  cases x with
  | comment cs => rfl
  | word cs =>
    simp only [Lexeme.lower, ofLexeme, Kind.ofWord?_map_toLower, htext, hspan]
    cases Kind.ofWord? cs <;> rfl
  | single c =>
    have hspace : isSpace c.toLower = isSpace c := Text.apply_toLower isSpace (by decide) c
    have hmark : Kind.ofMark? c.toLower = Kind.ofMark? c :=
      Text.apply_toLower Kind.ofMark? (by decide) c
    have hone : String.ofList [c.toLower] = Text.lower (String.ofList [c]) := htext [c]
    simp only [Lexeme.lower, ofLexeme, hspace, hmark, hone, hspan]
    split
    · rfl
    · cases Kind.ofMark? c <;> rfl

theorem toOption_ofLexemes_cons (p : Position) (x : Lexeme) (xs : List Lexeme) :
    (ofLexemes p (x :: xs)).toOption = (ofLexeme p x).toOption.bind fun t =>
      (ofLexemes (p.after x.chars) xs).toOption.map fun ts => t.toList ++ ts := by
  rw [ofLexemes]
  cases ofLexeme p x with
  | error d => rfl
  | ok t => cases ofLexemes (p.after x.chars) xs <;> rfl

theorem toOption_ofLexemes_lower (p : Position) (xs : List Lexeme) :
    (ofLexemes p (xs.map Lexeme.lower)).toOption =
      (ofLexemes p xs).toOption.map (List.map lower) := by
  induction xs generalizing p with
  | nil => rfl
  | cons x xs ih =>
    rw [List.map_cons, toOption_ofLexemes_cons, toOption_ofLexemes_cons, toOption_ofLexeme_lower,
      Lexeme.chars_lower, Position.after_map_toLower, ih]
    cases (ofLexeme p x).toOption with
    | none => rfl
    | some t =>
      cases (ofLexemes (p.after x.chars) xs).toOption with
      | none => rfl
      | some ts => cases t <;> rfl

end Token

/-- The statements of a text in lower case, if it is well formed. -/
theorem toOption_statements_lower (s : String) :
    (statements (lower s)).toOption =
      (statements s).toOption.map (List.map (List.map Token.lower)) := by
  have htokens : (tokenize (lower s)).toOption =
      (tokenize s).toOption.map (List.map Token.lower) := by
    rw [tokenize, tokenize, Text.toList_lower, lexemes_map_toLower, Token.toOption_ofLexemes_lower]
  have hstatements : ∀ r : Except Diagnostic (List Token),
      (r.map (Text.words Token.isSeparator)).toOption =
        r.toOption.map (Text.words Token.isSeparator) := by
    intro r
    cases r <;> rfl
  rw [statements, statements, hstatements, hstatements, htokens, Option.map_map, Option.map_map]
  congr 1
  funext ts
  exact Text.words_map Token.isSeparator Token.lower ts

/-! ### Texts -/

namespace Encoder

variable {rows : List Row} {e : Encoder}

theorem toOption_encodeStatement_lower (he : e.table = .compile rows) (ts : List Token) :
    (e.encodeStatement (ts.map Token.lower)).toOption = (e.encodeStatement ts).toOption := by
  have hencode : e.encode ((ts.map Token.lower).map Token.text) = e.encode (ts.map Token.text) := by
    apply encode_eq_of_same he
    rw [List.map_map, List.forall₂_map_left_iff, List.forall₂_map_right_iff, List.forall₂_same]
    intro t _
    show same (lower t.text) t.text = true
    rw [Text.same_iff, Text.lower_lower]
  rw [encodeStatement, encodeStatement, hencode, List.length_map]
  split_ifs
  · rfl
  · cases e.encode (ts.map Token.text) with
    | ok i => rfl
    | error halt => cases halt <;> rfl

theorem toOption_encodeStatements_cons (s : List Token) (ss : List (List Token)) :
    (e.encodeStatements (s :: ss)).toOption = (e.encodeStatement s).toOption.bind fun i =>
      (e.encodeStatements ss).toOption.map fun bytes => i.code.bytes ++ bytes := by
  rw [encodeStatements]
  cases e.encodeStatement s with
  | error halt => rfl
  | ok i => cases e.encodeStatements ss <;> rfl

theorem toOption_encodeStatements_lower (he : e.table = .compile rows) (ss : List (List Token)) :
    (e.encodeStatements (ss.map (List.map Token.lower))).toOption =
      (e.encodeStatements ss).toOption := by
  induction ss with
  | nil => rfl
  | cons s ss ih =>
    rw [List.map_cons, toOption_encodeStatements_cons, toOption_encodeStatements_cons, ih,
      toOption_encodeStatement_lower he]

/-- A text in lower case has the same code. -/
theorem toOption_encodeText_lower (he : e.table = .compile rows) (s : String) :
    (e.encodeText (lower s)).toOption = (e.encodeText s).toOption := by
  have hread : (e.readText (lower s)).toOption =
      (e.readText s).toOption.map (List.map (List.map Token.lower)) := by
    rw [readText, readText, Text.utf8ByteSize_lower]
    split_ifs
    · rfl
    · exact toOption_statements_lower s
  have hencode : ∀ s, (e.encodeText s).toOption =
      (e.readText s).toOption.bind fun ss => (e.encodeStatements ss).toOption := by
    intro s
    rw [encodeText]
    cases e.readText s <;> rfl
  rw [hencode, hencode, hread, Option.bind_map]
  congr 1
  funext ss
  exact toOption_encodeStatements_lower he ss

/-- **Encoding is blind to letter case.** Over the table of any rows, with the index or without it,
statements whose tokens agree up to the case of ASCII letters have one answer, and texts that agree
up to case have the same code. -/
theorem encode_blind_to_case (rows : List Row) (settings : Settings) :
    let e : Encoder := { table := .compile rows, settings }
    (∀ tokens tokens', List.Forall₂ (fun t t' => Text.same t t' = true) tokens tokens' →
      e.encode tokens = e.encode tokens') ∧
    ∀ text text', Text.same text text' = true →
      ∀ bytes, e.encodeText text = .ok bytes ↔ e.encodeText text' = .ok bytes := by
  intro e
  refine ⟨fun tokens tokens' => encode_eq_of_same rfl, ?_⟩
  intro text text' hsame bytes
  have hcode : (e.encodeText text).toOption = (e.encodeText text').toOption := by
    rw [← toOption_encodeText_lower rfl text, Text.same_iff.1 hsame, toOption_encodeText_lower rfl]
  have hok : ∀ r : Except (Halt Diagnostic) (List UInt8),
      r = .ok bytes ↔ r.toOption = some bytes := by
    intro r
    cases r with
    | error halt => exact ⟨by rintro ⟨⟩, by rintro ⟨⟩⟩
    | ok b => exact ⟨by rintro ⟨⟩; rfl, by rintro ⟨⟩; rfl⟩
  rw [hok, hok, hcode]

theorem encode_mov_blind_to_case :
    let rows : List Row := [⟨"MOV r/m32, imm32", "C7 /0 id"⟩]
    let e : Encoder := { table := .compile rows }
    List.Forall₂ (fun t t' => Text.same t t' = true) ["mov", "eax", ",", "0x1f"]
        ["MOV", "EaX", ",", "0X1F"] ∧
      e.encode ["mov", "eax", ",", "0x1f"] = e.encode ["MOV", "EaX", ",", "0X1F"] ∧
      Text.same "mov eax, 0x1f" "MOV EaX, 0X1F" = true ∧
      e.encodeText "mov eax, 0x1f" = .ok [0xC7, 0xC0, 0x1F, 0, 0, 0] ∧
      e.encodeText "MOV EaX, 0X1F" = .ok [0xC7, 0xC0, 0x1F, 0, 0, 0] := by
  intro rows e
  obtain ⟨htokens, htext⟩ := encode_blind_to_case rows {}
  have h : List.Forall₂ (fun t t' => Text.same t t' = true) ["mov", "eax", ",", "0x1f"]
      ["MOV", "EaX", ",", "0X1F"] := by
    refine .cons ?_ (.cons ?_ (.cons ?_ (.cons ?_ .nil))) <;> decide +kernel
  have hs : Text.same "mov eax, 0x1f" "MOV EaX, 0X1F" = true := by decide +kernel
  have hcode : e.encodeText "mov eax, 0x1f" = .ok [0xC7, 0xC0, 0x1F, 0, 0, 0] := by
    decide +kernel
  exact ⟨h, htokens _ _ h, hs, hcode, (htext _ _ hs _).1 hcode⟩

end Encoder
end RowAsm
