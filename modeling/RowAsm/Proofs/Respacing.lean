import RowAsm.Proofs.Spelling

/-!
# Texts written anew

`Token.line s` writes a statement with one space between each two of its tokens, and
`Token.page ss` writes statements on a line each. Comments, the old spacing and empty statements are
gone then, but nothing else: every token of a text is one token by itself
(`Token.ofChars?_of_mem_tokens`), so a line reads back as one statement with the same tokens
(`statements_line`) and a page as the same statements (`statements_page`), up to the places of the
tokens (`Token.Agree`).

Encoding looks at the texts of tokens only (`Encoder.encodeStatements_of_agree`). So a text encodes
if and only if its page does, to the same code (`Encoder.encodeText_page`).
-/

namespace RowAsm

/-! ### Lines and pages -/

namespace Token

/-- The statements have the same tokens, maybe in other places. -/
structure Agree (s s' : List Token) : Prop where
  kind : s'.map Token.kind = s.map Token.kind
  text : s'.map Token.text = s.map Token.text

/-- The tokens of a statement with a space between each two of them. -/
def line (s : List Token) : String := Text.join " " (s.map Token.text)

/-- Statements on a line each. -/
def page (ss : List (List Token)) : String := Text.join "\n" (ss.map line)

variable {text : String} {ts : List Token} {t : Token}

/-- **A token of a text is one token by itself**, of the same kind. -/
theorem ofChars?_of_mem_tokens (h : tokenize text = .ok ts) (ht : t ∈ ts) :
    Kind.ofChars? t.text.toList = some t.kind := by
  rcases word_or_mark h ht with ⟨before, d, ds, after, hd, -, -, hstands, hkind⟩ | ⟨d, hd, hmark⟩
  · have hall : (d :: ds).all Lexeme.isWordChar = true := by
      cases hstands with
      | word _ _ hcs _ _ => exact List.all_eq_true.2 hcs
    rw [hd, String.toList_ofList, Kind.ofChars?, if_pos hall, hkind]
  · obtain ⟨-, -, -, hword, -⟩ := Kind.of_ofMark? hmark
    rw [hd, String.toList_ofList, Kind.ofChars?, if_neg (by simp [hword]), if_pos (by rfl), hmark]

theorem Agree.moved {lines bytes : Nat} {s s' : List Token} (h : Agree s s') :
    Agree s (s'.map (moved lines bytes)) := by
  constructor
  · rw [List.map_map, ← h.kind]
    rfl
  · rw [List.map_map, ← h.text]
    rfl

end Token

open Token

variable {text : String} {ss : List (List Token)} {s : List Token}

/-- **A line is one statement with the same tokens.** -/
theorem statements_line (h : statements text = .ok ss) (hs : s ∈ ss) :
    ∃ s', statements (line s) = .ok [s'] ∧ Agree s s' := by
  obtain ⟨ts, hts, rfl⟩ := exists_tokenize_of_statements h
  obtain ⟨hne, hsep⟩ := Text.isWord_of_mem_words hs
  have hchars : List.Forall₂ (fun w k => Kind.ofChars? w.toList = some k) (s.map Token.text)
      (s.map Token.kind) := by
    rw [List.forall₂_map_left_iff, List.forall₂_map_right_iff, List.forall₂_same]
    intro t ht
    exact ofChars?_of_mem_tokens hts (Text.mem_of_mem_fields (Text.mem_words_iff.1 hs).1 ht)
  have hkinds : .separator ∉ s.map Token.kind := by
    intro hm
    obtain ⟨t, ht, hk⟩ := List.mem_map.1 hm
    have ht := hsep t ht
    rw [isSeparator, hk] at ht
    cases ht
  obtain ⟨s', -, hs', htext, hkind⟩ := statements_join hchars (by simpa using hne) hkinds
  exact ⟨s', hs', hkind, htext⟩

/-- **A page has the statements of its lines.** -/
theorem statements_page (h : ∀ s ∈ ss, ∃ s', statements (line s) = .ok [s'] ∧ Agree s s') :
    ∃ ss', statements (page ss) = .ok ss' ∧ List.Forall₂ Agree ss ss' := by
  induction ss with
  | nil => exact ⟨[], by decide +kernel, .nil⟩
  | cons s ss ih =>
    obtain ⟨s', hs', hagree⟩ := h s (by simp)
    obtain ⟨ss', hss', hrest⟩ := ih fun u hu => h u (List.mem_cons_of_mem s hu)
    cases ss with
    | nil =>
      cases hrest
      exact ⟨[s'], hs', .cons hagree .nil⟩
    | cons u ss =>
      -- the other lines are those of a page that starts one line further down
      have hpage : page (s :: u :: ss) = line s ++ "\n" ++ page (u :: ss) := rfl
      have hstatements : statements (page (s :: u :: ss)) = .ok (s' :: ss'.map (List.map
          (moved ((line s).toList.count '\n' + 1) ((line s).utf8ByteSize + 1)))) := by
        rw [hpage, statements_newline, hs', hss']
        rfl
      refine ⟨_, hstatements, .cons hagree ?_⟩
      rw [List.forall₂_map_right_iff]
      exact hrest.imp fun _ _ hu => hu.moved

/-! ### Code -/

namespace Encoder

variable {e : Encoder}

theorem encodeStatements_cons_eq_ok_iff {bytes : List UInt8} :
    e.encodeStatements (s :: ss) = .ok bytes ↔ ∃ i rest, e.encodeStatement s = .ok i ∧
      e.encodeStatements ss = .ok rest ∧ bytes = i.code.bytes ++ rest := by
  rw [encodeStatements]
  cases e.encodeStatement s with
  | error halt => simp
  | ok i =>
    cases e.encodeStatements ss with
    | error halt => simp
    | ok rest => simp [eq_comm]

/-- **The places of tokens do not matter for the code.** -/
theorem encodeStatements_of_agree {ss' : List (List Token)} (h : List.Forall₂ Agree ss ss')
    (bytes : List UInt8) :
    e.encodeStatements ss = .ok bytes ↔ e.encodeStatements ss' = .ok bytes := by
  induction h generalizing bytes with
  | nil => rfl
  | @cons s s' _ _ hs _ ih =>
    have hlen : s'.length = s.length := by simpa using congrArg List.length hs.text
    have hcode : ∀ i, e.encodeStatement s = .ok i ↔ e.encodeStatement s' = .ok i := by
      intro i
      rw [encodeStatement_eq_ok_iff, encodeStatement_eq_ok_iff, hs.text, hlen]
    simp only [encodeStatements_cons_eq_ok_iff, hcode, ih]

/-- **Writing a text anew keeps its statements and its code.** Take a text that reads as the
statements `ss`. The line of each of them reads as one statement, with tokens of the same kinds and
texts. For every encoder, if both the text and the page of the statements are within the limit of
bytes, the text encodes to some code if and only if the page encodes to it. -/
theorem encodeText_page (text : String) (ss : List (List Token)) (h : statements text = .ok ss) :
    (∀ s ∈ ss, ∃ s', statements (line s) = .ok [s'] ∧
      s'.map Token.kind = s.map Token.kind ∧ s'.map Token.text = s.map Token.text) ∧
    ∀ e : Encoder, text.utf8ByteSize ≤ e.settings.maxBytes →
      (page ss).utf8ByteSize ≤ e.settings.maxBytes → ∀ bytes,
        e.encodeText text = .ok bytes ↔ e.encodeText (page ss) = .ok bytes := by
  have hlines := fun s (hs : s ∈ ss) => statements_line h hs
  constructor
  · intro s hs
    obtain ⟨s', hs', hagree⟩ := hlines s hs
    exact ⟨s', hs', hagree.kind, hagree.text⟩
  · intro e htext hpage bytes
    obtain ⟨ss', hss', hagree⟩ := statements_page hlines
    rw [encodeText_eq_of_le htext, encodeText_eq_of_le hpage, h, hss']
    exact encodeStatements_of_agree hagree bytes

/-- Two statements with a comment between them, one of them spread over the line; they are written
on two lines. -/
theorem encodeText_page_push :
    let text := ";push\t-0x10 # µ; x\r\n;; Lea RAX,[rbp]"
    let push : List Token := [⟨.word, "push", ⟨1, 2, 1, 4⟩⟩, ⟨.minus, "-", ⟨1, 7, 6, 1⟩⟩,
      ⟨.number 16, "0x10", ⟨1, 8, 7, 4⟩⟩]
    let lea : List Token := [⟨.word, "Lea", ⟨2, 4, 24, 3⟩⟩, ⟨.word, "RAX", ⟨2, 8, 28, 3⟩⟩,
      ⟨.comma, ",", ⟨2, 11, 31, 1⟩⟩, ⟨.opening, "[", ⟨2, 12, 32, 1⟩⟩,
      ⟨.word, "rbp", ⟨2, 13, 33, 3⟩⟩, ⟨.closing, "]", ⟨2, 16, 36, 1⟩⟩]
    let e : Encoder :=
      { table := .compile [⟨"PUSH imm8", "6A ib"⟩, ⟨"LEA r64, m", "REX.W + 8D /r"⟩] }
    statements text = .ok [push, lea] ∧ page [push, lea] = "push - 0x10\nLea RAX , [ rbp ]" ∧
      (∃ s', statements "Lea RAX , [ rbp ]" = .ok [s'] ∧
        s'.map Token.kind = lea.map Token.kind ∧ s'.map Token.text = lea.map Token.text) ∧
      e.encodeText "push - 0x10\nLea RAX , [ rbp ]" = .ok [0x6A, 0xF0, 0x48, 0x8D, 0x45, 0x00] := by
  intro text push lea e
  have hstatements : statements text = .ok [push, lea] := by decide +kernel
  have hpage : page [push, lea] = "push - 0x10\nLea RAX , [ rbp ]" := by decide +kernel
  have hcode : e.encodeText text = .ok [0x6A, 0xF0, 0x48, 0x8D, 0x45, 0x00] := by decide +kernel
  obtain ⟨hlines, htexts⟩ := encodeText_page text _ hstatements
  have hsame := htexts e (by decide +kernel) (by decide +kernel)
    [0x6A, 0xF0, 0x48, 0x8D, 0x45, 0x00]
  rw [hpage] at hsame
  have hline : line lea = "Lea RAX , [ rbp ]" := by decide +kernel
  exact ⟨hstatements, hpage, hline ▸ hlines lea (by simp), hsame.1 hcode⟩

end Encoder
end RowAsm
