import RowAsm.Proofs.Alike
import RowAsm.Proofs.OperandKinds

/-!
# Only the value of a literal matters

A literal can be written in four radices, in either case and with any number of leading zeros. No
register, keyword or mark is a literal, so a template that reads one takes its value and nothing
else (`Grammar.alike_sameValue`). The exception are the fixed operands `0`, `1` and `3`, which are
compared as words. They are the only ones that are literals (`Operand.value?_of_fixed`), and a
template that has one is of no account for a statement with another mnemonic.

So replacing literals by others of the same value leaves the answer of the encoder as it is
(`Encoder.encode_reads_values_only`): its code, or the place where it stops.
-/

namespace RowAsm

open Text (same)
open Grammar

/-- The tokens are the same, or they are literals of one value. -/
def Literal.SameValue (s t : String) : Prop :=
  s = t ∨ ∃ n, Literal.value? s = some n ∧ Literal.value? t = some n

namespace Grammar

/-- A word that is no literal agrees with no literal. -/
theorem same_of_sameValue {s t word : String} (h : Literal.SameValue s t)
    (hword : Literal.value? word = none) (hs : same s word = true) : same t word = true := by
  rcases h with rfl | ⟨n, hn, -⟩
  · exact hs
  · rw [Literal.value?_of_same hs, hword] at hn
    cases hn

theorem alike_sameValue : Alike Literal.SameValue where
  refl s := Or.inl rfl
  symm h := h.imp Eq.symm fun ⟨n, hs, ht⟩ => ⟨n, ht, hs⟩
  value h := by
    rcases h with rfl | ⟨n, hs, ht⟩
    · rfl
    · rw [hs, ht]
  word h hword hs := same_of_sameValue h hword hs

end Grammar

/-- The fixed operands that are literals. -/
def Operand.numerals : List String := ["0", "1", "3"]

theorem Operand.value?_of_fixed {word : String} (h : .fixed word ∈ kinds)
    (hword : word ∉ numerals) : Literal.value? word = none := by
  have hall : kinds.all (fun
      | .fixed word => word ∈ numerals ∨ Literal.value? word = none
      | _ => true) = true := by
    decide +kernel
  simpa [hword] using List.all_eq_true.1 hall _ h

namespace Template

variable {t : Template} {m : String} {ts ts' : List String}

/-- A statement with another mnemonic is refused as a whole. -/
theorem capture_of_not_same (h : same m t.mnemonic = false) :
    t.capture (m :: ts) = Reader.refuse .instruction (m :: ts) := by
  rw [capture, Reader.expect, h]
  rfl

/-- Matching takes the values of literals, if no fixed operand is one. -/
theorem capture_eq_of_sameValue (ht : t.WellFormed) (hkinds : ∀ o ∈ t.operands, o ∈ Operand.kinds)
    (hnumerals : ∀ word ∈ Operand.numerals, .fixed word ∉ t.operands)
    (h : List.Forall₂ Literal.SameValue ts ts') : t.capture (m :: ts) = t.capture (m :: ts') := by
  have hrespects : Respects Literal.SameValue t.operands := by
    intro word hmem s s' hs hsame
    have hword : word ∉ Operand.numerals := fun hword => hnumerals word hword hmem
    exact same_of_sameValue hs (Operand.value?_of_fixed (hkinds _ hmem) hword) hsame
  exact capture_eq_of_variant ht alike_sameValue hrespects (.cons (Text.same_self m) h)

end Template

namespace Encoder

/-- **Only the value of a literal matters.** Take the table of any rows, with the index or without
it, and a first token that is the mnemonic of no template with one of the fixed operands `0`, `1`
and `3`. Statements that differ after it only in the writing of literals have one answer, be it code
or a refusal. -/
theorem encode_reads_values_only (rows : List Row) (settings : Settings) (m : String)
    (ts ts' : List String)
    (hm : ∀ t ∈ (Table.compile rows).templates, same m t.mnemonic = true →
      ∀ word ∈ Operand.numerals, .fixed word ∉ t.operands)
    (h : List.Forall₂ Literal.SameValue ts ts') :
    let e : Encoder := { table := .compile rows, settings }
    e.encode (m :: ts) = e.encode (m :: ts') := by
  intro e
  have hlen : (m :: ts).length = (m :: ts').length := by
    rw [List.length_cons, List.length_cons, h.length_eq]
  refine encode_eq_of_capture_eq rfl hlen fun t ht => ?_
  obtain ⟨row, -, hrow⟩ := Table.exists_row ht
  cases hsame : same m t.mnemonic with
  | false =>
    rw [Template.capture_of_not_same hsame, Template.capture_of_not_same hsame, Reader.refuse,
      Reader.refuse, hlen]
  | true =>
    exact Template.capture_eq_of_sameValue (Row.wellFormed_of_compile hrow)
      (fun o ho => Row.mem_kinds_of_compile hrow ho) (hm t ht hsame) h

/-- Another template of the table has a fixed operand `1`; a displacement, a number and a token too
many are read alike. -/
theorem encode_mov_reads_values_only :
    let rows : List Row := [⟨"SHL r/m32, 1", "D1 /4"⟩, ⟨"MOV r/m32, imm32", "C7 /0 id"⟩]
    let e : Encoder := { table := .compile rows }
    let ts := ["dword", "ptr", "[", "rcx", "+", "16", "]", ",", "1"]
    let ts' := ["dword", "ptr", "[", "rcx", "+", "0x10", "]", ",", "0b0001"]
    (∀ t ∈ (Table.compile rows).templates, same "mov" t.mnemonic = true →
      ∀ word ∈ Operand.numerals, .fixed word ∉ t.operands) ∧
    List.Forall₂ Literal.SameValue ts ts' ∧
    e.encode ("mov" :: ts) = e.encode ("mov" :: ts') ∧
    (e.encode ("mov" :: ts)).toOption.map (fun i => i.code.bytes) =
      some [0xC7, 0x41, 0x10, 1, 0, 0, 0] ∧
    e.encode ("mov" :: ts ++ ["8"]) = e.encode ("mov" :: ts' ++ ["0O10"]) := by
  intro rows e ts ts'
  have hm : ∀ t ∈ (Table.compile rows).templates, same "mov" t.mnemonic = true →
      ∀ word ∈ Operand.numerals, .fixed word ∉ t.operands := by decide +kernel
  have hsixteen : Literal.SameValue "16" "0x10" := Or.inr ⟨16, by decide, by decide⟩
  have hone : Literal.SameValue "1" "0b0001" := Or.inr ⟨1, by decide, by decide⟩
  have height : Literal.SameValue "8" "0O10" := Or.inr ⟨8, by decide, by decide⟩
  have hself : ∀ s, Literal.SameValue s s := alike_sameValue.refl
  have h : List.Forall₂ Literal.SameValue ts ts' := by
    simp only [ts, ts', List.forall₂_cons, List.forall₂_nil_left_iff, and_true]
    exact ⟨hself _, hself _, hself _, hself _, hself _, hsixteen, hself _, hself _, hone⟩
  have hlong : List.Forall₂ Literal.SameValue (ts ++ ["8"]) (ts' ++ ["0O10"]) :=
    List.rel_append h (.cons height .nil)
  exact ⟨hm, h, encode_reads_values_only rows {} "mov" ts ts' hm h, by decide +kernel,
    encode_reads_values_only rows {} "mov" _ _ hm hlong⟩

/-- Beside a fixed operand `1` the writing matters. -/
example :
    let e : Encoder := { table := .compile [⟨"SHL r/m32, 1", "D1 /4"⟩] }
    (e.encode ["shl", "eax", ",", "1"]).isOk = true ∧
      (e.encode ["shl", "eax", ",", "0x1"]).isOk = false := by
  decide +kernel

end Encoder
end RowAsm
