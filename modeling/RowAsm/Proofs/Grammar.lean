import RowAsm.Proofs.Capture
import RowAsm.Proofs.LetterCase

/-!
# The language of a template

Which statements a template describes, said without the readers that match them.

* `Grammar.Number`, `Grammar.Memory` and `Grammar.Phrase` relate tokens to what they denote: a
  number, a memory reference in brackets, an operand of a kind;
* `Grammar.Phrases` relates tokens to the operands that they are, with commas between them;
* `Template.Statement t w vs` says that the tokens `w` are the mnemonic of `t` and its operands, and
  that these denote `vs`. Which registers may stand together is left aside;
* `Grammar.Viable L w` says that some phrase of `L` begins with the tokens `w`.

Every kind of operand that a row can ask for has a phrase (`exists_phrase`), so a statement that is
right so far can be completed.
-/

namespace RowAsm

open Text (same)

/-- The token names the register, up to case, and the register has the width `bits`; the width `0`
admits every one. The instruction pointer is no operand. -/
def Register.Named (r : Register) (bits : Nat) (t : String) : Prop :=
  r ≠ rip ∧ (bits = 0 ∨ r.bits = bits) ∧ same t r.name = true

namespace Grammar

/-- A number of a width: a literal, or a minus sign and a literal. -/
inductive Number (bits : Nat) : List String → Int → Prop
  | plain {t : String} {n : Nat} (ht : Literal.value? t = some n)
      (hn : Word.isSigned bits n = true) : Number bits [t] n
  | negated {t : String} {n : Nat} (ht : Literal.value? t = some n)
      (hn : Word.isSigned bits (-n) = true) : Number bits ["-", t] (-n)

/-- What follows the base of a memory reference: the closing bracket, or a displacement of 32 bits
and the bracket. -/
inductive AfterBase (b : Register) : List String → Place → Prop
  | close : AfterBase b ["]"] (.memory b none)
  | plus {t : String} {n : Nat} (ht : Literal.value? t = some n)
      (hn : Word.isSigned 32 n = true) : AfterBase b ["+", t, "]"] (.memory b (some n))
  | minus {t : String} {n : Nat} (ht : Literal.value? t = some n)
      (hn : Word.isSigned 32 (-n) = true) : AfterBase b ["-", t, "]"] (.memory b (some (-n)))

/-- A memory reference in brackets. -/
inductive Memory : List String → Place → Prop
  | intro {t : String} {b : Register} {w : List String} {p : Place} (hb : b.IsBase)
      (ht : same t b.name = true) (h : AfterBase b w p) : Memory ("[" :: t :: w) p

/-- The two keywords of an access width. -/
def Access (bits : Nat) (t u : String) : Prop :=
  same t (Reader.accessWord bits) = true ∧ same u "ptr" = true

/-- What an operand denotes. -/
inductive Value
  | nothing
  | number (v : Int)
  | register (r : Register)
  | place (p : Place)

/-- An operand of a kind. -/
inductive Phrase : Operand → List String → Value → Prop
  | immediate {bits : Nat} {w : List String} {v : Int} (h : Number bits w v) :
      Phrase (.immediate bits) w (.number v)
  | relative {bits : Nat} {w : List String} {v : Int} (h : Number bits w v) :
      Phrase (.relative bits) w (.number v)
  | fixed {word t : String} (h : same t word = true) : Phrase (.fixed word) [t] .nothing
  | register {bits : Nat} {t : String} {r : Register} (h : r.Named bits t) :
      Phrase (.register bits) [t] (.register r)
  | direct {bits : Nat} {t : String} {r : Register} (h : r.Named bits t) :
      Phrase (.place bits) [t] (.place (.register r))
  | sized {bits : Nat} {t u : String} {w : List String} {p : Place} (ha : Access bits t u)
      (h : Memory w p) : Phrase (.place bits) (t :: u :: w) (.place p)
  | unsized {w : List String} {p : Place} (h : Memory w p) : Phrase .memory w (.place p)
  | anySized {bits : Nat} {t u : String} {w : List String} {p : Place} (hb : IsWidth bits)
      (ha : Access bits t u) (h : Memory w p) : Phrase .memory (t :: u :: w) (.place p)

/-- Operands that each follow a comma. -/
inductive Further : List Operand → List String → List Value → Prop
  | nil : Further [] [] []
  | cons {o : Operand} {os : List Operand} {w w' : List String} {v : Value} {vs : List Value}
      (h : Phrase o w v) (hs : Further os w' vs) :
      Further (o :: os) ("," :: (w ++ w')) (v :: vs)

/-- Operands with commas between them. -/
inductive Phrases : List Operand → List String → List Value → Prop
  | nil : Phrases [] [] []
  | cons {o : Operand} {os : List Operand} {w w' : List String} {v : Value} {vs : List Value}
      (h : Phrase o w v) (hs : Further os w' vs) : Phrases (o :: os) (w ++ w') (v :: vs)

/-- Some phrase begins with these tokens. -/
def Viable {α : Type} (L : List String → α → Prop) (w : List String) : Prop :=
  ∃ rest a, L (w ++ rest) a

/-- What begins a viable list of tokens is viable. -/
theorem Viable.of_append {α : Type} {L : List String → α → Prop} {w w' : List String}
    (h : Viable L (w ++ w')) : Viable L w := by
  obtain ⟨rest, a, ha⟩ := h
  exact ⟨w' ++ rest, a, by rwa [List.append_assoc] at ha⟩

end Grammar

/-- The tokens are a statement of the template, and its operands denote `vs`. -/
def Template.Statement (t : Template) (w : List String) (vs : List Grammar.Value) : Prop :=
  ∃ m w', w = m :: w' ∧ same m t.mnemonic = true ∧ Grammar.Phrases t.operands w' vs

/-- Captures one more operand. -/
def Captures.add (c : Captures) : Grammar.Value → Captures
  | .nothing => c
  | .number v => { c with immediates := c.immediates ++ [v] }
  | .register r => { c with register := some r }
  | .place p => { c with place := some p }

/-! ### Names of registers -/

namespace Register

theorem mem_general {r : Register} (h : r ≠ rip) : r ∈ general := by
  cases r <;> simp_all [general]

theorem mem_all (r : Register) : r ∈ all := by
  by_cases hr : r = rip
  · simp [all, hr]
  · simp [all, mem_general hr]

/-- Registers have different names, all in lower case. -/
theorem name_inj {r r' : Register} (h : r.name = r'.name) : r = r' := by
  have hnodup : (all.map name).Nodup := by decide +kernel
  exact List.inj_on_of_nodup_map hnodup (mem_all r) (mem_all r') h

theorem lower_name (r : Register) : Text.lower r.name = r.name := by
  cases r with
  | r64 i | r32 i | r16 i | low8 i => revert i; decide
  | high8 i => revert i; decide
  | rip => decide

theorem ofName?_eq_some_iff {s : String} {r : Register} :
    ofName? s = some r ↔ r ≠ rip ∧ same s r.name = true := by
  rw [Text.same_iff, lower_name]
  constructor
  · intro h
    have hname : r.name = Text.lower s := by simpa using List.find?_some h
    exact ⟨ne_rip_of_ofName? h, hname.symm⟩
  · rintro ⟨hr, hs⟩
    -- some register is found, and no other one has this name
    have hsome : (ofName? s).isSome = true :=
      List.find?_isSome.2 ⟨r, mem_general hr, by simp [hs]⟩
    obtain ⟨r', hr'⟩ := Option.isSome_iff_exists.1 hsome
    have hname : r'.name = Text.lower s := by simpa using List.find?_some hr'
    rw [hr', name_inj (hname.trans hs)]

theorem withWidth?_eq_some_iff {s : String} {bits : Nat} {r : Register} :
    withWidth? s bits = some r ↔ r.Named bits s := by
  rw [withWidth?, Option.filter_eq_some_iff, ofName?_eq_some_iff, and_assoc]
  simp only [Named, Bool.or_eq_true, beq_iff_eq]
  exact and_congr_right fun _ => and_comm

theorem base?_eq_some_iff {s : String} {r : Register} :
    base? s = some r ↔ same s r.name = true := by
  unfold base?
  split_ifs with h
  · constructor
    · rintro ⟨⟩
      exact h
    · intro hr
      have hname : rip.name = r.name := by
        rw [← lower_name rip, ← lower_name r, ← Text.same_iff.1 h, Text.same_iff.1 hr]
      rw [name_inj hname]
  · rw [ofName?_eq_some_iff]
    constructor
    · exact fun hr => hr.2
    · intro hr
      refine ⟨?_, hr⟩
      rintro rfl
      exact h hr

end Register

/-! ### There are phrases -/

namespace Grammar

theorem number_zero (bits : Nat) : Number bits ["0"] 0 := by
  have hpos : 0 < Word.count (bits - 1) := Nat.pow_pos (by decide)
  refine .plain (n := 0) (by decide) ?_
  simp only [Word.isSigned, Bool.and_eq_true, decide_eq_true_eq]
  omega

theorem exists_named {bits : Nat} (h : bits = 0 ∨ IsWidth bits) :
    ∃ (t : String) (r : Register), r.Named bits t := by
  rcases h with rfl | rfl | rfl | rfl | rfl
  · exact ⟨"rax", .r64 0, by simp, Or.inl rfl, by decide⟩
  · exact ⟨"al", .low8 0, by simp, Or.inr rfl, by decide⟩
  · exact ⟨"ax", .r16 0, by simp, Or.inr rfl, by decide⟩
  · exact ⟨"eax", .r32 0, by simp, Or.inr rfl, by decide⟩
  · exact ⟨"rax", .r64 0, by simp, Or.inr rfl, by decide⟩

theorem exists_memory : ∃ w p, Memory w p :=
  ⟨["[", "rax", "]"], _, .intro (b := .r64 0) (Or.inr rfl) (by decide) .close⟩

/-- Every kind of operand that a row can ask for has a phrase. -/
theorem exists_phrase {o : Operand} (h : o.Sized) : ∃ w v, Phrase o w v := by
  cases o with
  | immediate bits => exact ⟨_, _, .immediate (number_zero bits)⟩
  | relative bits => exact ⟨_, _, .relative (number_zero bits)⟩
  | fixed word => exact ⟨[word], _, .fixed (Text.same_self word)⟩
  | register bits =>
    obtain ⟨t, r, hr⟩ := exists_named h
    exact ⟨[t], _, .register hr⟩
  | place bits =>
    obtain ⟨t, r, hr⟩ := exists_named (Or.inr h)
    exact ⟨[t], _, .direct hr⟩
  | memory =>
    obtain ⟨w, p, hp⟩ := exists_memory
    exact ⟨w, _, .unsized hp⟩

/-- Operands that each have a phrase of a sort can be put together. -/
theorem exists_further_of {os : List Operand} {P : Value → Prop}
    (h : ∀ o ∈ os, ∃ w v, Phrase o w v ∧ P v) : ∃ w vs, Further os w vs ∧ ∀ v ∈ vs, P v := by
  induction os with
  | nil => exact ⟨[], [], .nil, by simp⟩
  | cons o os ih =>
    obtain ⟨w, v, hv, hP⟩ := h o (by simp)
    obtain ⟨w', vs, hvs, hPs⟩ := ih fun o ho => h o (by simp [ho])
    exact ⟨_, _, .cons hv hvs, List.forall_mem_cons.2 ⟨hP, hPs⟩⟩

theorem exists_phrases_of {os : List Operand} {P : Value → Prop}
    (h : ∀ o ∈ os, ∃ w v, Phrase o w v ∧ P v) : ∃ w vs, Phrases os w vs ∧ ∀ v ∈ vs, P v := by
  cases os with
  | nil => exact ⟨[], [], .nil, by simp⟩
  | cons o os =>
    obtain ⟨w, v, hv, hP⟩ := h o (by simp)
    obtain ⟨w', vs, hvs, hPs⟩ := exists_further_of fun o ho => h o (List.mem_cons_of_mem _ ho)
    exact ⟨_, _, .cons hv hvs, List.forall_mem_cons.2 ⟨hP, hPs⟩⟩

theorem exists_further {os : List Operand} (h : ∀ o ∈ os, o.Sized) : ∃ w vs, Further os w vs := by
  obtain ⟨w, vs, hvs, -⟩ := exists_further_of (P := fun _ => True) fun o (ho : o ∈ os) => by
    simpa using exists_phrase (h o ho)
  exact ⟨w, vs, hvs⟩

theorem exists_phrases {os : List Operand} (h : ∀ o ∈ os, o.Sized) :
    ∃ w vs, Phrases os w vs := by
  obtain ⟨w, vs, hvs, -⟩ := exists_phrases_of (P := fun _ => True) fun o (ho : o ∈ os) => by
    simpa using exists_phrase (h o ho)
  exact ⟨w, vs, hvs⟩

end Grammar
end RowAsm
