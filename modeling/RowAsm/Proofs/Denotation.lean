import RowAsm.Proofs.Alike

/-!
# Matching captures what a statement denotes

The captures of a match are collected operand by operand, a later operand of one sort replacing an
earlier one. A compiled template has at most one register and at most one place among its operands,
so nothing is ever replaced: the captures hold the register, the place and the numbers that the
statement denotes, and nothing else (`holds_foldl_add`).

With the language of a template this describes matching completely (`capture_iff_denotes`): a match
succeeds on the statements of the template whose registers may stand together, and captures what
they denote.
-/

namespace RowAsm

namespace Grammar

/-! ### Values by their sort -/

namespace Value

/-- The number that an operand denotes. -/
def number? : Value → Option Int
  | .number v => some v
  | _ => none

/-- The register that an operand denotes. -/
def register? : Value → Option Register
  | .register r => some r
  | _ => none

/-- The place that an operand denotes. -/
def place? : Value → Option Place
  | .place p => some p
  | _ => none

theorem register?_eq_some_iff {v : Value} {r : Register} :
    v.register? = some r ↔ v = .register r := by
  cases v <;> simp [register?]

theorem place?_eq_some_iff {v : Value} {p : Place} : v.place? = some p ↔ v = .place p := by
  cases v <;> simp [place?]

end Value

/-- The kind of an operand decides the sort of what it denotes. -/
theorem Phrase.isSome_eq {o : Operand} {w : List String} {v : Value} (h : Phrase o w v) :
    v.register?.isSome = o.isRegister ∧ v.place?.isSome = o.isPlace := by
  cases h <;> exact ⟨rfl, rfl⟩

theorem Further.countP_eq {ops : List Operand} {w : List String} {vs : List Value}
    (h : Further ops w vs) :
    vs.countP (·.register?.isSome) = ops.countP Operand.isRegister ∧
      vs.countP (·.place?.isSome) = ops.countP Operand.isPlace := by
  induction h with
  | nil => exact ⟨rfl, rfl⟩
  | cons hv hs ih =>
    obtain ⟨hr, hp⟩ := hv.isSome_eq
    simp only [List.countP_cons, ih.1, ih.2, hr, hp, and_self]

theorem Phrases.countP_eq {ops : List Operand} {w : List String} {vs : List Value}
    (h : Phrases ops w vs) :
    vs.countP (·.register?.isSome) = ops.countP Operand.isRegister ∧
      vs.countP (·.place?.isSome) = ops.countP Operand.isPlace := by
  cases h with
  | nil => exact ⟨rfl, rfl⟩
  | cons hv hs => exact (Further.cons hv hs).countP_eq

/-- A register that operands name: a register operand, or the base of a place. -/
def Names (vs : List Value) (r : Register) : Prop :=
  .register r ∈ vs ∨ ∃ p, .place p ∈ vs ∧ p.base = r

end Grammar

open Grammar

/-! ### Captures of values -/

namespace Captures

/-- The captures hold what the operands denote: the register, the place, and the numbers in their
order. -/
structure Holds (c : Captures) (vs : List Value) : Prop where
  register : ∀ r, c.register = some r ↔ .register r ∈ vs
  place : ∀ p, c.place = some p ↔ .place p ∈ vs
  immediates : c.immediates = vs.filterMap Value.number?

theorem immediates_foldl_add (c : Captures) (vs : List Value) :
    (vs.foldl add c).immediates = c.immediates ++ vs.filterMap Value.number? := by
  induction vs generalizing c with
  | nil => simp
  | cons v vs ih =>
    rw [List.foldl_cons, ih, List.filterMap_cons]
    cases v <;> simp [add, Value.number?]

/-- What a fold keeps in a field that items overwrite is written by the last item that writes. -/
theorem foldl_last_write {α β σ : Type} {f : σ → α → σ} {get : σ → Option β} {write : α → Option β}
    (h : ∀ s a, get (f s a) = (write a).or (get s)) (s : σ) (l : List α) :
    get (l.foldl f s) = (l.filterMap write).getLast?.or (get s) := by
  induction l generalizing s with
  | nil => rfl
  | cons a l ih =>
    rw [List.foldl_cons, ih, h, List.filterMap_cons]
    cases write a with
    | none => rfl
    | some b => cases hl : (l.filterMap write).getLast? <;> simp [List.getLast?_cons, hl]

/-- Of at most one item, the last one is the one there is. -/
theorem getLast?_eq_some_iff_mem {α : Type} {l : List α} (h : l.length ≤ 1) {a : α} :
    l.getLast? = some a ↔ a ∈ l := by
  rcases l with _ | ⟨b, _ | ⟨c, l⟩⟩
  · simp
  · simp [eq_comm]
  · simp at h

theorem holds_foldl_add {vs : List Value} (hr : vs.countP (·.register?.isSome) ≤ 1)
    (hp : vs.countP (·.place?.isSome) ≤ 1) : (vs.foldl add empty).Holds vs where
  register r := by
    have hlast : (vs.foldl add empty).register = (vs.filterMap Value.register?).getLast?.or none :=
      foldl_last_write (fun c v => by cases v <;> rfl) empty vs
    rw [hlast, Option.or_none,
      getLast?_eq_some_iff_mem (by rwa [List.length_filterMap_eq_countP]), List.mem_filterMap]
    simp [Value.register?_eq_some_iff]
  place p := by
    have hlast : (vs.foldl add empty).place = (vs.filterMap Value.place?).getLast?.or none :=
      foldl_last_write (fun c v => by cases v <;> rfl) empty vs
    rw [hlast, Option.or_none,
      getLast?_eq_some_iff_mem (by rwa [List.length_filterMap_eq_countP]), List.mem_filterMap]
    simp [Value.place?_eq_some_iff]
  immediates := immediates_foldl_add empty vs

/-- What captures hold, and the length of the statement, are all that there is to them. -/
theorem Holds.eq {c d : Captures} {vs : List Value} (hc : c.Holds vs) (hd : d.Holds vs)
    (hn : c.consumed = d.consumed) : c = d := by
  have hr : c.register = d.register :=
    Option.ext fun r => (hc.register r).trans (hd.register r).symm
  have hp : c.place = d.place := Option.ext fun p => (hc.place p).trans (hd.place p).symm
  have hi : c.immediates = d.immediates := hc.immediates.trans hd.immediates.symm
  cases c
  cases d
  simp_all

theorem Holds.mem_registers_iff {c : Captures} {vs : List Value} (h : c.Holds vs) {r : Register} :
    r ∈ c.registers ↔ Names vs r := by
  simp only [registers, List.mem_append, Option.mem_toList, Option.map_eq_some_iff, h.register,
    h.place, Names]

end Captures

/-! ### Matching -/

namespace Template

/-- The registers that operands name may stand together in a statement of the template: none of
`ah`, `ch`, `dh`, `bh` beside a REX byte, which the template or another register asks for. -/
def Compatible (t : Template) (vs : List Value) : Prop :=
  ¬ ((∃ r, Names vs r ∧ r.isHighByte = true) ∧
    (t.hasRex = true ∨ ∃ r, Names vs r ∧ (r.isExtended = true ∨ r.needsRex = true)))

theorem conflicts_eq_false_iff {t : Template} {c : Captures} {vs : List Value} (h : c.Holds vs) :
    t.conflicts c = false ↔ t.Compatible vs := by
  rw [← Bool.not_eq_true, Compatible, not_iff_not]
  simp only [conflicts, Captures.hasHighByte, Captures.needsRex, Bool.and_eq_true, Bool.or_eq_true,
    List.any_eq_true, h.mem_registers_iff]

/-- **A match succeeds on the statements of a template and captures what they denote.** For the
template of any row and any tokens, there is a match if and only if the tokens are the mnemonic and
the operands of the template, with commas between them, and the registers that the operands name may
stand together. The captures then hold the register, the place and the numbers that the operands
denote, with the values that are written, and count all tokens. -/
theorem capture_iff_denotes (row : Row) (t : Template) (h : row.compile = .ok t)
    (tokens : List String) (c : Captures) :
    t.capture tokens = .ok c ↔ ∃ vs, t.Statement tokens vs ∧ t.Compatible vs ∧ c.Holds vs ∧
      c.consumed = tokens.length := by
  have hwf := Row.wellFormed_of_compile h
  have hholds : ∀ vs, t.Statement tokens vs →
      Captures.Holds { vs.foldl Captures.add .empty with consumed := tokens.length } vs := by
    rintro vs ⟨_, _, -, -, hvs⟩
    obtain ⟨hr, hp⟩ := hvs.countP_eq
    have hfold := Captures.holds_foldl_add (hr.trans_le hwf.agree.registers_le)
      (hp.trans_le hwf.agree.places_le)
    exact ⟨hfold.register, hfold.place, hfold.immediates⟩
  rw [capture_eq_ok_iff hwf]
  constructor
  · rintro ⟨vs, hvs, hconflict, rfl⟩
    exact ⟨vs, hvs, (conflicts_eq_false_iff (hholds vs hvs)).1 hconflict, hholds vs hvs, rfl⟩
  · rintro ⟨vs, hvs, hcompatible, hc, hn⟩
    exact ⟨vs, hvs, (conflicts_eq_false_iff (hholds vs hvs)).2 hcompatible,
      hc.eq (hholds vs hvs) hn⟩

/-- The least number of 64 bits beside a register with a REX byte of its own. -/
theorem capture_mov_iff_denotes :
    let row : Row := ⟨"MOV r64, imm64", "REX.W + B8+rd io"⟩
    let t : Template :=
      ⟨"mov", [.register 64, .immediate 64], [.rex true, .fill 0xB8, .immediate 64], false⟩
    let tokens := ["Mov", "R9", ",", "-", "0x8000000000000000"]
    let c : Captures := ⟨some (.r64 9), none, [-2 ^ 63], 5⟩
    row.compile = .ok t ∧ t.capture tokens = .ok c ∧
      ∃ vs, t.Statement tokens vs ∧ t.Compatible vs ∧ c.Holds vs ∧ c.consumed = tokens.length := by
  intro row t tokens c
  have hrow : row.compile = .ok t := by decide +kernel
  have hc : t.capture tokens = .ok c := by decide +kernel
  exact ⟨hrow, hc, (capture_iff_denotes row t hrow tokens c).1 hc⟩

end Template
end RowAsm
