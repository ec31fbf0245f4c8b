import RowAsm.Match.Basic
import RowAsm.Proofs.Compile

/-!
# What a match captures

Every reader is described by one statement, `Reader.Keeps ts rest P a`: on the tokens `ts` its
answer `a` is no fault; a result satisfies `P` and leaves a suffix of the tokens; a refusal counts
at most all of them. The readers of registers, numbers and memory are described first, then one
operand (`keeps_readOperand`), then all operands of a template (`keeps_readOperands`).

`Captures.Fit ops caps` says that the captures are operands of the kinds `ops`. A match with a well
formed template never faults (`capture_ne_fault`), its captures fit the operands of the template and
bring no REX byte beside a high byte (`fit_of_capture`), and a refusal counts at most the tokens of
the statement (`remaining_le_of_capture`).
-/

namespace RowAsm

/-! ### Registers and numbers -/

namespace Register

/-- The registers that may be a memory base. -/
def IsBase (r : Register) : Prop := r.bits = 32 ∨ r.bits = 64

theorem ne_rip_of_ofName? {s : String} {r : Register} (h : ofName? s = some r) : r ≠ rip := by
  have hr := List.mem_of_find?_eq_some h
  rintro rfl
  simp [general] at hr

theorem of_withWidth? {s : String} {bits : Nat} {r : Register} (h : withWidth? s bits = some r) :
    r ≠ rip ∧ (bits = 0 ∨ r.bits = bits) := by
  obtain ⟨hn, hw⟩ := Option.filter_eq_some_iff.1 h
  refine ⟨ne_rip_of_ofName? hn, ?_⟩
  simpa using hw

end Register

namespace Word

theorem signed64_of_isSigned {bits : Nat} {v : Int} (hb : bits ≤ 64) (h : isSigned bits v = true) :
    signed64 v = v := by
  simp only [isSigned, Bool.and_eq_true, decide_eq_true_eq] at h
  have hle : count (bits - 1) ≤ count 63 := Nat.pow_le_pow_right (by omega) (by omega)
  have h63 : count 63 = 9223372036854775808 := by decide
  rw [signed64, show count 64 = 18446744073709551616 by decide]
  apply Int.bmod_eq_of_le <;> omega

end Word

theorem IsWidth.fits {bits : Nat} (h : IsWidth bits) (v : Int) :
    Reader.fits bits v = .ok (Word.isSigned bits v) := by
  rcases h with rfl | rfl | rfl | rfl <;> rfl

theorem IsWidth.le {bits : Nat} (h : IsWidth bits) : bits ≤ 64 := by
  rcases h with rfl | rfl | rfl | rfl <;> decide

/-! ### Readers -/

namespace Reader

/-- What a reader keeps to on the tokens `ts`. -/
def Keeps {α : Type} (ts : List String) (rest : α → List String) (P : α → Prop) : Answer α → Prop
  | .ok a => P a ∧ rest a <:+ ts
  | .error (.refused m) => m.remaining ≤ ts.length
  | .error (.fault _) => False

variable {α : Type} {ts us : List String} {rest : α → List String} {P : α → Prop}

theorem keeps_refuse (kind : Mismatch.Kind) (h : us <:+ ts) :
    Keeps ts rest P (refuse kind us) := h.length_le

/-- What is kept to on a suffix is kept to on the whole. -/
theorem Keeps.of_suffix {a : Answer α} (h : Keeps us rest P a) (hs : us <:+ ts) :
    Keeps ts rest P a := by
  rcases a with (m | f) | a
  · exact le_trans (show m.remaining ≤ us.length from h) hs.length_le
  · exact h
  · exact ⟨h.1, h.2.trans hs⟩

/-- An answer that goes on after another one: it passes refusals on, and what it does after a result
is kept to on the rest. -/
theorem Keeps.andThen {β : Type} {rest' : β → List String} {Q : β → Prop} {x : Answer α}
    {a : Answer β} (hx : Keeps ts rest P x) (he : ∀ e, x = .error e → a = .error e)
    (ho : ∀ b, x = .ok b → P b → Keeps (rest b) rest' Q a) : Keeps ts rest' Q a := by
  rcases x with (m | f) | b
  · rw [he _ rfl]
    exact hx
  · exact hx.elim
  · exact (ho b rfl hx.1).of_suffix hx.2

theorem keeps_expect (word : String) (kind : Mismatch.Kind) (ts : List String) :
    Keeps ts id (fun _ => True) (expect word kind ts) := by
  cases ts with
  | nil => exact keeps_refuse kind (List.suffix_refl _)
  | cons t ts =>
    rw [expect]
    split_ifs
    · exact ⟨trivial, List.suffix_cons t ts⟩
    · exact keeps_refuse kind (List.suffix_refl _)

theorem keeps_register (bits : Nat) (ts : List String) :
    Keeps ts Prod.snd (fun a => a.1 ≠ .rip ∧ (bits = 0 ∨ a.1.bits = bits)) (register bits ts) := by
  cases ts with
  | nil => exact keeps_refuse _ (List.suffix_refl _)
  | cons t ts =>
    rw [register]
    split
    · rename_i r hr
      exact ⟨Register.of_withWidth? hr, List.suffix_cons t ts⟩
    · exact keeps_refuse _ (List.suffix_refl _)

theorem keeps_magnitude (negative : Bool) {bits : Nat} (hb : IsWidth bits) (ts : List String) :
    Keeps ts Prod.snd (fun a => Word.isSigned bits a.1 = true) (magnitude negative bits ts) := by
  cases ts with
  | nil => exact keeps_refuse _ (List.suffix_refl _)
  | cons t ts =>
    rw [magnitude]
    split
    · exact keeps_refuse _ (List.suffix_refl _)
    · rename_i n _
      simp only [hb.fits]
      cases hv : Word.isSigned bits (if negative = true then -(n : Int) else n) with
      | true =>
        -- a number of at most 64 bits is kept as it is, so it still has its width
        refine ⟨?_, List.suffix_cons t ts⟩
        simpa only [Word.signed64_of_isSigned hb.le hv] using hv
      | false => exact keeps_refuse _ (List.suffix_refl _)

theorem keeps_number {bits : Nat} (hb : IsWidth bits) (ts : List String) :
    Keeps ts Prod.snd (fun a => Word.isSigned bits a.1 = true) (number bits ts) := by
  cases ts with
  | nil => exact keeps_refuse _ (List.suffix_refl _)
  | cons t ts =>
    rw [number]
    split_ifs
    · exact (keeps_magnitude true hb ts).of_suffix (List.suffix_cons t ts)
    · exact keeps_magnitude false hb (t :: ts)

/-! ### Memory -/

/-- Memory at a base register, with a displacement of 32 bits if there is one. -/
def IsMemory (p : Place) : Prop :=
  ∃ b d, p = .memory b d ∧ b.IsBase ∧ ∀ v, d = some v → Word.isSigned 32 v = true

theorem keeps_base (ts : List String) :
    Keeps ts Prod.snd (fun a => a.1.IsBase) (base ts) := by
  cases ts with
  | nil => exact keeps_refuse _ (List.suffix_refl _)
  | cons t ts =>
    rw [base]
    split
    · rename_i r hr
      refine ⟨?_, List.suffix_cons t ts⟩
      simpa [Register.IsBase] using (Option.filter_eq_some_iff.1 hr).2
    · exact keeps_refuse _ (List.suffix_refl _)

theorem keeps_offset {b : Register} (hb : b.IsBase) (negative : Bool) (ts : List String) :
    Keeps ts Prod.snd (fun a => IsMemory a.1) (offset b negative ts) := by
  cases ts with
  | nil => exact keeps_refuse _ (List.suffix_refl _)
  | cons t ts =>
    rw [offset]
    split
    · exact keeps_refuse _ (List.suffix_refl _)
    · rename_i d hd
      have hd32 : Word.isSigned 32 d = true := (Option.filter_eq_some_iff.1 hd).2
      refine ((keeps_expect "]" .operand ts).of_suffix (List.suffix_cons t ts)).andThen
        (fun e h => by rw [h]) (fun us h _ => ?_)
      rw [h]
      exact ⟨⟨b, some d, rfl, hb, by rintro v ⟨⟩; exact hd32⟩, List.suffix_refl us⟩

theorem keeps_afterBase {b : Register} (hb : b.IsBase) (ts : List String) :
    Keeps ts Prod.snd (fun a => IsMemory a.1) (afterBase b ts) := by
  cases ts with
  | nil => exact keeps_refuse _ (List.suffix_refl _)
  | cons t ts =>
    rw [afterBase]
    split_ifs
    · exact ⟨⟨b, none, rfl, hb, by rintro v ⟨⟩⟩, List.suffix_cons t ts⟩
    · exact (keeps_offset hb false ts).of_suffix (List.suffix_cons t ts)
    · exact (keeps_offset hb true ts).of_suffix (List.suffix_cons t ts)
    · exact keeps_refuse _ (List.suffix_refl _)

theorem keeps_bracketed (ts : List String) :
    Keeps ts Prod.snd (fun a => IsMemory a.1) (bracketed ts) := by
  refine (keeps_expect "[" .operand ts).andThen (fun e h => by rw [bracketed, h]) (fun us h _ => ?_)
  refine (keeps_base us).andThen (fun e h' => by simp only [bracketed, h, h']) (fun a h' ha => ?_)
  simp only [bracketed, h, h']
  exact keeps_afterBase ha a.2

theorem keeps_access (bits : Nat) (ts : List String) :
    Keeps ts id (fun _ => True) (access bits ts) := by
  refine (keeps_expect _ _ ts).andThen (fun e h => by rw [access, h]) (fun us h _ => ?_)
  rw [access, h]
  exact keeps_expect _ _ us

theorem keeps_sized (bits : Nat) (ts : List String) :
    Keeps ts Prod.snd (fun a => IsMemory a.1) (sized bits ts) := by
  refine (keeps_access bits ts).andThen (fun e h => by rw [sized, h]) (fun us h _ => ?_)
  rw [sized, h]
  exact keeps_bracketed us

theorem keeps_anyAccess (ts : List String) :
    Keeps ts id (fun _ => True) (anyAccess ts) := by
  cases ts with
  | nil => exact ⟨trivial, List.suffix_refl _⟩
  | cons t ts =>
    rw [anyAccess]
    split_ifs
    · exact (keeps_expect _ _ ts).of_suffix (List.suffix_cons t ts)
    · exact ⟨trivial, List.suffix_refl _⟩

theorem keeps_unsized (ts : List String) :
    Keeps ts Prod.snd (fun a => IsMemory a.1) (unsized ts) := by
  refine (keeps_anyAccess ts).andThen (fun e h => by rw [unsized, h]) (fun us h _ => ?_)
  rw [unsized, h]
  exact keeps_bracketed us

theorem keeps_place {bits : Nat} (hb : IsWidth bits) (ts : List String) :
    Keeps ts Prod.snd
      (fun a => (∃ r, a.1 = .register r ∧ r ≠ .rip ∧ r.bits = bits) ∨ IsMemory a.1)
      (place bits ts) := by
  unfold place
  have hr := keeps_register bits ts
  split
  · rename_i r us h
    rw [h] at hr
    obtain ⟨⟨hne, hw⟩, hs⟩ := hr
    have hpos : bits ≠ 0 := by rcases hb with rfl | rfl | rfl | rfl <;> decide
    exact ⟨Or.inl ⟨r, rfl, hne, hw.resolve_left hpos⟩, hs⟩
  · -- the failed register leaves all tokens to the memory reference
    have hs := keeps_sized bits ts
    cases h : sized bits ts with
    | error e => rcases e with m | f <;> rw [h] at hs <;> exact hs
    | ok a => rw [h] at hs; exact ⟨Or.inr hs.1, hs.2⟩

end Reader

/-! ### Captures -/

/-- The places that an operand of a kind may be. -/
def Operand.Admits : Operand → Place → Prop
  | .place bits, p => (∃ r, p = .register r ∧ r ≠ .rip ∧ r.bits = bits) ∨ Reader.IsMemory p
  | .memory, p => Reader.IsMemory p
  | _, _ => False

/-- The captures are operands of the kinds `ops`. -/
structure Captures.Fit (ops : List Operand) (c : Captures) : Prop where
  register : ∀ r, c.register = some r →
    ∃ bits, .register bits ∈ ops ∧ r ≠ .rip ∧ (bits = 0 ∨ r.bits = bits)
  register_isSome : c.register.isSome = ops.any Operand.isRegister
  place : ∀ p, c.place = some p → ∃ o ∈ ops, o.Admits p
  place_isSome : c.place.isSome = ops.any Operand.isPlace
  /-- The numbers have the widths of the number operands. -/
  immediates : List.Forall₂ (fun (s : Slot) v => Word.isSigned s.bits v = true)
    (ops.filterMap Operand.slot?) c.immediates

namespace Captures

variable {ops : List Operand} {c : Captures}

theorem fit_empty : Fit [] empty := by
  constructor <;> simp [empty]

theorem Fit.length_immediates (h : Fit ops c) :
    c.immediates.length = (ops.filterMap Operand.slot?).length := h.immediates.length_eq.symm

theorem Fit.length_immediates_le (h : Fit ops c) : c.immediates.length ≤ ops.length := by
  rw [h.length_immediates]
  exact List.length_filterMap_le _ _

/-- An operand without a value of its own changes nothing. -/
theorem Fit.fixed (h : Fit ops c) (word : String) : Fit (ops ++ [.fixed word]) c where
  register r hr := by
    obtain ⟨bits, hm, hb⟩ := h.register r hr
    exact ⟨bits, by simp [hm], hb⟩
  register_isSome := by simp [h.register_isSome, Operand.isRegister]
  place p hp := by
    obtain ⟨o, ho, ha⟩ := h.place p hp
    exact ⟨o, by simp [ho], ha⟩
  place_isSome := by simp [h.place_isSome, Operand.isPlace]
  immediates := by simpa [List.filterMap_cons, Operand.slot?] using h.immediates

theorem Fit.setRegister (h : Fit ops c) {bits : Nat} {r : Register} (hne : r ≠ .rip)
    (hb : bits = 0 ∨ r.bits = bits) :
    Fit (ops ++ [.register bits]) { c with register := some r } where
  register r' hr := by
    cases hr
    exact ⟨bits, by simp, hne, hb⟩
  register_isSome := by simp [Operand.isRegister]
  place p hp := by
    obtain ⟨o, ho, ha⟩ := h.place p hp
    exact ⟨o, by simp [ho], ha⟩
  place_isSome := by simp [h.place_isSome, Operand.isPlace]
  immediates := by simpa [List.filterMap_cons, Operand.slot?] using h.immediates

theorem Fit.setPlace (h : Fit ops c) {o : Operand} {p : Place} (ho : o.isPlace = true)
    (ha : o.Admits p) : Fit (ops ++ [o]) { c with place := some p } where
  register r hr := by
    obtain ⟨bits, hm, hb⟩ := h.register r hr
    exact ⟨bits, by simp [hm], hb⟩
  register_isSome := by
    cases o <;> simp_all [h.register_isSome, Operand.isRegister, Operand.isPlace]
  place p' hp := by
    cases hp
    exact ⟨o, by simp, ha⟩
  place_isSome := by simp [ho]
  immediates := by
    have hs : o.slot? = none := by cases o <;> simp_all [Operand.slot?, Operand.isPlace]
    simpa [List.filterMap_append, hs] using h.immediates

theorem Fit.addNumber (h : Fit ops c) {o : Operand} {s : Slot} {v : Int} (ho : o.slot? = some s)
    (hv : Word.isSigned s.bits v = true) :
    Fit (ops ++ [o]) { c with immediates := c.immediates ++ [v] } where
  register r hr := by
    obtain ⟨bits, hm, hb⟩ := h.register r hr
    exact ⟨bits, by simp [hm], hb⟩
  register_isSome := by cases o <;> simp_all [h.register_isSome, Operand.isRegister, Operand.slot?]
  place p hp := by
    obtain ⟨o, ho, ha⟩ := h.place p hp
    exact ⟨o, by simp [ho], ha⟩
  place_isSome := by cases o <;> simp_all [h.place_isSome, Operand.isPlace, Operand.slot?]
  immediates := by
    rw [List.filterMap_append]
    refine List.rel_append h.immediates ?_
    simpa [ho] using hv

end Captures

/-! ### Matching a template -/

namespace Template

open Reader Captures

variable {done ops : List Operand} {c : Captures}

/-- One more operand of a kind is captured as an operand of that kind. -/
theorem keeps_readOperand (hc : Fit done c) {op : Operand} (hop : op.Sized)
    (hlen : done.length < 2) (ts : List String) :
    Keeps ts Prod.snd (fun a => Fit (done ++ [op]) a.1) (readOperand c op ts) := by
  -- fewer than two operands came before, so there is room for a number
  have hroom : c.immediates.length < 2 := lt_of_le_of_lt hc.length_immediates_le hlen
  cases op with
  | immediate bits =>
    refine (keeps_number hop ts).andThen (fun e h => by simp only [readOperand, h])
      (fun a h ha => ?_)
    simp only [readOperand, h, addImmediate, if_pos hroom]
    exact ⟨hc.addNumber rfl ha, List.suffix_refl _⟩
  | relative bits =>
    refine (keeps_number hop ts).andThen (fun e h => by simp only [readOperand, h])
      (fun a h ha => ?_)
    simp only [readOperand, h, addImmediate, if_pos hroom]
    exact ⟨hc.addNumber rfl ha, List.suffix_refl _⟩
  | fixed word =>
    refine (keeps_expect word .operand ts).andThen (fun e h => by simp only [readOperand, h])
      (fun us h _ => ?_)
    simp only [readOperand, h]
    exact ⟨hc.fixed word, List.suffix_refl _⟩
  | register bits =>
    refine (keeps_register bits ts).andThen (fun e h => by simp only [readOperand, h])
      (fun a h ha => ?_)
    simp only [readOperand, h]
    exact ⟨hc.setRegister ha.1 ha.2, List.suffix_refl _⟩
  | place bits =>
    refine (keeps_place hop ts).andThen (fun e h => by simp only [readOperand, h])
      (fun a h ha => ?_)
    simp only [readOperand, h]
    exact ⟨hc.setPlace rfl ha, List.suffix_refl _⟩
  | memory =>
    refine (keeps_unsized ts).andThen (fun e h => by simp only [readOperand, h])
      (fun a h ha => ?_)
    simp only [readOperand, h]
    exact ⟨hc.setPlace rfl ha, List.suffix_refl _⟩

theorem keeps_readFurther (hc : Fit done c) (hops : ∀ o ∈ ops, o.Sized)
    (hlen : done.length + ops.length ≤ 2) (ts : List String) :
    Keeps ts Prod.snd (fun a => Fit (done ++ ops) a.1) (readFurther c ops ts) := by
  induction ops generalizing done c ts with
  | nil => exact ⟨by simpa using hc, List.suffix_refl ts⟩
  | cons op ops ih =>
    rw [List.length_cons] at hlen
    refine (keeps_expect "," .operand ts).andThen (fun e h => by simp only [readFurther, h])
      (fun us h _ => ?_)
    refine (keeps_readOperand hc (hops op (by simp)) (by omega) us).andThen
      (fun e h' => by simp only [readFurther, h, h']) (fun a h' ha => ?_)
    simp only [readFurther, h, h']
    -- the operand that was read moves to the ones that are done
    have := ih ha (fun o ho => hops o (by simp [ho])) (by simp; omega) a.2
    rwa [List.append_assoc] at this

theorem keeps_readOperands (hops : ∀ o ∈ ops, o.Sized) (hlen : ops.length ≤ 2)
    (ts : List String) :
    Keeps ts Prod.snd (fun a => Fit ops a.1) (readOperands ops ts) := by
  cases ops with
  | nil => exact ⟨fit_empty, List.suffix_refl ts⟩
  | cons op ops =>
    rw [List.length_cons] at hlen
    refine (keeps_readOperand fit_empty (hops op (by simp)) (by simp) ts).andThen
      (fun e h => by simp only [readOperands, h]) (fun a h ha => ?_)
    simp only [readOperands, h]
    exact keeps_readFurther ha (fun o ho => hops o (by simp [ho])) (by simp; omega) a.2

/-- **A match with a template of at most two operands**: what it captures fits the operands and
brings no REX byte beside a high byte, and where it refuses, it counts at most the tokens of the
statement. -/
theorem keeps_capture {t : Template} (hops : ∀ o ∈ t.operands, o.Sized)
    (hlen : t.operands.length ≤ 2) (tokens : List String) :
    Keeps tokens (fun _ => [])
      (fun c => Fit t.operands c ∧ t.conflicts c = false ∧ c.consumed = tokens.length)
      (t.capture tokens) := by
  refine (keeps_expect t.mnemonic .instruction tokens).andThen
    (fun e h => by simp only [capture, h]) (fun us h _ => ?_)
  refine (keeps_readOperands hops hlen us).andThen
    (fun e h' => by simp only [capture, h, h']) (fun a h' ha => ?_)
  simp only [capture, h, h']
  split_ifs with hrest hconf
  · exact keeps_refuse _ (List.suffix_refl _)
  · exact keeps_refuse _ (List.nil_suffix)
  · refine ⟨⟨⟨ha.register, ha.register_isSome, ha.place, ha.place_isSome, ha.immediates⟩, ?_, rfl⟩,
      List.nil_suffix⟩
    simpa [conflicts, hasHighByte, Captures.needsRex, registers] using hconf

theorem capture_ne_fault {t : Template} (ht : t.WellFormed) (tokens : List String) (f : Fault) :
    t.capture tokens ≠ .error (.fault f) := by
  intro h
  have := keeps_capture ht.operands_sized ht.length_operands tokens
  rw [h] at this
  exact this

theorem fit_of_capture_of_sized {t : Template} (hops : ∀ o ∈ t.operands, o.Sized)
    (hlen : t.operands.length ≤ 2) {tokens : List String} (h : t.capture tokens = .ok c) :
    Fit t.operands c ∧ t.conflicts c = false := by
  have := keeps_capture hops hlen tokens
  rw [h] at this
  exact ⟨this.1.1, this.1.2.1⟩

theorem fit_of_capture {t : Template} (ht : t.WellFormed) {tokens : List String}
    (h : t.capture tokens = .ok c) : Fit t.operands c ∧ t.conflicts c = false :=
  fit_of_capture_of_sized ht.operands_sized ht.length_operands h

theorem remaining_le_of_capture {t : Template} (ht : t.WellFormed) {tokens : List String}
    {m : Mismatch} (h : t.capture tokens = .error (.refused m)) : m.remaining ≤ tokens.length := by
  have := keeps_capture ht.operands_sized ht.length_operands tokens
  rw [h] at this
  exact this

end Template
end RowAsm
