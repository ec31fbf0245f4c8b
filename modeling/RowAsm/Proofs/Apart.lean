import RowAsm.Proofs.RoundTrip

/-!
# Templates that are told apart

`Template.apart t u` says that the code of one template cannot be taken for that of the other: their
prefix bytes differ, or the W bits of their REX bytes, or their opcode bytes, or the digits after
opcodes of one length. It is decided on the templates alone, whatever operands are captured.

It is sound (`apart_eq_false_of_append`): if the codes of two canonical templates, each with any
bytes after it, are the same bytes, the templates are not apart. The stretches of the code are read
one after another, and each determines what the next one starts with: the run of prefix bytes
(`eq_of_run_append`), the REX byte, the opcode bytes (`overlap_of_append`), the reg field.

Any two built-in templates are apart, but for the exchanges of one width, whose operands stand in
the two orders (`Template.Twins`). This is evaluated on the outlines of the rows
(`Table.pairwise_general`).
-/

namespace RowAsm

/-! ### Opcode bytes -/

namespace Part

/-- The upper five bits of an opcode byte, which no register changes. -/
def stem : Part → Nat
  | .byte b | .fill b => b.toNat / 8
  | _ => 0

/-- Whether two opcode bytes can be the same. -/
def meets : Part → Part → Bool
  | .byte b, .byte b' => b.toNat == b'.toNat
  | p, q => p.stem == q.stem

theorem stem_eq_of_meets {p q : Part} (h : meets p q = true) : p.stem = q.stem := by
  unfold meets at h
  split at h
  · rw [stem, stem, beq_iff_eq.1 h]
  · exact beq_iff_eq.1 h

/-- Whether one of two opcodes can be the beginning of the other. -/
def overlap : List Part → List Part → Bool
  | p :: ps, q :: qs => meets p q && overlap ps qs
  | _, _ => true

end Part

namespace Fields

variable {f g : Fields}

theorem stem_opcodeByte {p : Part} (hp : p.isOpcode = true) :
    (f.opcodeByte p).toNat / 8 = p.stem := by
  cases p with
  | byte b => rfl
  | fill b => exact (Byte.fill b (Template.low_lt f.fill)).1
  | digit d => cases hp
  | rex w => cases hp
  | immediate n => cases hp
  | relative n => cases hp

theorem meets_of_opcodeByte {p q : Part} (hp : p.isOpcode = true) (hq : q.isOpcode = true)
    (h : f.opcodeByte p = g.opcodeByte q) : p.meets q = true := by
  have hstem : p.stem = q.stem := by rw [← stem_opcodeByte (f := f) hp, h, stem_opcodeByte hq]
  unfold Part.meets
  split
  · simpa [opcodeByte] using congrArg UInt8.toNat h
  · simpa using hstem

/-- Opcodes at the head of the same bytes overlap, and if they are of one length, the same bytes
follow them. -/
theorem overlap_of_append {ps qs : List Part} (hps : ∀ p ∈ ps, p.isOpcode = true)
    (hqs : ∀ q ∈ qs, q.isOpcode = true) {r r' : List UInt8}
    (h : ps.map f.opcodeByte ++ r = qs.map g.opcodeByte ++ r') :
    Part.overlap ps qs = true ∧ (ps.length = qs.length → r = r') := by
  induction ps generalizing qs with
  | nil =>
    refine ⟨by simp [Part.overlap], fun hlen => ?_⟩
    obtain rfl : qs = [] := List.length_eq_zero_iff.1 hlen.symm
    exact h
  | cons p ps ih =>
    cases qs with
    | nil => exact ⟨by simp [Part.overlap], fun hlen => by simp at hlen⟩
    | cons q qs =>
      rw [List.map_cons, List.map_cons, List.cons_append, List.cons_append, List.cons.injEq] at h
      have hmeets := meets_of_opcodeByte (hps p (by simp)) (hqs q (by simp)) h.1
      obtain ⟨hoverlap, hrest⟩ := ih (fun p' hp' => hps p' (by simp [hp']))
        (fun q' hq' => hqs q' (by simp [hq'])) h.2
      refine ⟨by rw [Part.overlap, hmeets, hoverlap]; rfl, fun hlen => hrest ?_⟩
      simpa using hlen

end Fields

/-! ### Templates -/

namespace Template

open Fields

variable {t u : Template} {c d : Captures}

/-- The prefix bytes that every code of the template has. -/
def mandatory (t : Template) : List UInt8 := (if t.operandSize then [0x66] else []) ++ t.prefixes

/-- Whether the prefix bytes end before the opcode: `67` is not one of those that the program
places, and no opcode byte that comes first is a prefix byte, whatever register it holds. -/
def isPlain (t : Template) : Bool :=
  !t.prefixes.contains 0x67 && t.opcode.head?.all fun
    | .fill b => (List.range 8).all fun i => !isPrefixByte (UInt8.ofNat (8 * (b.toNat / 8) + i))
    | _ => true

/-- Whether the code of one template cannot be taken for that of the other. -/
def apart (t u : Template) : Bool :=
  !Part.overlap t.opcode u.opcode ||
    (t.opcode.length == u.opcode.length && t.digit?.any fun d => u.digit?.any fun d' => d != d') ||
    t.program.contains (.rex true) != u.program.contains (.rex true) ||
    t.mandatory != u.mandatory

/-- The upper five bits of the first opcode byte. -/
def stem (t : Template) : Nat :=
  match t.opcode with
  | [] => 0
  | p :: _ => p.stem

/-- Templates of different stems are apart. -/
theorem apart_of_stem_ne (ht : t.opcode ≠ []) (hu : u.opcode ≠ []) (h : t.stem ≠ u.stem) :
    t.apart u = true := by
  obtain ⟨p, ps, hp⟩ := List.exists_cons_of_ne_nil ht
  obtain ⟨q, qs, hq⟩ := List.exists_cons_of_ne_nil hu
  have hmeets : p.meets q = false := by
    by_contra hn
    rw [stem, stem, hp, hq] at h
    exact h (Part.stem_eq_of_meets (eq_true_of_ne_false hn))
  simp [apart, hp, hq, Part.overlap, hmeets]

/-- The prefix bytes of a layout. -/
def run (t : Template) (c : Captures) : List UInt8 :=
  (if t.operandSize then [0x66] else []) ++ ((if t.short c then [0x67] else []) ++ t.prefixes)

theorem isPrefixByte_of_mem_run {b : UInt8} (h : b ∈ t.run c) : isPrefixByte b = true := by
  simp only [run, List.mem_append, List.mem_ite_nil_right] at h
  rcases h with h | h | h
  · obtain rfl : b = 0x66 := by simpa using h.2
    rfl
  · obtain rfl : b = 0x67 := by simpa using h.2
    rfl
  · exact isPrefixByte_of_mem_prefixes h

/-- Without `67` the prefix bytes are those that every code has. -/
theorem filter_run (h : t.isPlain = true) : (t.run c).filter (· != 0x67) = t.mandatory := by
  have hne : ∀ b ∈ t.prefixes, (b != 0x67) = true := by
    intro b hb
    simp only [isPlain, Bool.and_eq_true, Bool.not_eq_true', List.contains_eq_mem,
      decide_eq_false_iff_not] at h
    rw [bne_iff_ne]
    rintro rfl
    exact h.1 hb
  rw [run, mandatory, List.filter_append, List.filter_append, List.filter_eq_self.2 hne]
  cases t.operandSize <;> cases t.short c <;> rfl

/-- The first opcode byte ends the prefix bytes. -/
theorem isPrefixByte_opcodeByte (h : t.isPlain = true) {p : Part} {os : List Part}
    (ho : t.opcode = p :: os) (hp : p.leads = true) (f : Fields) :
    isPrefixByte (f.opcodeByte p) = false := by
  cases p with
  | fill b =>
    obtain ⟨htop, -⟩ := Byte.fill b (low_lt f.fill)
    have hbyte : f.opcodeByte (.fill b) =
        UInt8.ofNat (8 * (b.toNat / 8) + (f.opcodeByte (.fill b)).toNat % 8) := by
      rw [← htop, opcodeByte, Nat.div_add_mod, UInt8.ofNat_toNat]
    simp only [isPlain, ho, List.head?_cons, Option.all_some, Bool.and_eq_true, List.all_eq_true,
      List.mem_range, Bool.not_eq_true'] at h
    rw [hbyte]
    exact h.2 _ (Nat.mod_lt _ (by decide))
  | byte b => exact (opcodeByte_of_leads f hp).2 rfl
  | digit d => cases hp
  | rex w => cases hp
  | immediate n => cases hp
  | relative n => cases hp

/-- The bytes of a layout after its prefix bytes and its REX byte. -/
def body (t : Template) (c : Captures) : List UInt8 :=
  t.opcode.map (resolve t c).opcodeByte ++
    ((resolve t c).modrmBytes (resolve t c).hasModrm ++ numberBytes t.slots c.immediates)

/-- The code of a canonical template starts with its prefix bytes, which the byte after them ends;
and what follows them reads as a REX byte and the rest. -/
theorem exists_run (ht : t.WellFormed) (hcan : t.Canonical) (hplain : t.isPlain = true)
    (hc : c.Fit t.operands) (rest : List UInt8) :
    ∃ b bs, (t.layout c).flatMap Piece.bytes ++ rest = t.run c ++ b :: bs ∧
      isPrefixByte b = false ∧ Rex.read (b :: bs) = (t.rex? c, t.body c ++ rest) := by
  obtain ⟨s, hs, hparts⟩ := hcan.shape
  obtain ⟨p, os, ho, hlead, -⟩ := hcan.exists_lead
  have hbody : t.body c ++ rest = (resolve t c).opcodeByte p ::
      (os.map (resolve t c).opcodeByte ++ ((resolve t c).modrmBytes (resolve t c).hasModrm ++
        (numberBytes t.slots c.immediates ++ rest))) := by
    simp [body, ho]
  have hbytes : (t.layout c).flatMap Piece.bytes ++ rest = t.run c ++
      ((if t.hasRex || (resolve t c).forceRex then [(resolve t c).rex] else []) ++
        (t.body c ++ rest)) := by
    rw [bytes_layout ht hc hs hparts, run, body]
    simp only [List.append_assoc]
  have hread := read_rex t c (opcodeByte_of_leads (resolve t c) hlead).1
    (os.map (resolve t c).opcodeByte ++ ((resolve t c).modrmBytes (resolve t c).hasModrm ++
      (numberBytes t.slots c.immediates ++ rest)))
  rw [← hbody] at hread
  -- the byte after the prefix bytes is a REX byte or the first opcode byte
  split_ifs at hbytes hread with hrex
  · exact ⟨_, _, hbytes, isPrefixByte_rexByte _ _ _, hread⟩
  · rw [hbody] at hbytes
    refine ⟨_, _, hbytes, isPrefixByte_opcodeByte hplain ho hlead _, ?_⟩
    rw [← hbody]
    exact hread

/-- The run of prefix bytes is told by the byte that ends it. -/
theorem eq_of_run_append {ps qs : List UInt8} (hps : ∀ b ∈ ps, isPrefixByte b = true)
    (hqs : ∀ b ∈ qs, isPrefixByte b = true) {b b' : UInt8} (hb : isPrefixByte b = false)
    (hb' : isPrefixByte b' = false) {bs bs' : List UInt8} (h : ps ++ b :: bs = qs ++ b' :: bs') :
    ps = qs ∧ b :: bs = b' :: bs' := by
  have hsplit : ∀ {ps : List UInt8}, (∀ b ∈ ps, isPrefixByte b = true) → ∀ {b : UInt8},
      isPrefixByte b = false → ∀ bs, (ps ++ b :: bs).takeWhile isPrefixByte = ps ∧
        (ps ++ b :: bs).dropWhile isPrefixByte = b :: bs := by
    intro ps hps b hb bs
    rw [List.takeWhile_append_of_pos hps, List.dropWhile_append_of_pos hps]
    simp [hb]
  obtain ⟨htake, hdrop⟩ := hsplit hps hb bs
  obtain ⟨htake', hdrop'⟩ := hsplit hqs hb' bs'
  rw [h, htake'] at htake
  rw [h, hdrop'] at hdrop
  exact ⟨htake.symm, hdrop.symm⟩

/-- A digit is read off the bytes after the opcode. -/
theorem read_digit (ht : t.WellFormed) (hc : c.Fit t.operands) {i : UInt8} (hi : t.digit? = some i)
    (rest : List UInt8) :
    ∃ a bs, Target.read false ((resolve t c).modrmBytes (resolve t c).hasModrm ++ rest) =
      some (a, bs) ∧ a.1 = i.toNat := by
  have hread := readModrm_modrmBytes hc rest
  have hacc := accepts_eq (c := c) ht
  rw [readModrm, hi, Option.isSome_some, Bool.or_true, if_pos rfl, Option.map_eq_some_iff] at hread
  obtain ⟨⟨a, bs⟩, ha, hfield⟩ := hread
  rw [Prod.mk.injEq] at hfield
  simp only [accepts, hi, ← hfield.1, Option.all_some, Option.any_some, Bool.and_eq_true,
    beq_iff_eq] at hacc
  exact ⟨a, bs, ha, hacc.2⟩

/-- **Templates that are apart have no code in common**, and none of the one begins a code of the
other. -/
theorem apart_eq_false_of_append (ht : t.WellFormed) (hu : u.WellFormed) (htc : t.Canonical)
    (huc : u.Canonical) (htp : t.isPlain = true) (hup : u.isPlain = true) (hc : c.Fit t.operands)
    (hd : d.Fit u.operands) {r r' : List UInt8}
    (h : (t.layout c).flatMap Piece.bytes ++ r = (u.layout d).flatMap Piece.bytes ++ r') :
    t.apart u = false := by
  obtain ⟨b, bs, hb, hbp, hread⟩ := exists_run ht htc htp hc r
  obtain ⟨b', bs', hb', hbp', hread'⟩ := exists_run hu huc hup hd r'
  rw [hb, hb'] at h
  obtain ⟨hrun, hbs⟩ := eq_of_run_append (fun _ => isPrefixByte_of_mem_run)
    (fun _ => isPrefixByte_of_mem_run) hbp hbp' h
  rw [hbs, hread', Prod.mk.injEq] at hread
  obtain ⟨hrex, hbody⟩ := hread
  have hmandatory : t.mandatory = u.mandatory := by
    rw [← filter_run (c := c) htp, hrun, filter_run hup]
  have hwide : t.program.contains (.rex true) = u.program.contains (.rex true) := by
    rw [← (t.any_rex? c).1, ← hrex, (u.any_rex? d).1]
  have hopcode : ∀ {v : Template}, ∀ p ∈ v.opcode, p.isOpcode = true :=
    fun p hp => (List.mem_filter.1 hp).2
  simp only [body, List.append_assoc] at hbody
  obtain ⟨hoverlap, hrest⟩ := overlap_of_append hopcode hopcode hbody.symm
  have hdigit : (t.opcode.length == u.opcode.length &&
      t.digit?.any fun i => u.digit?.any fun j => i != j) = false := by
    by_contra hn
    simp only [Bool.not_eq_false, Bool.and_eq_true, beq_iff_eq, Option.any_eq_true,
      bne_iff_ne] at hn
    obtain ⟨hlen, i, hi, j, hj, hne⟩ := hn
    obtain ⟨a, x, ha, hai⟩ := read_digit ht hc hi (numberBytes t.slots c.immediates ++ r)
    obtain ⟨a', x', ha', haj⟩ := read_digit hu hd hj (numberBytes u.slots d.immediates ++ r')
    rw [hrest hlen, ha', Option.some.injEq, Prod.mk.injEq] at ha
    exact hne (UInt8.toNat_inj.1 (by rw [← hai, ← ha.1, haj]))
  rw [apart, hoverlap, hdigit, hwide, hmandatory]
  simp

end Template

/-! ### Exchanges -/

/-- Two exchanges of one width, the register operand last in the one and first in the other. -/
structure Template.Twins (t u : Template) : Prop where
  mnemonic : t.mnemonic = "xchg" ∧ u.mnemonic = "xchg"
  operands : ∃ bits, t.operands = [.place bits, .register bits] ∧
    u.operands = [.register bits, .place bits]
  program : t.program = u.program
  operandSize : t.operandSize = u.operandSize

namespace Template

variable {t u : Template}

/-- Whether two templates are twins of a register width. -/
def areTwins (t u : Template) : Bool :=
  t.mnemonic == "xchg" && u.mnemonic == "xchg" && t.program == u.program &&
    t.operandSize == u.operandSize && [8, 16, 32, 64].any fun bits =>
      t.operands == [.place bits, .register bits] && u.operands == [.register bits, .place bits]

theorem twins_of_areTwins (h : t.areTwins u = true) : t.Twins u := by
  simp only [areTwins, Bool.and_eq_true, beq_iff_eq, List.any_eq_true] at h
  obtain ⟨⟨⟨⟨ht, hu⟩, hprog⟩, hsize⟩, bits, -, hops⟩ := h
  exact ⟨⟨ht, hu⟩, ⟨bits, hops⟩, hprog, hsize⟩

/-- Twins read the same operands. -/
theorem Twins.read_eq (h : t.Twins u) : t.read = u.read := by
  obtain ⟨-, ⟨bits, ht, hu⟩, hprog, hsize⟩ := h
  cases t with
  | mk m ops prog size =>
    cases u with
    | mk m' ops' prog' size' =>
      subst ht hu hprog hsize
      rfl

end Template

/-! ### The table -/

/-- Whether a relation holds of any two members of a list, the earlier one first. -/
def eachPair {α : Type} (r : α → α → Bool) : List α → Bool
  | [] => true
  | a :: l => l.all (r a) && eachPair r l

theorem pairwise_of_eachPair {α : Type} {r : α → α → Bool} {l : List α}
    (h : eachPair r l = true) : l.Pairwise fun a b => r a b = true := by
  induction l with
  | nil => exact .nil
  | cons a l ih =>
    rw [eachPair, Bool.and_eq_true, List.all_eq_true] at h
    exact .cons h.1 (ih h.2)

/-- A relation holds of any two members of a list with one key if it holds of any two that have the
key `k`, for every `k`. -/
theorem pairwise_of_filter {α : Type} {R : α → α → Prop} {key : α → Nat} {l : List α}
    (h : ∀ k, (l.filter fun a => key a == k).Pairwise R) :
    l.Pairwise fun a b => key a = key b → R a b := by
  induction l with
  | nil => exact .nil
  | cons a l ih =>
    refine .cons (fun b hb hab => ?_) (ih fun k => ?_)
    · have hk := h (key a)
      rw [List.filter_cons_of_pos (by simp), List.pairwise_cons] at hk
      exact hk.1 b (List.mem_filter.2 ⟨hb, by simp [hab]⟩)
    · exact (h k).sublist ((List.sublist_cons_self a l).filter _)

namespace Table

/-- What is to be shown of the built-in templates. Those of different stems are apart, so that only
templates of one stem are compared. -/
def checkStems (ts : List Template) : Bool :=
  ts.all (fun t => t.isPlain && decide (t.stem < 32)) && (List.range 32).all fun k =>
    eachPair (fun t u => t.apart u || t.areTwins u) (ts.filter fun t => t.stem == k)

theorem checkStems_outlines : checkStems (Row.outlines generalRows) = true := by
  apply check_outlines
  decide +kernel

theorem of_mem_outlines {t : Template} (h : t ∈ Row.outlines generalRows) :
    t.isPlain = true ∧ t.stem < 32 := by
  have hcheck := checkStems_outlines
  rw [checkStems, Bool.and_eq_true] at hcheck
  simpa using List.all_eq_true.1 hcheck.1 t h

theorem isPlain_general {t : Template} (h : t ∈ general.templates) : t.isPlain = true :=
  (of_mem_outlines ((Row.templates_sublist_outlines generalRows).subset h)).1

theorem pairwise_outlines (k : Nat) :
    ((Row.outlines generalRows).filter fun t => t.stem == k).Pairwise
      fun t u => t.apart u = true ∨ t.Twins u := by
  have hcheck := checkStems_outlines
  rw [checkStems, Bool.and_eq_true] at hcheck
  by_cases hk : k < 32
  · have hpairs := List.all_eq_true.1 hcheck.2 k (List.mem_range.2 hk)
    refine (pairwise_of_eachPair hpairs).imp ?_
    intro t u h
    rw [Bool.or_eq_true] at h
    exact h.imp id Template.twins_of_areTwins
  · have hnil : ((Row.outlines generalRows).filter fun t => t.stem == k) = [] := by
      rw [List.filter_eq_nil_iff]
      intro t ht hstem
      have := (of_mem_outlines ht).2
      rw [beq_iff_eq] at hstem
      omega
    rw [hnil]
    exact .nil

/-- **Any two built-in templates are apart**, but for twins. -/
theorem pairwise_general :
    general.templates.Pairwise fun t u => t.apart u = true ∨ t.Twins u := by
  have hstems := (pairwise_of_filter pairwise_outlines).sublist
    (Row.templates_sublist_outlines generalRows)
  have hopcode : ∀ t ∈ general.templates, t.opcode ≠ [] := by
    intro t ht
    obtain ⟨p, os, ho, -⟩ := (canonical_general ht).exists_lead
    simp [ho]
  refine hstems.imp_of_mem ?_
  intro t u ht hu h
  by_cases hstem : t.stem = u.stem
  · exact h hstem
  · exact Or.inl (Template.apart_of_stem_ne (hopcode t ht) (hopcode u hu) hstem)

end Table
end RowAsm
