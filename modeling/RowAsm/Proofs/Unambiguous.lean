import RowAsm.Proofs.Apart
import RowAsm.Proofs.Safety
import RowAsm.Proofs.Settings

/-!
# The built-in codes are unambiguous

Two built-in templates that are not apart are twins, and twins read the same operands off a code. So
the code of a statement, whatever bytes follow it, tells its template up to twins, its operands, and
where it ends (`Table.eq_of_append`). It follows that no code begins another one, and that the bytes
of a text fall into codes in one way only (`Table.eq_of_flatten`).
-/

namespace RowAsm

/-! ### Codes of the table -/

namespace Table

section Codes

variable {i j : Nat} {tokens tokens' : List String} {code code' : Code} {r r' : List UInt8}

/-- Of two templates that begin the same bytes, the later one is a twin. -/
theorem twins_of_lt {t u : Template} {c d : Captures} (hlt : i < j) (hi : general.get? i = some t)
    (hj : general.get? j = some u) (hc : c.Fit t.operands) (hd : d.Fit u.operands)
    (h : (t.layout c).flatMap Piece.bytes ++ r = (u.layout d).flatMap Piece.bytes ++ r') :
    t.Twins u := by
  have htm : t ∈ general.templates := List.mem_of_getElem? hi
  have hum : u ∈ general.templates := List.mem_of_getElem? hj
  have hapart := Template.apart_eq_false_of_append (wellFormed_of_mem htm) (wellFormed_of_mem hum)
    (canonical_general htm) (canonical_general hum) (isPlain_general htm) (isPlain_general hum)
    hc hd h
  obtain ⟨hi', rfl⟩ := List.getElem?_eq_some_iff.1 hi
  obtain ⟨hj', rfl⟩ := List.getElem?_eq_some_iff.1 hj
  refine (List.pairwise_iff_getElem.1 pairwise_general i j hi' hj' hlt).resolve_left ?_
  rw [hapart]
  exact Bool.false_ne_true

/-- **A code tells its statement**: its template up to twins, its operands, and where it ends. -/
theorem eq_of_append {t u : Template} {c d : Captures} (hi : general.get? i = some t)
    (hj : general.get? j = some u) (hc : t.capture tokens = .ok c) (hd : u.capture tokens' = .ok d)
    (ht : t.emit c = .ok code) (hu : u.emit d = .ok code')
    (h : code.bytes ++ r = code'.bytes ++ r') :
    (i = j ∨ t.Twins u ∨ u.Twins t) ∧ c.operands = d.operands ∧ r = r' := by
  have htm : t ∈ general.templates := List.mem_of_getElem? hi
  have hum : u ∈ general.templates := List.mem_of_getElem? hj
  have htw := wellFormed_of_mem htm
  have huw := wellFormed_of_mem hum
  obtain ⟨hcf, hcc⟩ := Template.fit_of_capture htw hc
  obtain ⟨hdf, hdc⟩ := Template.fit_of_capture huw hd
  rw [Template.bytes_of_emit ht, Template.bytes_of_emit hu] at h
  have hsame : i = j ∨ t.Twins u ∨ u.Twins t := by
    rcases lt_trichotomy i j with hlt | heq | hlt
    · exact Or.inr (Or.inl (twins_of_lt hlt hi hj hcf hdf h))
    · exact Or.inl heq
    · exact Or.inr (Or.inr (twins_of_lt hlt hj hi hdf hcf h.symm))
  have hread : t.read = u.read := by
    rcases hsame with rfl | htwins | htwins
    · rw [Option.some.inj (hi.symm.trans hj)]
    · exact htwins.read_eq
    · exact htwins.read_eq.symm
  have hoperands := Template.read_layout htw (canonical_general htm) hcf hcc r
  rw [h, hread, Template.read_layout huw (canonical_general hum) hdf hdc r', Option.some.injEq,
    Prod.mk.injEq] at hoperands
  exact ⟨hsame, hoperands.1.symm, hoperands.2.symm⟩

/-- The code of a statement that matches a built-in template. -/
def IsCode (bs : List UInt8) : Prop :=
  ∃ tokens i code, general.Encodes tokens i code ∧ code.bytes = bs

theorem IsCode.ne_nil {bs : List UInt8} (h : IsCode bs) : bs ≠ [] := by
  obtain ⟨tokens, i, code, ⟨t, c, hi, hc, ht⟩, rfl⟩ := h
  obtain ⟨code', ht', hpos⟩ := Template.exists_emit (wellFormed_of_mem (List.mem_of_getElem? hi)) hc
  obtain rfl : code' = code := Except.ok.inj (ht'.symm.trans ht)
  exact List.ne_nil_of_length_pos hpos

theorem IsCode.append_inj {bs bs' : List UInt8} (h : IsCode bs) (h' : IsCode bs')
    (heq : bs ++ r = bs' ++ r') : bs = bs' ∧ r = r' := by
  obtain ⟨tokens, i, code, ⟨t, c, hi, hc, ht⟩, rfl⟩ := h
  obtain ⟨tokens', j, code', ⟨u, d, hj, hd, hu⟩, rfl⟩ := h'
  obtain ⟨-, -, rfl⟩ := eq_of_append hi hj hc hd ht hu heq
  exact ⟨List.append_cancel_right heq, rfl⟩

/-- **Bytes fall into codes in one way only.** -/
theorem eq_of_flatten {cs ds : List (List UInt8)} (hcs : ∀ b ∈ cs, IsCode b)
    (hds : ∀ b ∈ ds, IsCode b) (h : cs.flatten = ds.flatten) : cs = ds := by
  induction cs generalizing ds with
  | nil =>
    cases ds with
    | nil => rfl
    | cons b ds =>
      rw [List.flatten_nil, List.flatten_cons, eq_comm, List.append_eq_nil_iff] at h
      exact absurd h.1 (hds b (by simp)).ne_nil
  | cons b cs ih =>
    cases ds with
    | nil =>
      rw [List.flatten_nil, List.flatten_cons, List.append_eq_nil_iff] at h
      exact absurd h.1 (hcs b (by simp)).ne_nil
    | cons b' ds =>
      rw [List.flatten_cons, List.flatten_cons] at h
      obtain ⟨hb, hrest⟩ := (hcs b (by simp)).append_inj (hds b' (by simp)) h
      rw [hb, ih (fun x hx => hcs x (by simp [hx])) (fun x hx => hds x (by simp [hx])) hrest]

end Codes
end Table

/-! ### The encoder -/

namespace Encoder

variable {rows : List Row} {e : Encoder}

/-- An encoder gives the code of a template, and it gives one if there is one to give. -/
theorem encodes_of_encode (he : e.table = .compile rows) (tokens : List String) :
    (∀ i, e.encode tokens = .ok i → e.table.Encodes tokens i.template i.code) ∧
    ((∃ i code, e.table.Encodes tokens i code) → ∃ i, e.encode tokens = .ok i) := by
  -- whether the index is used makes no difference
  let e' : Encoder := { e with settings := { e.settings with indexed := false } }
  have he' : e'.table = .compile rows := he
  have heq : e.encode tokens = e'.encode tokens := encode_eq_of_table he he' tokens
  obtain ⟨s, hs, hsums⟩ := exists_select he' tokens
  have hbest := hsums.best
  rw [codes_attempts rfl] at hbest
  rcases hbest with ⟨hb, hnone⟩ | ⟨x, hb, hx⟩
  · have hr : e'.encode tokens = .error (.refused s.deepest) := by
      simp [encode, hs, Selection.result, hb]
    rw [heq, hr]
    constructor
    · intro i h
      cases h
    · rintro ⟨i, code, h⟩
      exact absurd h (hnone i code)
  · have hr : e'.encode tokens = .ok x := by simp [encode, hs, Selection.result, hb]
    rw [heq, hr]
    refine ⟨fun i h => ?_, fun _ => ⟨x, rfl⟩⟩
    cases h
    exact hx.1

theorem exists_of_forall₂ {α β : Type} {R : α → β → Prop} {l : List α} {l' : List β}
    (h : List.Forall₂ R l l') {b : β} (hb : b ∈ l') : ∃ a ∈ l, R a b := by
  induction h with
  | nil => cases hb
  | cons hab _ ih =>
    rcases List.mem_cons.1 hb with rfl | hb
    · exact ⟨_, by simp, hab⟩
    · obtain ⟨a, ha, h⟩ := ih hb
      exact ⟨a, by simp [ha], h⟩

theorem encode_of_encodeStatement {s : List Token} {i : Instruction}
    (h : e.encodeStatement s = .ok i) : e.encode (s.map Token.text) = .ok i := by
  unfold encodeStatement at h
  split_ifs at h
  split at h
  · rename_i heq
    cases h
    exact heq
  · cases h
  · cases h

/-- **The built-in codes are unambiguous.** Take the encoder over the built-in table under any
settings. If the code of one statement is the beginning of the code of another, the codes are the
same; then the templates that were selected are the same or twins, and the operands that they
captured agree. So the code of a text falls into codes of statements in one way only, those of the
statements of the text. -/
theorem encode_general_unambiguous (settings : Settings) :
    let e : Encoder := { table := .general, settings }
    (∀ tokens tokens' x y, e.encode tokens = .ok x → e.encode tokens' = .ok y →
      x.code.bytes <+: y.code.bytes →
        x.code.bytes = y.code.bytes ∧
        ∃ t u c d, Table.general.get? x.template = some t ∧ Table.general.get? y.template = some u ∧
          t.capture tokens = .ok c ∧ u.capture tokens' = .ok d ∧
          t.emit c = .ok x.code ∧ u.emit d = .ok y.code ∧
          (x.template = y.template ∨ t.Twins u ∨ u.Twins t) ∧ c.operands = d.operands) ∧
    ∀ text bytes, e.encodeText text = .ok bytes →
      ∃ ss is, e.readText text = .ok ss ∧
        List.Forall₂ (fun s i => e.encodeStatement s = .ok i) ss is ∧
        (is.map fun i => i.code.bytes).flatten = bytes ∧
        ∀ cs : List (List UInt8),
          (∀ b ∈ cs, ∃ tokens i, e.encode tokens = .ok i ∧ i.code.bytes = b) →
          cs.flatten = bytes → cs = is.map fun i => i.code.bytes := by
  intro e
  have htable : e.table = .compile Table.generalRows := rfl
  have hcode : ∀ tokens i, e.encode tokens = .ok i → Table.IsCode i.code.bytes := fun tokens i h =>
    ⟨tokens, i.template, i.code, (encodes_of_encode htable tokens).1 i h, rfl⟩
  constructor
  · intro tokens tokens' x y hx hy hprefix
    obtain ⟨r, hr⟩ := hprefix
    obtain ⟨t, c, hi, hc, ht⟩ := (encodes_of_encode htable tokens).1 x hx
    obtain ⟨u, d, hj, hd, hu⟩ := (encodes_of_encode htable tokens').1 y hy
    rw [← List.append_nil y.code.bytes] at hr
    obtain ⟨hsame, hoperands, rfl⟩ := Table.eq_of_append hi hj hc hd ht hu hr
    exact ⟨by simpa using hr, t, u, c, d, hi, hj, hc, hd, ht, hu, hsame, hoperands⟩
  · intro text bytes h
    unfold encodeText at h
    split at h
    · cases h
    · rename_i ss hss
      rcases encodeStatements_answers htable ss with ⟨is, hall, -, his⟩ | ⟨d, hd⟩
      · rw [h, Except.ok.injEq, List.flatMap_def] at his
        have hcodes : ∀ b ∈ is.map fun i => i.code.bytes, Table.IsCode b := by
          intro b hb
          obtain ⟨i, hi, rfl⟩ := List.mem_map.1 hb
          obtain ⟨s, -, hs⟩ := exists_of_forall₂ hall hi
          exact hcode _ i (encode_of_encodeStatement hs)
        refine ⟨ss, is, hss, hall, his.symm, fun cs hcs hflat => ?_⟩
        refine Table.eq_of_flatten (fun b hb => ?_) hcodes (hflat.trans his)
        obtain ⟨tokens, i, hi, rfl⟩ := hcs b hb
        exact hcode tokens i hi
      · rw [h] at hd
        cases hd

/-! ### Two exchanges -/

/-- The memory operand before the register, and after it. -/
def exchanges : List (List String) :=
  [["xchg", "byte", "ptr", "[", "rcx", "]", ",", "al"],
    ["xchg", "al", ",", "byte", "ptr", "[", "rcx", "]"]]

/-- Whether a template has the code `86 01` for the two exchanges, if it has any. -/
def agreesOnExchanges (t : Template) : Bool :=
  exchanges.all fun tokens => (t.encode tokens).toOption.all fun code => code.bytes == [0x86, 0x01]

theorem agreesOnExchanges_outlines :
    (Row.outlines Table.generalRows).all agreesOnExchanges = true := by
  apply Table.check_outlines (q := fun ts => ts.all agreesOnExchanges)
  decide +kernel

theorem encode_exchange {e : Encoder} (he : e.table = .general) {tokens : List String}
    (ht : tokens ∈ exchanges) {row : Row} (hrow : row ∈ Table.generalRows) {t : Template}
    (hcompile : row.compile = .ok t) {c : Captures} (hc : t.capture tokens = .ok c) :
    ∃ x, e.encode tokens = .ok x ∧ x.code.bytes = [0x86, 0x01] := by
  have hmem : t ∈ Table.general.templates :=
    List.mem_filterMap.2 ⟨row, hrow, by rw [hcompile]; rfl⟩
  obtain ⟨i, hi⟩ := List.getElem?_of_mem hmem
  obtain ⟨code, hcode, -⟩ := Template.exists_emit (Table.wellFormed_of_mem hmem) hc
  obtain ⟨x, hx⟩ := (encodes_of_encode he tokens).2 ⟨i, code, t, c, by rw [he]; exact hi, hc, hcode⟩
  refine ⟨x, hx, ?_⟩
  obtain ⟨u, d, hj, hd, hu⟩ := (encodes_of_encode he tokens).1 x hx
  rw [he] at hj
  have hall := List.all_eq_true.1 agreesOnExchanges_outlines u
    ((Row.templates_sublist_outlines _).subset (List.mem_of_getElem? hj))
  have hencode : u.encode tokens = .ok x.code := Template.encode_eq_ok_iff.2 ⟨d, hd, hu⟩
  have := List.all_eq_true.1 hall tokens ht
  simpa [hencode, Except.toOption] using this

/-- The two exchanges have the same code, from twin templates; and the code of a text of one of them
falls into nothing else. -/
theorem encode_general_unambiguous_xchg :
    let e : Encoder := { table := .general, settings := {} }
    let tokens := ["xchg", "byte", "ptr", "[", "rcx", "]", ",", "al"]
    let tokens' := ["xchg", "al", ",", "byte", "ptr", "[", "rcx", "]"]
    ∃ x y, e.encode tokens = .ok x ∧ e.encode tokens' = .ok y ∧
      x.code.bytes <+: y.code.bytes ∧ x.code.bytes = [0x86, 0x01] ∧
      (∃ t u c d, Table.general.get? x.template = some t ∧
        Table.general.get? y.template = some u ∧
        t.capture tokens = .ok c ∧ u.capture tokens' = .ok d ∧
        t.emit c = .ok x.code ∧ u.emit d = .ok y.code ∧
        (x.template = y.template ∨ t.Twins u ∨ u.Twins t) ∧ c.operands = d.operands) ∧
      e.encodeText "xchg al, byte ptr [rcx]" = .ok y.code.bytes ∧
      ∀ cs : List (List UInt8),
        (∀ b ∈ cs, ∃ tokens i, e.encode tokens = .ok i ∧ i.code.bytes = b) →
        cs.flatten = y.code.bytes → cs = [y.code.bytes] := by
  intro e tokens tokens'
  have hrow : (⟨"XCHG r/m8, r8", "86 /r"⟩ : Row) ∈ Table.generalRows := by
    simp [Table.generalRows, Table.moves]
  have hrow' : (⟨"XCHG r8, r/m8", "86 /r"⟩ : Row) ∈ Table.generalRows := by
    simp [Table.generalRows, Table.moves]
  have hcompile : Row.compile ⟨"XCHG r/m8, r8", "86 /r"⟩ =
      .ok ⟨"xchg", [.place 8, .register 8], [.byte 0x86], false⟩ := by decide +kernel
  have hcompile' : Row.compile ⟨"XCHG r8, r/m8", "86 /r"⟩ =
      .ok ⟨"xchg", [.register 8, .place 8], [.byte 0x86], false⟩ := by decide +kernel
  have hc : Template.capture ⟨"xchg", [.place 8, .register 8], [.byte 0x86], false⟩ tokens =
      .ok ⟨some (.low8 0), some (.memory (.r64 1) none), [], 8⟩ := by decide +kernel
  have hd : Template.capture ⟨"xchg", [.register 8, .place 8], [.byte 0x86], false⟩ tokens' =
      .ok ⟨some (.low8 0), some (.memory (.r64 1) none), [], 8⟩ := by decide +kernel
  obtain ⟨x, hx, hxb⟩ := encode_exchange (e := e) rfl (by simp [exchanges, tokens]) hrow hcompile hc
  obtain ⟨y, hy, hyb⟩ := encode_exchange (e := e) rfl (by simp [exchanges, tokens']) hrow'
    hcompile' hd
  have hprefix : x.code.bytes <+: y.code.bytes := by rw [hxb, hyb]
  have hread : (e.readText "xchg al, byte ptr [rcx]").map (·.map (·.map Token.text)) =
      .ok [tokens'] := by decide +kernel
  have htext : e.encodeText "xchg al, byte ptr [rcx]" = .ok y.code.bytes := by
    cases h : e.readText "xchg al, byte ptr [rcx]" with
    | error d =>
      rw [h] at hread
      cases hread
    | ok ss =>
      rw [h] at hread
      obtain ⟨s, rfl, hs⟩ := List.map_eq_singleton_iff.1 (Except.ok.inj hread)
      have hlen : ¬ e.settings.maxTokens < s.length := by
        rw [← List.length_map Token.text, hs]
        decide
      simp [encodeText, h, encodeStatements, encodeStatement, hlen, hs, hy]
  obtain ⟨hcodes, htexts⟩ := encode_general_unambiguous {}
  obtain ⟨ss, is, -, -, -, hunique⟩ := htexts _ _ htext
  have his : [y.code.bytes] = is.map fun i => i.code.bytes := by
    refine hunique _ (fun b hb => ?_) (by simp)
    rw [List.mem_singleton] at hb
    exact ⟨tokens', y, hy, hb.symm⟩
  refine ⟨x, y, hx, hy, hprefix, hxb, (hcodes _ _ x y hx hy hprefix).2, htext, fun cs hcs h => ?_⟩
  rw [his]
  exact hunique cs hcs h

end Encoder
end RowAsm
