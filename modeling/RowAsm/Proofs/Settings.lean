import RowAsm.Proofs.Selection

/-!
# Settings do not change answers

An encoder over the templates of rows gives a statement the same answer with and without the
mnemonic index (`encode_eq_of_table`): a template that the index leaves out does not accept the
first token, and such a failure never replaces the one that the selection starts with. The limits
only decide whether a text is encoded at all, so two runs on a text that both stay within their
limits agree, whatever the settings (`encodeText_eq`, `encodeLine_eq`).
-/

namespace RowAsm

/-! ### Attempts that do not count -/

namespace Selection

variable {n : Nat} {s s' : Selection} {a : Attempt}

theorem deepest_le_of_consider (h : s.deepest.remaining ≤ n) (hs : s.consider a = .ok s') :
    s'.deepest.remaining ≤ n := by
  unfold consider at hs
  split at hs
  · cases hs
    split_ifs <;> exact h
  · rename_i m _
    cases hs
    split_ifs with hm
    · have : m.remaining < s.deepest.remaining := by simpa [deepens] using hm
      exact this.le.trans h
    · exact h
  · cases hs

/-- A failure that accepts none of the `n` tokens changes nothing. -/
theorem consider_of_refused {kind : Mismatch.Kind} (h : s.deepest.remaining ≤ n)
    (ha : a.outcome = .error (.refused ⟨n, kind⟩)) : s.consider a = .ok s := by
  have hd : s.deepens ⟨n, kind⟩ = false := by simpa [deepens] using h
  simp [consider, ha, hd]

/-- Attempts that accept none of the `n` tokens can be left out. -/
theorem foldlM_filter {as : List Attempt} {p : Attempt → Bool}
    (hp : ∀ a ∈ as, p a = false → ∃ kind, a.outcome = .error (.refused ⟨n, kind⟩))
    (h : s.deepest.remaining ≤ n) :
    (as.filter p).foldlM consider s = as.foldlM consider s := by
  induction as generalizing s with
  | nil => rfl
  | cons a as ih =>
    have ih' := fun {s} => ih (s := s) fun b hb => hp b (by simp [hb])
    cases hpa : p a with
    | false =>
      -- it accepts nothing, and no failure that is kept is worse than that
      obtain ⟨kind, ha⟩ := hp a (by simp) hpa
      rw [List.filter_cons_of_neg (by simp [hpa]), List.foldlM_cons, consider_of_refused h ha,
        ih' h]
      rfl
    | true =>
      rw [List.filter_cons_of_pos hpa, List.foldlM_cons, List.foldlM_cons]
      cases hc : s.consider a with
      | error f => rfl
      | ok s' => exact ih' (deepest_le_of_consider h hc)

end Selection

/-! ### The index -/

/-- A template does not accept the first token unless it is the mnemonic, in lower case. -/
theorem Template.encode_of_mnemonic_ne {t : Template} (ht : t.WellFormed) {tok : String}
    (h : t.mnemonic ≠ Text.lower tok) (ts : List String) :
    t.encode (tok :: ts) = .error (.refused ⟨(tok :: ts).length, .instruction⟩) := by
  have hsame : Text.same tok t.mnemonic = false := by
    rw [← Bool.not_eq_true, Text.same_iff, ht.lower_mnemonic]
    exact Ne.symm h
  rw [encode_eq_refused_iff, capture, Reader.expect, hsame]
  rfl

theorem Template.encode_nil (t : Template) : t.encode [] = .error (.refused ⟨0, .instruction⟩) :=
  rfl

namespace Encoder

/-- The attempts with the index are those of the whole table that try the mnemonic. -/
theorem attempts_of_indexed {e : Encoder} (h : e.settings.indexed = true) (t : String)
    (ts : List String) :
    e.attempts (t :: ts) =
      (attempts ⟨e.table, { e.settings with indexed := false }⟩ (t :: ts)).filter
        fun a => a.template.mnemonic == Text.lower t := by
  rw [attempts, attempts, candidates_of_indexed h, candidates_of_not_indexed rfl, List.filter_map]
  rfl

/-- The index finds what the whole table has. -/
theorem select_eq_of_not_indexed {rows : List Row} {e : Encoder} (he : e.table = .compile rows)
    (tokens : List String) :
    e.select tokens = select ⟨e.table, { e.settings with indexed := false }⟩ tokens := by
  cases hi : e.settings.indexed with
  | false => simp only [← hi]
  | true =>
    have hskip : ∀ a ∈ attempts ⟨e.table, { e.settings with indexed := false }⟩ tokens,
        a.template.WellFormed ∧ a.outcome = a.template.encode tokens := by
      intro a ha
      exact mem_attempts (e := ⟨e.table, { e.settings with indexed := false }⟩) he ha
    cases tokens with
    | nil =>
      -- without a first token the index finds nothing, and no template accepts anything
      have hnil : e.attempts [] =
          (attempts ⟨e.table, { e.settings with indexed := false }⟩ []).filter fun _ => false := by
        simp [attempts, candidates, positions, hi]
      rw [select, hnil]
      refine Selection.foldlM_filter (n := 0) (fun a ha _ => ⟨.instruction, ?_⟩) le_rfl
      rw [(hskip a ha).2, Template.encode_nil]
    | cons t ts =>
      rw [select, attempts_of_indexed hi]
      refine Selection.foldlM_filter (n := (t :: ts).length)
        (fun a ha hne => ⟨.instruction, ?_⟩) le_rfl
      rw [(hskip a ha).2, Template.encode_of_mnemonic_ne (hskip a ha).1 (by simpa using hne)]

/-- **Encoders over one table of rows give a statement one answer**, whatever their settings. -/
theorem encode_eq_of_table {rows : List Row} {e e' : Encoder} (he : e.table = .compile rows)
    (he' : e'.table = .compile rows) (tokens : List String) :
    e.encode tokens = e'.encode tokens := by
  have h : e.select tokens = e'.select tokens := by
    rw [select_eq_of_not_indexed he, select_eq_of_not_indexed he', he, he']
    rfl
  rw [encode, encode, h]

/-! ### Texts -/

/-- An answer that reports no limit. -/
def WithinLimits {α : Type} (r : Except (Halt Diagnostic) α) : Prop :=
  ∀ resource limit, r ≠ .error (.refused (.overLimit resource limit))

variable {rows : List Row} {e e' : Encoder}

theorem encodeStatement_of_withinLimits {ts : List Token}
    (h : WithinLimits (e.encodeStatement ts)) : ts.length ≤ e.settings.maxTokens := by
  by_contra hlt
  exact h "statement tokens" e.settings.maxTokens (by rw [encodeStatement, if_pos (not_le.1 hlt)])

theorem encodeStatement_eq (he : e.table = .compile rows) (he' : e'.table = .compile rows)
    {ts : List Token} (h : WithinLimits (e.encodeStatement ts))
    (h' : WithinLimits (e'.encodeStatement ts)) : e.encodeStatement ts = e'.encodeStatement ts := by
  rw [encodeStatement, if_neg (not_lt.2 (encodeStatement_of_withinLimits h)), encodeStatement,
    if_neg (not_lt.2 (encodeStatement_of_withinLimits h')), encode_eq_of_table he he']

/-- Statement by statement, two runs within their limits agree. -/
theorem encodeStatements_eq (he : e.table = .compile rows) (he' : e'.table = .compile rows)
    {ss : List (List Token)} (h : WithinLimits (e.encodeStatements ss))
    (h' : WithinLimits (e'.encodeStatements ss)) :
    e.encodeStatements ss = e'.encodeStatements ss := by
  induction ss with
  | nil => rfl
  | cons s ss ih =>
    have hhead : ∀ {d : Encoder}, WithinLimits (d.encodeStatements (s :: ss)) →
        WithinLimits (d.encodeStatement s) := by
      intro d hd r l hr
      exact hd r l (by rw [encodeStatements, hr])
    have heq := encodeStatement_eq he he' (hhead h) (hhead h')
    cases hs : e.encodeStatement s with
    | error d => rw [encodeStatements, encodeStatements, ← heq, hs]
    | ok i =>
      have htail : ∀ {d : Encoder}, d.encodeStatement s = .ok i →
          WithinLimits (d.encodeStatements (s :: ss)) → WithinLimits (d.encodeStatements ss) := by
        intro d hi hd r l hr
        exact hd r l (by rw [encodeStatements, hi, hr])
      have := ih (htail hs h) (htail (heq ▸ hs) h')
      rw [encodeStatements, encodeStatements, ← heq, hs, this]

theorem readText_eq_statements {text : String}
    (h : ∀ resource limit, e.readText text ≠ .error (.overLimit resource limit)) :
    e.readText text = statements text := by
  unfold readText at h ⊢
  split_ifs at h ⊢
  · exact absurd rfl (h _ _)
  · rfl

theorem readText_of_encodeText {text : String} (h : WithinLimits (e.encodeText text)) :
    e.readText text = statements text :=
  readText_eq_statements fun r l hr => h r l (by rw [encodeText, hr])

theorem readText_of_encodeLine {text : String} (h : WithinLimits (e.encodeLine text)) :
    e.readText text = statements text :=
  readText_eq_statements fun r l hr => h r l (by rw [encodeLine, readLine, hr])

theorem encodeText_eq (he : e.table = .compile rows) (he' : e'.table = .compile rows)
    {text : String} (h : WithinLimits (e.encodeText text))
    (h' : WithinLimits (e'.encodeText text)) : e.encodeText text = e'.encodeText text := by
  have hr := readText_of_encodeText h
  have hr' := readText_of_encodeText h'
  rw [encodeText, hr] at h ⊢
  rw [encodeText, hr'] at h' ⊢
  cases hs : statements text with
  | error d => rfl
  | ok ss =>
    rw [hs] at h h'
    exact encodeStatements_eq he he' h h'

theorem encodeLine_eq (he : e.table = .compile rows) (he' : e'.table = .compile rows)
    {text : String} (h : WithinLimits (e.encodeLine text))
    (h' : WithinLimits (e'.encodeLine text)) : e.encodeLine text = e'.encodeLine text := by
  have hr : e.readLine text = e'.readLine text := by
    rw [readLine, readLine, readText_of_encodeLine h, readText_of_encodeLine h']
  rw [encodeLine] at h ⊢
  rw [encodeLine, ← hr] at h' ⊢
  cases hs : e.readLine text with
  | error d => rfl
  | ok s =>
    rw [hs] at h h'
    exact encodeStatement_eq he he' h h'

/-- **The settings do not change answers.** Over the table of any rows, a statement has one answer
whatever the settings, with the index or without it; and two runs on a text agree, whatever their
settings, if neither reports a limit. -/
theorem encode_eq_whatever_settings (rows : List Row) (s₁ s₂ : Settings) :
    let e₁ : Encoder := { table := .compile rows, settings := s₁ }
    let e₂ : Encoder := { table := .compile rows, settings := s₂ }
    (∀ tokens, e₁.encode tokens = e₂.encode tokens) ∧
    (∀ text, WithinLimits (e₁.encodeText text) → WithinLimits (e₂.encodeText text) →
      e₁.encodeText text = e₂.encodeText text) ∧
    (∀ text, WithinLimits (e₁.encodeLine text) → WithinLimits (e₂.encodeLine text) →
      e₁.encodeLine text = e₂.encodeLine text) := by
  intro e₁ e₂
  exact ⟨encode_eq_of_table rfl rfl, fun _ => encodeText_eq rfl rfl,
    fun _ => encodeLine_eq rfl rfl⟩

theorem withinLimits_ok {α : Type} (a : α) : WithinLimits (.ok a) := by
  rintro r l ⟨⟩

theorem encode_nop_whatever_settings :
    let e₁ : Encoder := { table := .compile nopRows, settings := ⟨true, 1, 7⟩ }
    let e₂ : Encoder := { table := .compile nopRows, settings := ⟨false, 64, 1024⟩ }
    WithinLimits (e₁.encodeText "NOP;nop") ∧ WithinLimits (e₂.encodeText "NOP;nop") ∧
      e₁.encodeText "NOP;nop" = e₂.encodeText "NOP;nop" ∧
      WithinLimits (e₁.encodeLine "nop") ∧ WithinLimits (e₂.encodeLine "nop") ∧
      e₁.encodeLine "nop" = e₂.encodeLine "nop" := by
  intro e₁ e₂
  have t₁ : e₁.encodeText "NOP;nop" = .ok [0x90, 0x90] := by decide +kernel
  have t₂ : e₂.encodeText "NOP;nop" = .ok [0x90, 0x90] := by decide +kernel
  have l₁ : e₁.encodeLine "nop" = .ok ⟨⟨[0x90], by decide⟩, 1⟩ := by decide +kernel
  have l₂ : e₂.encodeLine "nop" = .ok ⟨⟨[0x90], by decide⟩, 1⟩ := by decide +kernel
  have h := encode_eq_whatever_settings nopRows ⟨true, 1, 7⟩ ⟨false, 64, 1024⟩
  have wt₁ : WithinLimits (e₁.encodeText "NOP;nop") := t₁ ▸ withinLimits_ok _
  have wt₂ : WithinLimits (e₂.encodeText "NOP;nop") := t₂ ▸ withinLimits_ok _
  have wl₁ : WithinLimits (e₁.encodeLine "nop") := l₁ ▸ withinLimits_ok _
  have wl₂ : WithinLimits (e₂.encodeLine "nop") := l₂ ▸ withinLimits_ok _
  exact ⟨wt₁, wt₂, h.2.1 _ wt₁ wt₂, wl₁, wl₂, h.2.2 _ wl₁ wl₂⟩

end Encoder
end RowAsm
