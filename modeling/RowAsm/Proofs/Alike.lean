import RowAsm.Proofs.Viable

/-!
# Tokens that are read alike

A template looks at a token in two ways only: it takes its value as a literal, and it asks whether
the token agrees with a word up to case. So tokens that have the same value and agree with the same
words are interchangeable.

`Grammar.Alike R` says this of the tokens that `R` relates, as far as words without a value are
concerned; a fixed operand may be a word with a value, and is treated apart (`Respects`). What is
alike then belongs to the same phrases (`Closed`), up to the statements of a template, which decide
everything that matching can answer. Hence matching (`capture_eq_of_variant`) and encoding
(`encode_eq_of_variant`) give one answer.
-/

namespace RowAsm

open Text (same)

theorem exists_append_of_forall₂ {α β : Type} {R : α → β → Prop} {l l' : List α} {k : List β}
    (h : List.Forall₂ R (l ++ l') k) :
    ∃ m m', k = m ++ m' ∧ List.Forall₂ R l m ∧ List.Forall₂ R l' m' := by
  have hleft := List.forall₂_take_append k l l' h.flip
  have hright := List.forall₂_drop_append k l l' h.flip
  exact ⟨k.take l.length, k.drop l.length, (List.take_append_drop _ k).symm, hleft.flip,
    hright.flip⟩

namespace Grammar

/-- Related tokens have the same value and agree with the same words, those with a value apart. -/
structure Alike (R : String → String → Prop) : Prop where
  refl : ∀ s, R s s
  symm : ∀ {s t}, R s t → R t s
  value : ∀ {s t}, R s t → Literal.value? s = Literal.value? t
  word : ∀ {s t w}, R s t → Literal.value? w = none → same s w = true → same t w = true

/-- Related tokens agree with the same fixed operands among `ops`. -/
def Respects (R : String → String → Prop) (ops : List Operand) : Prop :=
  ∀ word, Operand.fixed word ∈ ops → ∀ s t, R s t → same s word = true → same t word = true

/-- A phrase stays one, with the same meaning, when its tokens are replaced by related ones. -/
def Closed (R : String → String → Prop) {α : Type} (L : List String → α → Prop) : Prop :=
  ∀ w a, L w a → ∀ w', List.Forall₂ R w w' → L w' a

variable {R : String → String → Prop}

/-- A mark, which has no letters and no value, is related to itself only. -/
theorem Alike.eq_mark (hR : Alike R) {s t : String} (h : R s t)
    (hs : s.toList.all (fun d => !d.isAlpha) = true) (hv : Literal.value? s = none) : t = s :=
  (Text.same_iff_eq hs).1 (hR.word h hv (Text.same_self s))

theorem value?_name (r : Register) : Literal.value? r.name = none := by
  cases r with
  | r64 i | r32 i | r16 i | low8 i => revert i; decide
  | high8 i => revert i; decide
  | rip => decide

theorem value?_accessWord (bits : Nat) : Literal.value? (Reader.accessWord bits) = none := by
  unfold Reader.accessWord
  split <;> decide

theorem Alike.named (hR : Alike R) {s t : String} (h : R s t) {r : Register} {bits : Nat}
    (hs : r.Named bits s) : r.Named bits t :=
  ⟨hs.1, hs.2.1, hR.word h (value?_name r) hs.2.2⟩

theorem Alike.access (hR : Alike R) {s t u v : String} (h : R s t) (h' : R u v) {bits : Nat}
    (hs : Access bits s u) : Access bits t v :=
  ⟨hR.word h (value?_accessWord bits) hs.1, hR.word h' (by decide) hs.2⟩

/-! ### Phrases -/

theorem closed_number (hR : Alike R) (bits : Nat) : Closed R (Number bits) := by
  intro w v h w' hw
  cases h with
  | plain ht hn =>
    rcases hw with _ | ⟨h₁, _ | _⟩
    rw [hR.value h₁] at ht
    exact .plain ht hn
  | negated ht hn =>
    rcases hw with _ | ⟨h₁, _ | ⟨h₂, _ | _⟩⟩
    rw [hR.value h₂] at ht
    rw [hR.eq_mark h₁ (by decide) (by decide)]
    exact .negated ht hn

theorem closed_afterBase (hR : Alike R) (b : Register) : Closed R (AfterBase b) := by
  intro w p h w' hw
  have hclose : ∀ {t}, R "]" t → t = "]" := fun h => hR.eq_mark h (by decide) (by decide)
  cases h with
  | close =>
    rcases hw with _ | ⟨h₁, _ | _⟩
    rw [hclose h₁]
    exact .close
  | plus ht hn =>
    rcases hw with _ | ⟨h₁, _ | ⟨h₂, _ | ⟨h₃, _ | _⟩⟩⟩
    rw [hR.value h₂] at ht
    rw [hR.eq_mark h₁ (by decide) (by decide), hclose h₃]
    exact .plus ht hn
  | minus ht hn =>
    rcases hw with _ | ⟨h₁, _ | ⟨h₂, _ | ⟨h₃, _ | _⟩⟩⟩
    rw [hR.value h₂] at ht
    rw [hR.eq_mark h₁ (by decide) (by decide), hclose h₃]
    exact .minus ht hn

theorem closed_memory (hR : Alike R) : Closed R Memory := by
  rintro _ p ⟨hb, ht, h⟩ w' hw
  rcases hw with _ | ⟨h₁, _ | ⟨h₂, hw⟩⟩
  rw [hR.eq_mark h₁ (by decide) (by decide)]
  exact .intro hb (hR.word h₂ (value?_name _) ht) (closed_afterBase hR _ _ _ h _ hw)

theorem closed_phrase (hR : Alike R) {o : Operand} (ho : Respects R [o]) :
    Closed R (Phrase o) := by
  intro w v h w' hw
  cases h with
  | immediate h => exact .immediate (closed_number hR _ _ _ h _ hw)
  | relative h => exact .relative (closed_number hR _ _ _ h _ hw)
  | fixed h =>
    rcases hw with _ | ⟨h₁, _ | _⟩
    exact .fixed (ho _ (by simp) _ _ h₁ h)
  | register h =>
    rcases hw with _ | ⟨h₁, _ | _⟩
    exact .register (hR.named h₁ h)
  | direct h =>
    rcases hw with _ | ⟨h₁, _ | _⟩
    exact .direct (hR.named h₁ h)
  | sized ha h =>
    rcases hw with _ | ⟨h₁, _ | ⟨h₂, hw⟩⟩
    exact .sized (hR.access h₁ h₂ ha) (closed_memory hR _ _ h _ hw)
  | unsized h => exact .unsized (closed_memory hR _ _ h _ hw)
  | anySized hb ha h =>
    rcases hw with _ | ⟨h₁, _ | ⟨h₂, hw⟩⟩
    exact .anySized hb (hR.access h₁ h₂ ha) (closed_memory hR _ _ h _ hw)

theorem Respects.of_subset {ops ops' : List Operand} (h : Respects R ops') (hsub : ops ⊆ ops') :
    Respects R ops :=
  fun word hword => h word (hsub hword)

theorem closed_further (hR : Alike R) {ops : List Operand} (hops : Respects R ops) :
    Closed R (Further ops) := by
  intro w vs h
  induction h with
  | nil =>
    intro w' hw
    cases hw
    exact .nil
  | cons h hs ih =>
    intro w' hw
    rcases hw with _ | ⟨h₁, hw⟩
    obtain ⟨u, u', rfl, hu, hu'⟩ := exists_append_of_forall₂ hw
    rw [hR.eq_mark h₁ (by decide) (by decide)]
    exact .cons (closed_phrase hR (hops.of_subset (by simp)) _ _ h _ hu)
      (ih (hops.of_subset (by simp)) _ hu')

theorem closed_phrases (hR : Alike R) {ops : List Operand} (hops : Respects R ops) :
    Closed R (Phrases ops) := by
  intro w vs h w' hw
  cases h with
  | nil =>
    cases hw
    exact .nil
  | cons h hs =>
    obtain ⟨u, u', rfl, hu, hu'⟩ := exists_append_of_forall₂ hw
    exact .cons (closed_phrase hR (hops.of_subset (by simp)) _ _ h _ hu)
      (closed_further hR (hops.of_subset (by simp)) _ _ hs _ hu')

theorem Closed.viable (hR : Alike R) {α : Type} {L : List String → α → Prop} (hL : Closed R L)
    {w w' : List String} (hw : List.Forall₂ R w w') (h : Viable L w) : Viable L w' := by
  obtain ⟨rest, a, ha⟩ := h
  exact ⟨rest, a, hL _ _ ha _ (List.rel_append hw (List.forall₂_same.2 fun s _ => hR.refl s))⟩

/-- The first tokens agree up to case, and the tokens after them are related. -/
inductive Variant (R : String → String → Prop) : List String → List String → Prop
  | nil : Variant R [] []
  | cons {x x' : String} {w w' : List String} (hx : same x x' = true) (hw : List.Forall₂ R w w') :
      Variant R (x :: w) (x' :: w')

namespace Variant

variable {w w' : List String}

theorem symm (hR : Alike R) (h : Variant R w w') : Variant R w' w := by
  cases h with
  | nil => exact .nil
  | cons hx hw => exact .cons (Text.same_comm.1 hx) (hw.flip.imp fun _ _ => hR.symm)

theorem length_eq (h : Variant R w w') : w.length = w'.length := by
  cases h with
  | nil => rfl
  | cons _ hw => rw [List.length_cons, List.length_cons, hw.length_eq]

theorem take (h : Variant R w w') (k : Nat) : Variant R (w.take k) (w'.take k) := by
  cases h with
  | nil => simpa using .nil
  | cons hx hw =>
    cases k with
    | zero => exact .nil
    | succ k => exact .cons hx (List.forall₂_take k hw)

end Variant
end Grammar

/-! ### Matching -/

namespace Template

open Grammar

variable {R : String → String → Prop} {t : Template} {tokens tokens' : List String}

theorem statement_of_variant (hR : Alike R) (hops : Respects R t.operands)
    (h : Variant R tokens tokens') {vs : List Value} (hs : t.Statement tokens vs) :
    t.Statement tokens' vs := by
  cases h with
  | nil => exact hs
  | cons hx hw =>
    rw [statement_cons_iff] at hs ⊢
    exact ⟨Text.same_trans (Text.same_comm.1 hx) hs.1, closed_phrases hR hops _ _ hs.2 _ hw⟩

theorem viable_of_variant (ht : t.WellFormed) (hR : Alike R) (hops : Respects R t.operands)
    (h : Variant R tokens tokens') (hv : Viable t.Statement tokens) :
    Viable t.Statement tokens' := by
  cases h with
  | nil => exact viable_statement_nil ht
  | cons hx hw =>
    rw [viable_statement_cons_iff] at hv ⊢
    exact ⟨Text.same_trans (Text.same_comm.1 hx) hv.1, (closed_phrases hR hops).viable hR hw hv.2⟩

/-- Matching succeeds on the statements whose registers go together. -/
theorem capture_eq_ok_iff_of_sized (hops : ∀ o ∈ t.operands, o.Sized)
    (hlen : t.operands.length ≤ 2) {c : Captures} :
    t.capture tokens = .ok c ↔ ∃ vs, t.Statement tokens vs ∧
      t.conflicts (vs.foldl Captures.add .empty) = false ∧
      c = { vs.foldl Captures.add .empty with consumed := tokens.length } := by
  have hexact := exact_readOperands hops hlen
  constructor
  · intro h
    unfold capture at h
    split at h
    · cases h
    · rename_i ts hexpect
      obtain ⟨x, rfl, hx⟩ := Reader.expect_eq_ok_iff.1 hexpect
      split at h
      · cases h
      · rename_i d rest hread
        split_ifs at h with hrest hconflict
        · cases h
        · cases h
        · cases h
          obtain rfl : rest = [] := by simpa using hrest
          obtain ⟨w, rfl, vs, hvs, rfl⟩ := (hexact.ok_iff _ _ _).1 hread
          rw [Bool.not_eq_true] at hconflict
          exact ⟨vs, statement_cons_iff.2 ⟨hx, by simpa using hvs⟩, hconflict, rfl⟩
  · rintro ⟨vs, ⟨x, w, rfl, hx, hvs⟩, hconflict, rfl⟩
    have hread := hexact.read_append ⟨vs, hvs, rfl⟩ []
    rw [List.append_nil] at hread
    simp only [capture, Reader.expect_eq_ok_iff.2 ⟨x, rfl, hx⟩, hread, hconflict]
    rfl

theorem capture_eq_ok_iff (ht : t.WellFormed) {c : Captures} :
    t.capture tokens = .ok c ↔ ∃ vs, t.Statement tokens vs ∧
      t.conflicts (vs.foldl Captures.add .empty) = false ∧
      c = { vs.foldl Captures.add .empty with consumed := tokens.length } :=
  capture_eq_ok_iff_of_sized ht.operands_sized ht.length_operands

/-- The language of a template decides how it refuses a statement. -/
theorem StopsAt.eq_of_iff {m m' : Mismatch} (h : t.StopsAt tokens m) (h' : t.StopsAt tokens' m')
    (hlen : tokens.length = tokens'.length)
    (hviable : ∀ k, Viable t.Statement (tokens.take k) ↔ Viable t.Statement (tokens'.take k))
    (hstatement : ∀ k, (∃ vs, t.Statement (tokens.take k) vs) ↔
      ∃ vs, t.Statement (tokens'.take k) vs) : m = m' := by
  have hset : {k | k ≤ tokens.length ∧ Viable t.Statement (tokens.take k)} =
      {k | k ≤ tokens'.length ∧ Viable t.Statement (tokens'.take k)} :=
    Set.ext fun k => and_congr (by rw [hlen]) (hviable k)
  have hn : tokens.length - m.remaining = tokens'.length - m'.remaining :=
    h.longest.unique (hset ▸ h'.longest)
  have hrem : m.remaining = m'.remaining := by
    have := h.remaining_le
    have := h'.remaining_le
    omega
  have hinstruction : m.kind = .instruction ↔ m'.kind = .instruction := by
    rw [h.instruction_iff, h'.instruction_iff, hn]
  have htrailing : m.kind = .trailing ↔ m'.kind = .trailing := by
    rw [h.trailing_iff, h'.trailing_iff, hn, hstatement, hlen]
  obtain ⟨n, kind⟩ := m
  obtain ⟨n', kind'⟩ := m'
  obtain rfl : n = n' := hrem
  cases kind <;> cases kind' <;> simp_all

/-- **Matching does not tell variants apart.** -/
theorem capture_eq_of_variant (ht : t.WellFormed) (hR : Alike R) (hops : Respects R t.operands)
    (h : Variant R tokens tokens') : t.capture tokens = t.capture tokens' := by
  have hok : ∀ {ts ts' c}, Variant R ts ts' → t.capture ts = .ok c → t.capture ts' = .ok c := by
    intro ts ts' c hts hc
    obtain ⟨vs, hvs, hconflict, rfl⟩ := (capture_eq_ok_iff ht).1 hc
    exact (capture_eq_ok_iff ht).2
      ⟨vs, statement_of_variant hR hops hts hvs, hconflict, by rw [hts.length_eq]⟩
  cases hc : t.capture tokens with
  | ok c => exact (hok h hc).symm
  | error halt =>
    cases halt with
    | fault f => exact absurd hc (capture_ne_fault ht tokens f)
    | refused m =>
      cases hc' : t.capture tokens' with
      | ok c =>
        rw [hok (h.symm hR) hc'] at hc
        cases hc
      | error halt' =>
        cases halt' with
        | fault f => exact absurd hc' (capture_ne_fault ht tokens' f)
        | refused m' =>
          have hm : m = m' := by
            refine (stopsAt_of_capture ht hc).eq_of_iff (stopsAt_of_capture ht hc') h.length_eq
              (fun k => ⟨?_, ?_⟩) (fun k => ⟨?_, ?_⟩)
            · exact viable_of_variant ht hR hops (h.take k)
            · exact viable_of_variant ht hR hops ((h.take k).symm hR)
            · exact fun ⟨vs, hvs⟩ => ⟨vs, statement_of_variant hR hops (h.take k) hvs⟩
            · exact fun ⟨vs, hvs⟩ => ⟨vs, statement_of_variant hR hops ((h.take k).symm hR) hvs⟩
          rw [hm]

end Template

/-! ### Encoding -/

namespace Encoder

open Grammar

/-- Statements of one length that every template captures alike have one encoding. -/
theorem encode_eq_of_capture_eq {rows : List Row} {e : Encoder} (he : e.table = .compile rows)
    {tokens tokens' : List String} (hlen : tokens.length = tokens'.length)
    (h : ∀ t ∈ e.table.templates, t.capture tokens = t.capture tokens') :
    e.encode tokens = e.encode tokens' := by
  let whole : Encoder := ⟨e.table, { e.settings with indexed := false }⟩
  have hwhole : whole.table = .compile rows := he
  -- the whole table is tried, whatever the tokens are
  have hattempts : whole.attempts tokens = whole.attempts tokens' := by
    rw [attempts, attempts, candidates_of_not_indexed rfl, candidates_of_not_indexed rfl]
    refine List.map_congr_left ?_
    rintro ⟨t, i⟩ hp
    have ht : t ∈ e.table.templates := List.mem_of_getElem? (List.mem_zipIdx_iff_getElem?.1 hp)
    simp only [Template.encode, h t ht]
  rw [encode_eq_of_table he hwhole, encode_eq_of_table he hwhole, encode, encode, select, select,
    hattempts, hlen]

/-- **Encoding does not tell variants apart**, if no fixed operand does. -/
theorem encode_eq_of_variant {rows : List Row} {e : Encoder} (he : e.table = .compile rows)
    {R : String → String → Prop} (hR : Alike R)
    (hops : ∀ t ∈ e.table.templates, Respects R t.operands) {tokens tokens' : List String}
    (h : Variant R tokens tokens') : e.encode tokens = e.encode tokens' := by
  refine encode_eq_of_capture_eq he h.length_eq fun t ht => ?_
  have hwf : t.WellFormed :=
    Table.wellFormed_of_mem (show t ∈ (Table.compile rows).templates from he ▸ ht)
  exact Template.capture_eq_of_variant hwf hR (hops t ht) h

end Encoder
end RowAsm
