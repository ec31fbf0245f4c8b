import RowAsm.Encoder.Basic
import RowAsm.Proofs.Length

/-!
# Exact selection

`Encoder.encode` tries one template after another and keeps the best code and the deepest failure so
far. `Selection.Sums n as s` is the invariant of that loop: after the attempts `as` of a statement
of `n` tokens the selection `s` holds the first of the shortest codes and the first of the deepest
failures. One more attempt preserves it (`sums_consider`), hence a whole run does (`sums_foldlM`).

For the templates of rows no attempt faults, so every run ends in a selection (`exists_select`), and
the answer of an encoder that tries the whole table is the first shortest encoding or the first
deepest failure.
-/

namespace RowAsm

/-! ### The first of the least -/

/-- Of the pairs in `R`, `(i, a)` has the least key, and among those with the least key the least
index. -/
def FirstLeast {α : Type} (R : Nat → α → Prop) (key : α → Nat) (i : Nat) (a : α) : Prop :=
  R i a ∧ ∀ j b, R j b → key a < key b ∨ (key a = key b ∧ i ≤ j)

section FirstLeast

variable {α : Type} {R S : Nat → α → Prop} {key : α → Nat} {i k : Nat} {a x : α}

/-- A later pair whose key is not smaller changes nothing. -/
theorem FirstLeast.keep (h : FirstLeast R key i a) (hRS : ∀ j b, R j b → S j b)
    (hSR : ∀ j b, S j b → R j b ∨ (j = k ∧ b = x)) (hk : i ≤ k) (hx : key a ≤ key x) :
    FirstLeast S key i a := by
  refine ⟨hRS i a h.1, ?_⟩
  intro j b hb
  rcases hSR j b hb with hb | ⟨rfl, rfl⟩
  · exact h.2 j b hb
  · omega

/-- A pair whose key is smaller than all others takes their place. -/
theorem firstLeast_of_lt (h : ∀ j b, R j b → key x < key b) (hx : S k x)
    (hSR : ∀ j b, S j b → R j b ∨ (j = k ∧ b = x)) : FirstLeast S key k x := by
  refine ⟨hx, ?_⟩
  intro j b hb
  rcases hSR j b hb with hb | ⟨rfl, rfl⟩
  · exact Or.inl (h j b hb)
  · exact Or.inr ⟨rfl, le_rfl⟩

theorem FirstLeast.lt_of_lt (h : FirstLeast R key i a) (hx : key x < key a) (j : Nat) (b : α)
    (hb : R j b) : key x < key b := by
  have := h.2 j b hb
  omega

end FirstLeast

/-! ### The loop -/

namespace Selection

/-- Some attempt has the index `i` and ended in the outcome `f x`. -/
def Ended {α : Type} (f : α → Except (Halt Mismatch) Code) (as : List Attempt) (i : Nat) (x : α) :
    Prop :=
  ∃ a ∈ as, a.index = i ∧ a.outcome = f x

/-- Some attempt has the index `i` and gave the code `code`. -/
abbrev Codes : List Attempt → Nat → Code → Prop := Ended .ok

/-- Some attempt has the index `i` and failed with `m`. -/
abbrev Failures : List Attempt → Nat → Mismatch → Prop := Ended fun m => .error (.refused m)

section Ended

variable {α : Type} {f : α → Except (Halt Mismatch) Code} {as : List Attempt} {a : Attempt}
  {i : Nat} {x y : α}

theorem ended_last (h : a.outcome = f x) : Ended f (as ++ [a]) a.index x :=
  ⟨a, by simp, rfl, h⟩

theorem Ended.append (h : Ended f as i x) : Ended f (as ++ [a]) i x := by
  obtain ⟨b, hb, h⟩ := h
  exact ⟨b, by simp [hb], h⟩

theorem Ended.of_append (h : Ended f (as ++ [a]) i x) :
    Ended f as i x ∨ (i = a.index ∧ a.outcome = f x) := by
  obtain ⟨b, hb, hi, hx⟩ := h
  rcases List.mem_append.1 hb with hb | hb
  · exact Or.inl ⟨b, hb, hi, hx⟩
  · rw [List.mem_singleton] at hb
    subst hb
    exact Or.inr ⟨hi.symm, hx⟩

theorem Ended.eq_of_append (hf : Function.Injective f) (ha : a.outcome = f y)
    (h : Ended f (as ++ [a]) i x) : Ended f as i x ∨ (i = a.index ∧ x = y) :=
  h.of_append.imp id fun h => ⟨h.1, hf (h.2.symm.trans ha)⟩

/-- An attempt that ended otherwise does not count. -/
theorem ended_append_of_ne (ha : ∀ x, a.outcome ≠ f x) : Ended f (as ++ [a]) = Ended f as := by
  funext i x
  exact propext ⟨fun h => h.of_append.resolve_right fun h => ha x h.2, Ended.append⟩

theorem Ended.le (hlt : ∀ b ∈ as, b.index < a.index) (h : Ended f as i x) : i ≤ a.index := by
  obtain ⟨b, hb, rfl, -⟩ := h
  exact (hlt b hb).le

end Ended

theorem ok_injective : Function.Injective (.ok : Code → Except (Halt Mismatch) Code) :=
  fun _ _ h => Except.ok.inj h

theorem refused_injective :
    Function.Injective fun m => (.error (.refused m) : Except (Halt Mismatch) Code) :=
  fun _ _ h => Halt.refused.inj (Except.error.inj h)

/-- What a selection knows after the attempts `as` of a statement of `n` tokens. -/
structure Sums (n : Nat) (as : List Attempt) (s : Selection) : Prop where
  best : (s.best = none ∧ ∀ i code, ¬ Codes as i code) ∨
    ∃ x, s.best = some x ∧ FirstLeast (Codes as) Code.size x.template x.code
  deepest : (s.deepest = ⟨n, .instruction⟩ ∧ ∀ i m, Failures as i m → n ≤ m.remaining) ∨
    (s.deepest.remaining < n ∧ ∃ i, FirstLeast (Failures as) Mismatch.remaining i s.deepest)

theorem sums_start (n : Nat) : Sums n [] (start n) where
  best := Or.inl ⟨rfl, by simp [Ended]⟩
  deepest := Or.inl ⟨rfl, by simp [Ended]⟩

variable {n : Nat} {as : List Attempt} {s s' : Selection} {a : Attempt}

theorem sums_consider_ok (h : Sums n as s) (hlt : ∀ b ∈ as, b.index < a.index) {code : Code}
    (ha : a.outcome = .ok code) :
    Sums n (as ++ [a])
      (if s.improves code then { s with best := some ⟨code, a.index⟩ } else s) := by
  have hback : ∀ j b, Codes (as ++ [a]) j b → Codes as j b ∨ (j = a.index ∧ b = code) :=
    fun _ _ => Ended.eq_of_append ok_injective ha
  constructor
  · right
    rcases h.best with ⟨hb, hnone⟩ | ⟨x, hb, hx⟩
    · rw [if_pos (by simp [improves, hb])]
      exact ⟨_, rfl, firstLeast_of_lt (fun j b hjb => absurd hjb (hnone j b)) (ended_last ha) hback⟩
    · -- only a strictly shorter code takes the place of the best one: ties keep the earlier index
      by_cases hc : code.size < x.code.size
      · rw [if_pos (by simp [improves, hb, hc])]
        exact ⟨_, rfl, firstLeast_of_lt (hx.lt_of_lt hc) (ended_last ha) hback⟩
      · rw [if_neg (by simp [improves, hb]; omega)]
        exact ⟨x, hb, hx.keep (fun _ _ => Ended.append) hback (hx.1.le hlt) (by omega)⟩
  · rw [Failures, ended_append_of_ne (by simp [ha])]
    split_ifs <;> exact h.deepest

theorem sums_consider_refused (h : Sums n as s) (hlt : ∀ b ∈ as, b.index < a.index) {m : Mismatch}
    (ha : a.outcome = .error (.refused m)) :
    Sums n (as ++ [a]) (if s.deepens m then { s with deepest := m } else s) := by
  have hback : ∀ j b, Failures (as ++ [a]) j b → Failures as j b ∨ (j = a.index ∧ b = m) :=
    fun _ _ => Ended.eq_of_append refused_injective ha
  constructor
  · rw [Codes, ended_append_of_ne (by simp [ha])]
    split_ifs <;> exact h.best
  · rcases h.deepest with ⟨hd, hnone⟩ | ⟨hn, i, hi⟩
    · -- nothing has accepted a token so far, and the start stays unless this attempt does
      by_cases hm : m.remaining < n
      · rw [if_pos (by simp [deepens, hd, hm])]
        exact Or.inr ⟨hm, _, firstLeast_of_lt (fun j b hjb => lt_of_lt_of_le hm (hnone j b hjb))
          (ended_last ha) hback⟩
      · rw [if_neg (by simp [deepens, hd]; omega)]
        refine Or.inl ⟨hd, fun j b hb => ?_⟩
        rcases hback j b hb with hb | ⟨-, rfl⟩
        · exact hnone j b hb
        · omega
    · by_cases hm : m.remaining < s.deepest.remaining
      · rw [if_pos (by simp [deepens, hm])]
        exact Or.inr ⟨hm.trans hn, _, firstLeast_of_lt (hi.lt_of_lt hm) (ended_last ha) hback⟩
      · rw [if_neg (by simp [deepens]; omega)]
        exact Or.inr ⟨hn, i, hi.keep (fun _ _ => Ended.append) hback (hi.1.le hlt) (by omega)⟩

/-- **One more attempt preserves the invariant.** -/
theorem sums_consider (h : Sums n as s) (hlt : ∀ b ∈ as, b.index < a.index)
    (hs : s.consider a = .ok s') : Sums n (as ++ [a]) s' := by
  unfold consider at hs
  split at hs
  · rename_i code ha
    cases hs
    exact sums_consider_ok h hlt ha
  · rename_i m ha
    cases hs
    exact sums_consider_refused h hlt ha
  · cases hs

/-- A run over further attempts, whose indices ascend, preserves the invariant. -/
theorem sums_foldlM {rest : List Attempt} (h : Sums n as s)
    (hlt : (as ++ rest).Pairwise fun a b => a.index < b.index)
    (hs : rest.foldlM consider s = .ok s') : Sums n (as ++ rest) s' := by
  induction rest generalizing as s with
  | nil =>
    cases hs
    simpa using h
  | cons a rest ih =>
    rw [List.foldlM_cons] at hs
    cases hc : s.consider a with
    | error f => rw [hc] at hs; cases hs
    | ok s₁ =>
      rw [hc] at hs
      have ha : ∀ b ∈ as, b.index < a.index := fun b hb =>
        (List.pairwise_append.1 hlt).2.2 b hb a (by simp)
      -- the attempt moves to the end of those that the invariant speaks of
      have hsums := sums_consider h ha hc
      simpa using ih hsums (by simpa using hlt) hs

/-- Attempts that do not fault lead to a selection. -/
theorem exists_foldlM (h : ∀ a ∈ as, ∀ f, a.outcome ≠ .error (.fault f)) (s : Selection) :
    ∃ s', as.foldlM consider s = .ok s' := by
  induction as generalizing s with
  | nil => exact ⟨s, rfl⟩
  | cons a as ih =>
    obtain ⟨s₁, hs₁⟩ : ∃ s₁, s.consider a = .ok s₁ := by
      unfold consider
      split
      · exact ⟨_, rfl⟩
      · exact ⟨_, rfl⟩
      · rename_i f hf
        exact absurd hf (h a (by simp) f)
    rw [List.foldlM_cons, hs₁]
    exact ih (fun b hb => h b (by simp [hb])) s₁

end Selection

/-! ### Attempts -/

namespace Template

variable {t : Template} {tokens : List String}

theorem encode_eq_ok_iff {code : Code} : t.encode tokens = .ok code ↔
    ∃ c, t.capture tokens = .ok c ∧ t.emit c = .ok code := by
  unfold encode
  cases hc : t.capture tokens with
  | error h => simp
  | ok c => cases he : t.emit c <;> simp [he]

theorem encode_eq_refused_iff {m : Mismatch} : t.encode tokens = .error (.refused m) ↔
    t.capture tokens = .error (.refused m) := by
  unfold encode
  cases hc : t.capture tokens with
  | error h => simp
  | ok c => cases he : t.emit c <;> simp [he]

theorem encode_ne_fault (ht : t.WellFormed) (tokens : List String) (f : Fault) :
    t.encode tokens ≠ .error (.fault f) := by
  unfold encode
  cases hc : t.capture tokens with
  | error h =>
    rintro ⟨⟩
    exact capture_ne_fault ht tokens f hc
  | ok c =>
    obtain ⟨code, hcode, -⟩ := exists_emit ht hc
    simp [hcode]

end Template

namespace Encoder

theorem filterMap_map_snd {l : List Template} {ps : List (Template × Nat)}
    (h : ∀ p ∈ ps, l[p.2]? = some p.1) :
    ((ps.map Prod.snd).filterMap fun i => l[i]?.map fun t => (t, i)) = ps := by
  induction ps with
  | nil => rfl
  | cons p ps ih =>
    have hp := h p (by simp)
    simp [hp, ih fun q hq => h q (by simp [hq])]

/-- Without the index all templates are tried. -/
theorem candidates_of_not_indexed {e : Encoder} (h : e.settings.indexed = false)
    (tokens : List String) : e.candidates tokens = e.table.templates.zipIdx := by
  have hpos : e.positions tokens = e.table.templates.zipIdx.map Prod.snd := by
    simp [positions, h, Table.size, List.range_eq_range']
  rw [candidates, hpos]
  exact filterMap_map_snd fun p hp => List.mem_zipIdx_iff_getElem?.1 hp

/-- With the index those are tried that have the first token in lower case as their mnemonic. -/
theorem candidates_of_indexed {e : Encoder} (h : e.settings.indexed = true) (t : String)
    (ts : List String) :
    e.candidates (t :: ts) =
      e.table.templates.zipIdx.filter fun p => p.1.mnemonic == Text.lower t := by
  have hpos : e.positions (t :: ts) =
      (e.table.templates.zipIdx.filter fun p => p.1.mnemonic == Text.lower t).map Prod.snd := by
    simp only [positions, h, if_true, e.table.index_eq, Index.find_ofTemplates]
  rw [candidates, hpos]
  exact filterMap_map_snd fun p hp => List.mem_zipIdx_iff_getElem?.1 (List.mem_filter.1 hp).1

/-- Whatever the settings, the candidates are templates of the table in their order. -/
theorem candidates_sublist (e : Encoder) (tokens : List String) :
    (e.candidates tokens).Sublist e.table.templates.zipIdx := by
  cases h : e.settings.indexed with
  | false => rw [candidates_of_not_indexed h]
  | true =>
    cases tokens with
    | nil => simp [candidates, positions, h]
    | cons t ts => rw [candidates_of_indexed h]; exact List.filter_sublist

theorem pairwise_attempts (e : Encoder) (tokens : List String) :
    (e.attempts tokens).Pairwise fun a b => a.index < b.index := by
  rw [attempts, List.pairwise_map]
  refine List.Pairwise.sublist (e.candidates_sublist tokens) ?_
  have : (e.table.templates.zipIdx.map Prod.snd).Pairwise (· < ·) := by
    simpa using List.pairwise_lt_range'
  exact List.pairwise_map.1 this

theorem mem_attempts {rows : List Row} {e : Encoder} (he : e.table = .compile rows)
    {tokens : List String} {a : Attempt} (ha : a ∈ e.attempts tokens) :
    a.template.WellFormed ∧ a.outcome = a.template.encode tokens := by
  obtain ⟨p, hp, rfl⟩ := List.mem_map.1 ha
  have hmem := List.mem_zipIdx_iff_getElem?.1 ((e.candidates_sublist tokens).subset hp)
  rw [he] at hmem
  exact ⟨Table.wellFormed_of_mem (List.mem_of_getElem? hmem), rfl⟩

theorem attempts_ne_fault {rows : List Row} {e : Encoder} (he : e.table = .compile rows)
    (tokens : List String) : ∀ a ∈ e.attempts tokens, ∀ f, a.outcome ≠ .error (.fault f) := by
  intro a ha f
  obtain ⟨ht, houtcome⟩ := mem_attempts he ha
  rw [houtcome]
  exact Template.encode_ne_fault ht tokens f

/-- **A run over a table of rows ends in a selection**, and the selection sums the attempts up. -/
theorem exists_select {rows : List Row} {e : Encoder} (he : e.table = .compile rows)
    (tokens : List String) :
    ∃ s, e.select tokens = .ok s ∧ Selection.Sums tokens.length (e.attempts tokens) s := by
  obtain ⟨s, hs⟩ := Selection.exists_foldlM (attempts_ne_fault he tokens) (.start tokens.length)
  refine ⟨s, hs, ?_⟩
  have := Selection.sums_foldlM (Selection.sums_start tokens.length)
    (by simpa using e.pairwise_attempts tokens) hs
  simpa using this

end Encoder

/-! ### The whole table -/

namespace Table

/-- The template at `i` matches the statement, and its code is `code`. -/
def Encodes (table : Table) (tokens : List String) (i : Nat) (code : Code) : Prop :=
  ∃ t c, table.get? i = some t ∧ t.capture tokens = .ok c ∧ t.emit c = .ok code

/-- The template at `i` does not match the statement, and stops with `m`. -/
def Refuses (table : Table) (tokens : List String) (i : Nat) (m : Mismatch) : Prop :=
  ∃ t, table.get? i = some t ∧ t.capture tokens = .error (.refused m)

end Table

namespace Encoder

theorem ended_attempts_iff {e : Encoder} (h : e.settings.indexed = false) {tokens : List String}
    {α : Type} {f : α → Except (Halt Mismatch) Code} {i : Nat} {x : α} :
    Selection.Ended f (e.attempts tokens) i x ↔
      ∃ t, e.table.get? i = some t ∧ t.encode tokens = f x := by
  rw [attempts, candidates_of_not_indexed h]
  constructor
  · rintro ⟨a, ha, rfl, hx⟩
    obtain ⟨p, hp, rfl⟩ := List.mem_map.1 ha
    exact ⟨p.1, List.mem_zipIdx_iff_getElem?.1 hp, hx⟩
  · rintro ⟨t, ht, hx⟩
    refine ⟨⟨i, t, t.encode tokens⟩, List.mem_map.2 ⟨(t, i), ?_, rfl⟩, rfl, hx⟩
    exact List.mem_zipIdx_iff_getElem?.2 ht

theorem codes_attempts {e : Encoder} (h : e.settings.indexed = false) (tokens : List String) :
    Selection.Codes (e.attempts tokens) = e.table.Encodes tokens := by
  funext i code
  rw [Selection.Codes, ended_attempts_iff h, Table.Encodes]
  simp only [Template.encode_eq_ok_iff, exists_and_left]

theorem failures_attempts {e : Encoder} (h : e.settings.indexed = false) (tokens : List String) :
    Selection.Failures (e.attempts tokens) = e.table.Refuses tokens := by
  funext i m
  rw [Selection.Failures, ended_attempts_iff h, Table.Refuses]
  simp only [Template.encode_eq_refused_iff]

/-- **Selection is exact.** Over the table of any rows, tried as a whole: every template that
matches has code; if one matches, the answer is the first of the shortest codes; and if none does,
it is the first of the failures that got furthest, if that one accepted a token, and else the
failure that accepts none. -/
theorem encode_eq_first_shortest_or_deepest (rows : List Row) (settings : Settings)
    (tokens : List String) :
    let table := Table.compile rows
    let e : Encoder := { table, settings := { settings with indexed := false } }
    (∀ t ∈ table.templates, ∀ c, t.capture tokens = .ok c → ∃ code, t.emit c = .ok code) ∧
    ((∃ t ∈ table.templates, ∃ c, t.capture tokens = .ok c) →
      ∃ i code, e.encode tokens = .ok ⟨code, i⟩ ∧
        FirstLeast (table.Encodes tokens) Code.size i code) ∧
    ((∀ t ∈ table.templates, ∀ c, t.capture tokens ≠ .ok c) →
      ∃ m, e.encode tokens = .error (.refused m) ∧
        ((m.remaining < tokens.length ∧
            ∃ i, FirstLeast (table.Refuses tokens) Mismatch.remaining i m) ∨
          (m = ⟨tokens.length, .instruction⟩ ∧
            ∀ i m', table.Refuses tokens i m' → tokens.length ≤ m'.remaining))) := by
  intro table e
  have hemit : ∀ t ∈ table.templates, ∀ c, t.capture tokens = .ok c →
      ∃ code, t.emit c = .ok code := by
    intro t ht c hc
    obtain ⟨code, hcode, -⟩ := Template.exists_emit (Table.wellFormed_of_mem ht) hc
    exact ⟨code, hcode⟩
  obtain ⟨s, hs, hsums⟩ := exists_select (show e.table = .compile rows from rfl) tokens
  have hbest := hsums.best
  have hdeep := hsums.deepest
  rw [codes_attempts rfl] at hbest
  rw [failures_attempts rfl] at hdeep
  refine ⟨hemit, ?_, ?_⟩
  · rintro ⟨t, ht, c, hc⟩
    obtain ⟨code, hcode⟩ := hemit t ht c hc
    obtain ⟨i, hi⟩ := List.getElem?_of_mem ht
    rcases hbest with ⟨-, hnone⟩ | ⟨x, hx, hfirst⟩
    · exact absurd ⟨t, c, hi, hc, hcode⟩ (hnone i code)
    · exact ⟨x.template, x.code, by simp [encode, hs, Selection.result, hx], hfirst⟩
  · intro hnone
    rcases hbest with ⟨hb, -⟩ | ⟨x, -, ⟨t, c, hi, hc, -⟩, -⟩
    · refine ⟨s.deepest, by simp [encode, hs, Selection.result, hb], ?_⟩
      rcases hdeep with hseed | hfirst
      · exact Or.inr hseed
      · exact Or.inl hfirst
    · exact absurd hc (hnone t (List.mem_of_getElem? hi) c)

/-- Rows of one mnemonic, the longer form first. -/
def nopRows : List Row := [⟨"NOP", "66 90"⟩, ⟨"NOP", "90"⟩]

theorem templates_nopRows : (Table.compile nopRows).templates =
    [⟨"nop", [], [.byte 0x66, .byte 0x90], false⟩, ⟨"nop", [], [.byte 0x90], false⟩] := by
  decide +kernel

theorem encode_nop_first_shortest :
    let table := Table.compile nopRows
    let e : Encoder := { table, settings := { indexed := false } }
    ((∃ t ∈ table.templates, ∃ c, t.capture ["Nop"] = .ok c) ∧
      ∃ i code, e.encode ["Nop"] = .ok ⟨code, i⟩ ∧
        FirstLeast (table.Encodes ["Nop"]) Code.size i code) ∧
    ((∀ t ∈ table.templates, ∀ c, t.capture ["hlt"] ≠ .ok c) ∧
      ∃ m, e.encode ["hlt"] = .error (.refused m) ∧
        ((m.remaining < 1 ∧ ∃ i, FirstLeast (table.Refuses ["hlt"]) Mismatch.remaining i m) ∨
          (m = ⟨1, .instruction⟩ ∧ ∀ i m', table.Refuses ["hlt"] i m' → 1 ≤ m'.remaining))) := by
  intro table e
  have hsome : ∃ t ∈ table.templates, ∃ c, t.capture ["Nop"] = .ok c :=
    ⟨⟨"nop", [], [.byte 0x90], false⟩, by simp [table, templates_nopRows], ⟨none, none, [], 1⟩,
      by decide +kernel⟩
  have hnone : ∀ t ∈ table.templates, ∀ c, t.capture ["hlt"] ≠ .ok c := by
    have hall : table.templates.all fun t => !(t.capture ["hlt"]).isOk := by
      simp only [table, templates_nopRows]
      decide +kernel
    intro t ht c hc
    have := List.all_eq_true.1 hall t ht
    simp [hc, Except.isOk, Except.toBool] at this
  exact ⟨⟨hsome, (encode_eq_first_shortest_or_deepest nopRows {} ["Nop"]).2.1 hsome⟩,
    hnone, (encode_eq_first_shortest_or_deepest nopRows {} ["hlt"]).2.2 hnone⟩

end Encoder
end RowAsm
