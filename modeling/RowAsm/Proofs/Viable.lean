import RowAsm.Proofs.Exact
import RowAsm.Proofs.Settings

/-!
# Failures come after the longest viable beginning

A template that does not match a statement stops after the longest beginning of it that some
statement of the template shares, and the kind of the failure says what that beginning is
(`stopsAt_of_capture`): nothing, a whole statement with tokens after it, or neither.

Selection keeps the first of the failures that got furthest (`deepest_of_encode`), so the answer of
an encoder says how far any template of its table could follow the statement (`Table.Reaches`), and
its kind is that of the first template which could (`Table.FirstViable`).
-/

namespace RowAsm

open Grammar

/-- A phrase does not begin a longer one. -/
theorem Reader.Exact.not_viable {α : Type} {L : List String → α → Prop}
    {r : List String → Reader.Answer (α × List String)} (h : Exact L r) {w : List String} {a : α}
    (hw : L w a) (t : String) : ¬ Viable L (w ++ [t]) := by
  rintro ⟨rest, b, hb⟩
  have hlong := h.read_append hb []
  rw [List.append_nil, List.append_assoc, h.read_append hw] at hlong
  cases hlong

theorem Reader.expect_eq_ok_iff {word : String} {kind : Mismatch.Kind} {ts rest : List String} :
    expect word kind ts = .ok rest ↔ ∃ x, ts = x :: rest ∧ Text.same x word = true := by
  constructor
  · intro h
    cases ts with
    | nil => cases h
    | cons x us =>
      rw [expect] at h
      split_ifs at h with hx
      · cases h
        exact ⟨x, rfl, hx⟩
      · cases h
  · rintro ⟨x, rfl, hx⟩
    rw [expect, if_pos hx]

/-! ### One template -/

namespace Template

variable {t : Template} {tokens : List String} {m : Mismatch}

/-- The mismatch `m` of the template and the tokens counts what follows the longest viable beginning
of the tokens, and its kind says what this beginning is. -/
structure StopsAt (t : Template) (tokens : List String) (m : Mismatch) : Prop where
  remaining_le : m.remaining ≤ tokens.length
  longest : IsGreatest {k | k ≤ tokens.length ∧ Viable t.Statement (tokens.take k)}
    (tokens.length - m.remaining)
  instruction_iff : m.kind = .instruction ↔ tokens.length - m.remaining = 0
  trailing_iff : m.kind = .trailing ↔
    (∃ vs, t.Statement (tokens.take (tokens.length - m.remaining)) vs) ∧
      tokens.length - m.remaining < tokens.length

theorem stopsAt_of_append {w rest : List String} {kind : Mismatch.Kind}
    (hw : Viable t.Statement w)
    (hlast : ∀ x us, rest = x :: us → ¬ Viable t.Statement (w ++ [x]))
    (hkind : kind = .instruction ↔ w = [])
    (htrailing : kind = .trailing ↔ (∃ vs, t.Statement w vs) ∧ rest ≠ []) :
    t.StopsAt (w ++ rest) ⟨rest.length, kind⟩ := by
  have hn : (w ++ rest).length - rest.length = w.length := by simp
  refine ⟨by simp, ?_, ?_, ?_⟩
  · rw [hn]
    refine ⟨⟨by simp, by simpa using hw⟩, ?_⟩
    rintro k ⟨hk, hviable⟩
    by_contra hlt
    rw [not_le] at hlt
    cases rest with
    | nil =>
      rw [List.append_nil] at hk
      omega
    | cons x us =>
      -- a longer beginning contains the token that follows
      have htake : (w ++ x :: us).take k = (w ++ [x]) ++ us.take (k - w.length - 1) := by
        obtain ⟨j, rfl⟩ := Nat.exists_eq_add_of_lt hlt
        have hj : w.length + j + 1 - w.length = j + 1 := by omega
        rw [List.take_append, List.take_of_length_le (by omega), hj, List.take_succ_cons]
        simp
      rw [htake] at hviable
      exact hlast x us rfl hviable.of_append
  · rw [hn, List.length_eq_zero_iff]
    exact hkind
  · rw [hn, List.take_left, htrailing, List.length_append]
    refine and_congr_right fun _ => ?_
    rw [← List.length_pos_iff]
    omega

theorem statement_cons_iff {x : String} {w : List String} {vs : List Value} :
    t.Statement (x :: w) vs ↔ Text.same x t.mnemonic = true ∧ Phrases t.operands w vs := by
  constructor
  · rintro ⟨_, _, hw, hx, hvs⟩
    obtain ⟨rfl, rfl⟩ := List.cons.inj hw
    exact ⟨hx, hvs⟩
  · rintro ⟨hx, hvs⟩
    exact ⟨x, w, rfl, hx, hvs⟩

theorem not_statement_nil {vs : List Value} : ¬ t.Statement [] vs := by
  rintro ⟨_, _, hw, -⟩
  cases hw

theorem viable_statement_cons_iff {x : String} {w : List String} :
    Viable t.Statement (x :: w) ↔
      Text.same x t.mnemonic = true ∧ Viable (Phrases t.operands) w := by
  constructor
  · rintro ⟨rest, vs, h⟩
    obtain ⟨hx, hvs⟩ := statement_cons_iff.1 h
    exact ⟨hx, rest, vs, hvs⟩
  · rintro ⟨hx, rest, vs, hvs⟩
    exact ⟨rest, vs, statement_cons_iff.2 ⟨hx, hvs⟩⟩

theorem viable_statement_nil (ht : t.WellFormed) : Viable t.Statement [] := by
  obtain ⟨w, vs, hvs⟩ := exists_phrases ht.operands_sized
  exact ⟨t.mnemonic :: w, vs, statement_cons_iff.2 ⟨Text.same_self _, hvs⟩⟩

/-- What the operands denote does not matter for what begins them. -/
theorem viable_captures_iff {ops : List Operand} {w : List String} :
    Viable (fun w d => ∃ vs, Phrases ops w vs ∧ d = vs.foldl Captures.add .empty) w ↔
      Viable (Phrases ops) w := by
  constructor
  · rintro ⟨rest, _, vs, hvs, -⟩
    exact ⟨rest, vs, hvs⟩
  · rintro ⟨rest, vs, hvs⟩
    exact ⟨rest, _, vs, hvs, rfl⟩

/-- The mnemonic is not the first token. -/
theorem stopsAt_of_expect (ht : t.WellFormed)
    (h : Reader.expect t.mnemonic .instruction tokens = .error (.refused m)) :
    t.StopsAt tokens m := by
  have hmismatch : m = ⟨tokens.length, .instruction⟩ ∧
      ∀ x us, tokens = x :: us → ¬ Viable t.Statement [x] := by
    cases tokens with
    | nil =>
      cases h
      exact ⟨rfl, by rintro x us ⟨⟩⟩
    | cons x us =>
      rw [Reader.expect] at h
      split_ifs at h with hx
      cases h
      refine ⟨rfl, ?_⟩
      rintro _ _ ⟨⟩ hviable
      exact hx (viable_statement_cons_iff.1 hviable).1
  obtain ⟨rfl, hlast⟩ := hmismatch
  refine stopsAt_of_append (w := []) (viable_statement_nil ht) hlast (by simp) ?_
  simp [not_statement_nil]

/-- The operands are not those of the template. -/
theorem stopsAt_of_readOperands (ht : t.WellFormed) {x : String} {ts : List String}
    (hx : Text.same x t.mnemonic = true)
    (h : readOperands t.operands ts = .error (.refused m)) : t.StopsAt (x :: ts) m := by
  have hexact := exact_readOperands ht.operands_sized ht.length_operands
  obtain ⟨w, rest, rfl, hm, hviable, hlast⟩ := hexact.stops ts _ h
  cases hm
  refine stopsAt_of_append (w := x :: w) ?_ ?_ (by simp) ?_
  · exact viable_statement_cons_iff.2 ⟨hx, viable_captures_iff.1 hviable⟩
  · rintro y us rfl hlong
    exact hlast y us rfl (viable_captures_iff.2 (viable_statement_cons_iff.1 hlong).2)
  · -- a whole statement would have been read
    refine ⟨by rintro ⟨⟩, ?_⟩
    rintro ⟨⟨vs, hvs⟩, -⟩
    rw [hexact.read_append ⟨vs, (statement_cons_iff.1 hvs).2, rfl⟩] at h
    cases h

/-- The operands are complete, and the statement goes on or its registers do not go together. -/
theorem stopsAt_of_complete (ht : t.WellFormed) {x : String} {ts rest : List String} {c : Captures}
    (hx : Text.same x t.mnemonic = true) (h : readOperands t.operands ts = .ok (c, rest))
    {kind : Mismatch.Kind} (hkind : kind ≠ .instruction)
    (htrailing : kind = .trailing ↔ rest ≠ []) :
    t.StopsAt (x :: ts) ⟨rest.length, kind⟩ := by
  have hexact := exact_readOperands ht.operands_sized ht.length_operands
  obtain ⟨w, rfl, hw⟩ := (hexact.ok_iff _ _ _).1 h
  have hstatement : ∃ vs, t.Statement (x :: w) vs := by
    obtain ⟨vs, hvs, -⟩ := hw
    exact ⟨vs, statement_cons_iff.2 ⟨hx, hvs⟩⟩
  refine stopsAt_of_append (w := x :: w) ?_ ?_ (by simpa using hkind) ?_
  · obtain ⟨vs, hvs⟩ := hstatement
    exact ⟨[], vs, by simpa using hvs⟩
  · rintro y us rfl hlong
    exact hexact.not_viable hw y (viable_captures_iff.2 (viable_statement_cons_iff.1 hlong).2)
  · rw [htrailing]
    exact ⟨fun hrest => ⟨hstatement, hrest⟩, fun h => h.2⟩

/-- **A template stops after the longest viable beginning.** -/
theorem stopsAt_of_capture (ht : t.WellFormed) (h : t.capture tokens = .error (.refused m)) :
    t.StopsAt tokens m := by
  unfold capture at h
  split at h
  · rename_i hexpect
    cases h
    exact stopsAt_of_expect ht hexpect
  · rename_i ts hexpect
    obtain ⟨x, rfl, hx⟩ := Reader.expect_eq_ok_iff.1 hexpect
    split at h
    · rename_i hread
      cases h
      exact stopsAt_of_readOperands ht hx hread
    · rename_i c rest hread
      split_ifs at h with hrest hconflict
      · cases h
        refine stopsAt_of_complete ht hx hread (by simp) ?_
        simpa using hrest
      · cases h
        obtain rfl : rest = [] := by simpa using hrest
        exact stopsAt_of_complete ht hx hread (by simp) (by simp)

end Template

/-! ### The table -/

namespace Table

/-- The longest beginning of the tokens that some statement of some template shares has `n` tokens;
no tokens, if there is no template. -/
def Reaches (table : Table) (tokens : List String) (n : Nat) : Prop :=
  (table.templates = [] ∧ n = 0) ∨
    IsGreatest {k | k ≤ tokens.length ∧
      ∃ t ∈ table.templates, Viable t.Statement (tokens.take k)} n

/-- The template at `i` is the first of the table that has a statement beginning with `w`. -/
def FirstViable (table : Table) (w : List String) (i : Nat) (t : Template) : Prop :=
  table.get? i = some t ∧ Viable t.Statement w ∧
    ∀ j t', table.get? j = some t' → Viable t'.Statement w → i ≤ j

variable {table : Table} {tokens : List String}

/-- No template accepts a token. -/
theorem reaches_zero (hwf : ∀ t ∈ table.templates, t.WellFormed)
    (h : ∀ i t, table.get? i = some t → ∃ m, t.StopsAt tokens m ∧ tokens.length ≤ m.remaining) :
    table.Reaches tokens 0 := by
  cases htemplates : table.templates with
  | nil => exact Or.inl ⟨htemplates, rfl⟩
  | cons t ts =>
    have ht : t ∈ table.templates := by simp [htemplates]
    refine Or.inr ⟨⟨Nat.zero_le _, t, ht, Template.viable_statement_nil (hwf t ht)⟩, ?_⟩
    rintro k ⟨hk, t', ht', hviable⟩
    obtain ⟨j, hj⟩ := List.getElem?_of_mem ht'
    obtain ⟨m, hstop, hm⟩ := h j t' hj
    have hle := hstop.longest.2 ⟨hk, hviable⟩
    omega

/-- The first of the deepest failures belongs to the first template that gets so far. -/
theorem reaches_of_stopsAt {m : Mismatch} {i : Nat} {t : Template} (hi : table.get? i = some t)
    (hstop : t.StopsAt tokens m)
    (h : ∀ j t', table.get? j = some t' → ∃ m', t'.StopsAt tokens m' ∧
      (m.remaining < m'.remaining ∨ (m.remaining = m'.remaining ∧ i ≤ j))) :
    table.Reaches tokens (tokens.length - m.remaining) ∧
      table.FirstViable (tokens.take (tokens.length - m.remaining)) i t := by
  have hbound : ∀ j t', table.get? j = some t' → ∀ k ≤ tokens.length,
      Viable t'.Statement (tokens.take k) →
        k ≤ tokens.length - m.remaining ∧ (k = tokens.length - m.remaining → i ≤ j) := by
    intro j t' hj k hk hviable
    obtain ⟨m', hstop', hm'⟩ := h j t' hj
    have hle := hstop'.longest.2 ⟨hk, hviable⟩
    have hle' := hstop'.remaining_le
    omega
  refine ⟨Or.inr ⟨⟨Nat.sub_le _ _, t, List.mem_of_getElem? hi, hstop.longest.1.2⟩, ?_⟩,
    hi, hstop.longest.1.2, ?_⟩
  · rintro k ⟨hk, t', ht', hviable⟩
    obtain ⟨j, hj⟩ := List.getElem?_of_mem ht'
    exact (hbound j t' hj k hk hviable).1
  · intro j t' hj hviable
    exact (hbound j t' hj _ (Nat.sub_le _ _) hviable).2 rfl

end Table

namespace Encoder

variable {rows : List Row} {e : Encoder} {tokens : List String} {m : Mismatch}

/-- If a statement is refused, every template of the table refuses it, and the answer is the first
of the failures that got furthest, or the one that accepts nothing. -/
theorem deepest_of_encode (he : e.table = .compile rows)
    (h : e.encode tokens = .error (.refused m)) :
    (∀ i t, e.table.get? i = some t → ∃ m', t.capture tokens = .error (.refused m')) ∧
      ((m = ⟨tokens.length, .instruction⟩ ∧
          ∀ i m', e.table.Refuses tokens i m' → tokens.length ≤ m'.remaining) ∨
        (m.remaining < tokens.length ∧
          ∃ i, FirstLeast (e.table.Refuses tokens) Mismatch.remaining i m)) := by
  -- the whole table gives the same answer
  let whole : Encoder := ⟨e.table, { e.settings with indexed := false }⟩
  have hwhole : whole.table = .compile rows := he
  rw [encode_eq_of_table he hwhole] at h
  obtain ⟨s, hs, hsums⟩ := exists_select hwhole tokens
  have hbest := hsums.best
  have hdeep := hsums.deepest
  rw [codes_attempts rfl] at hbest
  rw [failures_attempts rfl] at hdeep
  rcases hbest with ⟨hb, hnone⟩ | ⟨x, hx, -⟩
  · obtain rfl : s.deepest = m := by simpa [encode, hs, Selection.result, hb] using h
    refine ⟨?_, hdeep⟩
    intro i t hi
    have ht : t.WellFormed :=
      Table.wellFormed_of_mem (List.mem_of_getElem? (show (Table.compile rows).get? i = some t
        from he ▸ hi))
    cases hc : t.capture tokens with
    | ok c =>
      obtain ⟨code, hcode, -⟩ := Template.exists_emit ht hc
      exact absurd ⟨t, c, hi, hc, hcode⟩ (hnone i code)
    | error halt =>
      cases halt with
      | refused m' => exact ⟨m', rfl⟩
      | fault f => exact absurd hc (Template.capture_ne_fault ht tokens f)
  · simp [encode, hs, Selection.result, hx] at h

/-- **A refusal names the longest viable beginning.** Over the table of any rows, with the index or
without it, a mismatch counts the tokens after the longest beginning that is viable for some
template of the table. Its kind is `instruction` if that beginning is empty. Else the first template
for which it is viable decides: the kind is `trailing` if the beginning is a whole statement of that
template and tokens follow, and `operand` if not. -/
theorem encode_stops_after_longest (rows : List Row) (settings : Settings) (tokens : List String)
    (m : Mismatch)
    (h : encode { table := .compile rows, settings } tokens = .error (.refused m)) :
    let table := Table.compile rows
    let n := tokens.length - m.remaining
    m.remaining ≤ tokens.length ∧ table.Reaches tokens n ∧
    (m.kind = .instruction ↔ n = 0) ∧ (n = 0 ↔ m.remaining = tokens.length) ∧
    (n ≠ 0 → ∃ i t, table.FirstViable (tokens.take n) i t ∧
      ((∃ vs, t.Statement (tokens.take n) vs) ∧ n < tokens.length → m.kind = .trailing) ∧
      (¬ ((∃ vs, t.Statement (tokens.take n) vs) ∧ n < tokens.length) → m.kind = .operand)) := by
  intro table n
  obtain ⟨hall, hdeep⟩ := deepest_of_encode (e := ⟨table, settings⟩) rfl h
  have hwf : ∀ t ∈ table.templates, t.WellFormed := fun t => Table.wellFormed_of_mem
  have hstops : ∀ i t, table.get? i = some t →
      ∃ m', table.Refuses tokens i m' ∧ t.StopsAt tokens m' := by
    intro i t hi
    obtain ⟨m', hm'⟩ := hall i t hi
    exact ⟨m', ⟨t, hi, hm'⟩, Template.stopsAt_of_capture (hwf t (List.mem_of_getElem? hi)) hm'⟩
  rcases hdeep with ⟨rfl, hseed⟩ | ⟨hlt, i, ⟨t, hi, hm⟩, hfirst⟩
  · have hn : n = 0 := Nat.sub_self _
    rw [hn]
    refine ⟨le_rfl, Table.reaches_zero hwf ?_, by simp, by simp, by simp⟩
    intro j t hj
    obtain ⟨m', hm', hstop⟩ := hstops j t hj
    exact ⟨m', hstop, hseed j m' hm'⟩
  · have hstop : t.StopsAt tokens m :=
      Template.stopsAt_of_capture (hwf t (List.mem_of_getElem? hi)) hm
    obtain ⟨hreach, hviable⟩ := Table.reaches_of_stopsAt hi hstop (by
      intro j t' hj
      obtain ⟨m', hm', hstop'⟩ := hstops j t' hj
      exact ⟨m', hstop', hfirst j m' hm'⟩)
    have hn : n = 0 ↔ m.remaining = tokens.length := by
      show tokens.length - m.remaining = 0 ↔ _
      omega
    refine ⟨hlt.le, hreach, hstop.instruction_iff, hn, fun hpos => ⟨i, t, hviable, ?_, ?_⟩⟩
    · exact hstop.trailing_iff.2
    · intro hnot
      cases hkind : m.kind with
      | instruction => exact absurd (hstop.instruction_iff.1 hkind) hpos
      | operand => rfl
      | trailing => exact absurd (hstop.trailing_iff.1 hkind) hnot

/-- A number that is too large for its width, after a comma. -/
theorem encode_add_stops_after_longest :
    let rows : List Row := [⟨"HLT", "F4"⟩, ⟨"ADD r/m32, imm8", "83 /0 ib"⟩]
    let table := Table.compile rows
    let tokens := ["add", "eax", ",", "200", ";"]
    encode { table } tokens = .error (.refused ⟨2, .operand⟩) ∧
      table.Reaches tokens 3 ∧ ∃ i t, table.FirstViable ["add", "eax", ","] i t := by
  intro rows table tokens
  have h : encode { table } tokens = .error (.refused ⟨2, .operand⟩) := by decide +kernel
  obtain ⟨-, hreach, -, -, hfirst⟩ := encode_stops_after_longest rows {} tokens _ h
  obtain ⟨i, t, hi, -⟩ := hfirst (by decide)
  exact ⟨h, hreach, i, t, hi⟩

end Encoder
end RowAsm
