import RowAsm.Proofs.Grammar

/-!
# Readers read their language exactly

`Reader.Exact L read` is all that there is to say about a reader that never goes back: its results
are the phrases of `L`, each of them read whatever follows it, and a refusal comes after the longest
viable beginning of the tokens, neither earlier nor later.

Readers are put together in two ways. Either the token at hand decides how to go on
(`exact_branch`), or one reader follows another (`Exact.seq`). With these the readers of numbers,
registers and memory are exact, then the operands of a template (`exact_readOperands`).
-/

namespace RowAsm
namespace Reader

open Grammar
open Text (same)

/-- The reader reads the language `L`. -/
structure Exact {α : Type} (L : List String → α → Prop)
    (read : List String → Answer (α × List String)) : Prop where
  /-- The results are the phrases, whatever follows them. -/
  ok_iff : ∀ ts a rest, read ts = .ok (a, rest) ↔ ∃ w, ts = w ++ rest ∧ L w a
  /-- A refusal comes after the longest viable beginning. -/
  stops : ∀ ts h, read ts = .error h → ∃ w rest, ts = w ++ rest ∧
    h = .refused ⟨rest.length, .operand⟩ ∧ Viable L w ∧
      ∀ t us, rest = t :: us → ¬ Viable L (w ++ [t])

section Exact

variable {α β : Type} {L L' : List String → α → Prop} {r : List String → Answer (α × List String)}

theorem Exact.read_append (h : Exact L r) {w : List String} {a : α} (hw : L w a)
    (rest : List String) : r (w ++ rest) = .ok (a, rest) :=
  (h.ok_iff _ _ _).2 ⟨w, rfl, hw⟩

theorem Exact.congr (h : Exact L r) (hL : ∀ w a, L w a ↔ L' w a) : Exact L' r := by
  obtain rfl : L = L' := by
    funext w a
    exact propext (hL w a)
  exact h

/-- Reads nothing. -/
theorem exact_pure (a : α) : Exact (fun w b => w = [] ∧ b = a) fun ts => .ok (a, ts) where
  ok_iff ts b rest := by
    constructor
    · rintro ⟨⟩
      exact ⟨[], rfl, rfl, rfl⟩
    · rintro ⟨w, rfl, rfl, rfl⟩
      rfl
  stops ts h := by rintro ⟨⟩

/-- **The token at hand decides how to go on**, and if it does not, the reader stops before it. -/
theorem exact_branch {κ : Type} {f : String → Option κ} {M : κ → List String → α → Prop}
    {g : κ → List String → Answer (α × List String)}
    (hnext : ∀ t k, f t = some k → Exact (M k) (g k) ∧ ∃ w a, M k w a)
    (hsome : ∃ t k, f t = some k) (hnil : r [] = refuse .operand [])
    (hnone : ∀ t ts, f t = none → r (t :: ts) = refuse .operand (t :: ts))
    (hcons : ∀ t ts k, f t = some k → r (t :: ts) = g k ts) :
    Exact (fun w a => ∃ t k w', w = t :: w' ∧ f t = some k ∧ M k w' a) r where
  ok_iff ts a rest := by
    cases ts with
    | nil =>
      rw [hnil]
      constructor
      · rintro ⟨⟩
      · rintro ⟨w, hw, t, k, w', rfl, -⟩
        cases hw
    | cons t ts =>
      cases hf : f t with
      | none =>
        rw [hnone t ts hf]
        constructor
        · rintro ⟨⟩
        · rintro ⟨w, hw, t', k, w', rfl, hk, -⟩
          obtain ⟨rfl, -⟩ := List.cons.inj hw
          rw [hf] at hk
          cases hk
      | some k =>
        rw [hcons t ts k hf, (hnext t k hf).1.ok_iff]
        constructor
        · rintro ⟨w, rfl, hw⟩
          exact ⟨t :: w, rfl, t, k, w, rfl, hf, hw⟩
        · rintro ⟨w, hw, t', k', w', rfl, hk, hM⟩
          obtain ⟨rfl, rfl⟩ := List.cons.inj hw
          obtain rfl : k = k' := Option.some.inj (hf.symm.trans hk)
          exact ⟨w', rfl, hM⟩
  stops ts h hread := by
    have hviable : Viable (fun w a => ∃ t k w', w = t :: w' ∧ f t = some k ∧ M k w' a) [] := by
      obtain ⟨t, k, hk⟩ := hsome
      obtain ⟨w, a, ha⟩ := (hnext t k hk).2
      exact ⟨t :: w, a, t, k, w, rfl, hk, ha⟩
    cases ts with
    | nil =>
      rw [hnil] at hread
      cases hread
      exact ⟨[], [], rfl, rfl, hviable, by rintro t us ⟨⟩⟩
    | cons t ts =>
      cases hf : f t with
      | none =>
        rw [hnone t ts hf] at hread
        cases hread
        refine ⟨[], t :: ts, rfl, rfl, hviable, ?_⟩
        rintro t us ⟨⟩ ⟨rest, a, t', k, w', hw, hk, -⟩
        obtain ⟨rfl, -⟩ := List.cons.inj hw
        rw [hf] at hk
        cases hk
      | some k =>
        rw [hcons t ts k hf] at hread
        obtain ⟨w, rest, rfl, rfl, ⟨rest', a, ha⟩, hlast⟩ := (hnext t k hf).1.stops ts h hread
        refine ⟨t :: w, rest, rfl, rfl, ⟨rest', a, t, k, _, rfl, hf, ha⟩, ?_⟩
        rintro u us rfl ⟨more, b, t', k', w', hw, hk, hM⟩
        obtain ⟨rfl, rfl⟩ := List.cons.inj hw
        obtain rfl : k = k' := Option.some.inj (hf.symm.trans hk)
        exact hlast u us rfl ⟨more, b, hM⟩

/-- **One reader follows another.** -/
theorem Exact.seq {M : α → List String → β → Prop} {g : α → List String → Answer (β × List String)}
    {s : List String → Answer (β × List String)} (hread : Exact L r)
    (hnext : ∀ w a, L w a → Exact (M a) (g a) ∧ ∃ v b, M a v b)
    (herror : ∀ ts h, r ts = .error h → s ts = .error h)
    (hok : ∀ ts a rest, r ts = .ok (a, rest) → s ts = g a rest) :
    Exact (fun w b => ∃ u v a, w = u ++ v ∧ L u a ∧ M a v b) s where
  ok_iff ts b rest := by
    constructor
    · intro h
      cases hr : r ts with
      | error e =>
        rw [herror ts e hr] at h
        cases h
      | ok x =>
        obtain ⟨a, us⟩ := x
        obtain ⟨u, rfl, hu⟩ := (hread.ok_iff _ _ _).1 hr
        rw [hok _ a us hr] at h
        obtain ⟨v, rfl, hv⟩ := ((hnext u a hu).1.ok_iff _ _ _).1 h
        exact ⟨u ++ v, (List.append_assoc u v rest).symm, u, v, a, rfl, hu, hv⟩
    · rintro ⟨w, rfl, u, v, a, rfl, hu, hv⟩
      rw [List.append_assoc, hok _ a (v ++ rest) (hread.read_append hu _)]
      exact (hnext u a hu).1.read_append hv rest
  stops ts h hboth := by
    cases hr : r ts with
    | error e =>
      obtain rfl : e = h := Except.error.inj ((herror ts e hr).symm.trans hboth)
      obtain ⟨w, rest, rfl, rfl, ⟨more, a, ha⟩, hlast⟩ := hread.stops ts e hr
      obtain ⟨v, b, hb⟩ := (hnext _ a ha).2
      refine ⟨w, rest, rfl, rfl, ⟨more ++ v, b, w ++ more, v, a, by simp, ha, hb⟩, ?_⟩
      rintro t us rfl ⟨more', b', u, v', a', hw, hu, -⟩
      rw [List.append_assoc, List.append_eq_append_iff] at hw
      rcases hw with ⟨x, rfl, hx⟩ | ⟨x, rfl, -⟩
      · -- the first phrase ends inside or after the token in question
        cases x with
        | nil =>
          rw [List.append_nil] at hu
          rw [hread.read_append hu] at hr
          cases hr
        | cons y x =>
          obtain ⟨rfl, -⟩ := List.cons.inj hx
          exact hlast t us rfl ⟨x, a', by simpa using hu⟩
      · -- the first phrase ends before it, so the first reader would not have stopped
        rw [List.append_assoc, hread.read_append hu] at hr
        cases hr
    | ok x =>
      obtain ⟨a, us⟩ := x
      obtain ⟨u, rfl, hu⟩ := (hread.ok_iff _ _ _).1 hr
      rw [hok _ a us hr] at hboth
      obtain ⟨v, rest, rfl, rfl, ⟨more, b, hb⟩, hlast⟩ := (hnext u a hu).1.stops us h hboth
      refine ⟨u ++ v, rest, (List.append_assoc u v rest).symm, rfl,
        ⟨more, b, u, v ++ more, a, List.append_assoc u v more, hu, hb⟩, ?_⟩
      rintro t us rfl ⟨more', b', u', v', a', hw, hu', hv'⟩
      -- the first reader finds both beginnings in the same tokens
      have h₁ := hread.read_append hu (v ++ [t] ++ more')
      have h₂ := hread.read_append hu' v'
      rw [← hw] at h₂
      rw [List.append_assoc u, List.append_assoc u, h₁, Except.ok.injEq, Prod.mk.injEq] at h₂
      obtain ⟨rfl, rfl⟩ := h₂
      exact hlast t us rfl ⟨more', b', hv'⟩

/-- A result is put to use. -/
theorem Exact.map {s : List String → Answer (β × List String)} (hread : Exact L r) (g : α → β)
    (herror : ∀ ts h, r ts = .error h → s ts = .error h)
    (hok : ∀ ts a rest, r ts = .ok (a, rest) → s ts = .ok (g a, rest)) :
    Exact (fun w b => ∃ a, L w a ∧ b = g a) s := by
  refine (hread.seq (fun w a _ => ⟨exact_pure (g a), [], _, rfl, rfl⟩) herror hok).congr ?_
  intro w b
  constructor
  · rintro ⟨u, v, a, rfl, hu, rfl, rfl⟩
    exact ⟨a, by simpa using hu, rfl⟩
  · rintro ⟨a, hw, rfl⟩
    exact ⟨w, [], a, by simp, hw, rfl, rfl⟩

/-- A reader of one token. -/
theorem exact_token {f : String → Option α} (hsome : ∃ t a, f t = some a)
    (hnil : r [] = refuse .operand [])
    (hnone : ∀ t ts, f t = none → r (t :: ts) = refuse .operand (t :: ts))
    (hcons : ∀ t ts a, f t = some a → r (t :: ts) = .ok (a, ts)) :
    Exact (fun w a => ∃ t, w = [t] ∧ f t = some a) r := by
  refine (exact_branch (fun t a _ => ⟨exact_pure a, [], a, rfl, rfl⟩)
    hsome hnil hnone hcons).congr ?_
  intro w a
  constructor
  · rintro ⟨t, k, w', rfl, hk, rfl, rfl⟩
    exact ⟨t, rfl, hk⟩
  · rintro ⟨t, rfl, ha⟩
    exact ⟨t, a, [], rfl, ha, rfl, rfl⟩

/-- A given token comes first. -/
theorem exact_expect (word : String) {s : List String → Answer (α × List String)}
    (hread : Exact L r) (hL : ∃ w a, L w a)
    (herror : ∀ ts h, expect word .operand ts = .error h → s ts = .error h)
    (hok : ∀ ts rest, expect word .operand ts = .ok rest → s ts = r rest) :
    Exact (fun w a => ∃ t w', w = t :: w' ∧ same t word = true ∧ L w' a) s := by
  refine (exact_branch (f := fun t => if same t word = true then some () else none)
    (M := fun _ => L) (g := fun _ => r) (fun t k _ => ⟨hread, hL⟩) ?_ ?_ ?_ ?_).congr ?_
  · exact ⟨word, (), by simp⟩
  · exact herror [] _ rfl
  · intro t ts ht
    by_cases hs : same t word = true
    · simp [hs] at ht
    · exact herror (t :: ts) _ (by rw [expect, if_neg hs]; rfl)
  · intro t ts k ht
    by_cases hs : same t word = true
    · exact hok (t :: ts) ts (by rw [expect, if_pos hs])
    · simp [hs] at ht
  · intro w a
    constructor
    · rintro ⟨t, k, w', rfl, hk, hw⟩
      by_cases hs : same t word = true
      · exact ⟨t, w', rfl, hs, hw⟩
      · simp [hs] at hk
    · rintro ⟨t, w', rfl, hs, hw⟩
      exact ⟨t, (), w', rfl, by simp [hs], hw⟩

end Exact

/-! ### Registers and numbers -/

theorem exact_register {bits : Nat} (hb : bits = 0 ∨ IsWidth bits) :
    Exact (fun w r => ∃ t, w = [t] ∧ r.Named bits t) (register bits) := by
  refine (exact_token (r := register bits) (f := fun t => Register.withWidth? t bits)
    ?_ rfl ?_ ?_).congr ?_
  · obtain ⟨t, r, hr⟩ := exists_named hb
    exact ⟨t, r, Register.withWidth?_eq_some_iff.2 hr⟩
  · intro t ts ht
    simp only [register, ht]
  · intro t ts r ht
    simp only [register, ht]
  · intro w r
    simp only [Register.withWidth?_eq_some_iff]

/-- The number of a sign and a literal, if it has the width. -/
def signed? (negative : Bool) (bits : Nat) (t : String) : Option Int :=
  ((Literal.value? t).map fun n : Nat => if negative then -(n : Int) else n).filter
    (Word.isSigned bits)

theorem signed?_eq_some_iff {negative : Bool} {bits : Nat} {t : String} {v : Int} :
    signed? negative bits t = some v ↔ ∃ n : Nat, Literal.value? t = some n ∧
      Word.isSigned bits v = true ∧ v = if negative then -(n : Int) else n := by
  rw [signed?, Option.filter_eq_some_iff, Option.map_eq_some_iff]
  constructor
  · rintro ⟨⟨n, hn, rfl⟩, hv⟩
    exact ⟨n, hn, hv, rfl⟩
  · rintro ⟨n, hn, hv, rfl⟩
    exact ⟨⟨n, hn, rfl⟩, hv⟩

theorem displacement?_eq (negative : Bool) (t : String) :
    displacement? negative t = signed? negative 32 t := by
  unfold displacement? signed?
  cases Literal.value? t <;> rfl

theorem exists_signed? (negative : Bool) (bits : Nat) :
    ∃ t v, signed? negative bits t = some v := by
  have hpos : 0 < Word.count (bits - 1) := Nat.pow_pos (by decide)
  refine ⟨"0", 0, signed?_eq_some_iff.2 ⟨0, by decide, ?_, by simp⟩⟩
  simp only [Word.isSigned, Bool.and_eq_true, decide_eq_true_eq]
  omega

theorem magnitude_cons {bits : Nat} (hb : IsWidth bits) (negative : Bool) (t : String)
    (ts : List String) :
    magnitude negative bits (t :: ts) =
      match signed? negative bits t with
      | some v => .ok (v, ts)
      | none => refuse .operand (t :: ts) := by
  rw [magnitude, signed?]
  cases Literal.value? t with
  | none => rfl
  | some n =>
    simp only [hb.fits, Option.map_some, Option.filter_some]
    cases hv : Word.isSigned bits (if negative then -(n : Int) else n) with
    | true => simp only [Word.signed64_of_isSigned hb.le hv, if_true]
    | false => rfl

theorem exact_magnitude {bits : Nat} (hb : IsWidth bits) (negative : Bool) :
    Exact (fun w v => ∃ t, w = [t] ∧ signed? negative bits t = some v)
      (magnitude negative bits) := by
  refine exact_token (r := magnitude negative bits) (exists_signed? negative bits) rfl ?_ ?_
  · intro t ts ht
    simp only [magnitude_cons hb, ht]
  · intro t ts v ht
    simp only [magnitude_cons hb, ht]

theorem exact_number {bits : Nat} (hb : IsWidth bits) : Exact (Number bits) (number bits) := by
  -- after a minus sign a literal follows; any other token is the literal itself
  refine (exact_branch (r := number bits)
    (f := fun t => if t = "-" then some none else (signed? false bits t).map some)
    (M := fun k w v => k.elim (∃ t, w = [t] ∧ signed? true bits t = some v)
      fun v' => w = [] ∧ v = v')
    (g := fun k ts => k.elim (magnitude true bits ts) fun v => .ok (v, ts))
    ?_ ⟨"-", none, if_pos rfl⟩ rfl ?_ ?_).congr ?_
  · intro t k _
    cases k with
    | none =>
      obtain ⟨t, v, hv⟩ := exists_signed? true bits
      exact ⟨exact_magnitude hb true, [t], v, t, rfl, hv⟩
    | some v => exact ⟨exact_pure v, [], v, rfl, rfl⟩
  · intro t ts ht
    by_cases hm : t = "-"
    · simp [hm] at ht
    · simp only [if_neg hm, Option.map_eq_none_iff] at ht
      simp only [number, if_neg hm, magnitude_cons hb, ht]
  · intro t ts k ht
    by_cases hm : t = "-"
    · rw [if_pos hm] at ht
      cases ht
      rw [number, if_pos hm]
      rfl
    · rw [if_neg hm] at ht
      obtain ⟨v, hv, rfl⟩ := Option.map_eq_some_iff.1 ht
      simp only [number, if_neg hm, magnitude_cons hb, hv]
      rfl
  · intro w v
    constructor
    · rintro ⟨t, k, w', rfl, hk, hM⟩
      by_cases hm : t = "-"
      · rw [if_pos hm] at hk
        cases hk
        obtain ⟨u, rfl, hu⟩ := hM
        obtain ⟨n, hn, hv, rfl⟩ := signed?_eq_some_iff.1 hu
        rw [hm]
        exact .negated hn hv
      · rw [if_neg hm] at hk
        obtain ⟨v', hv', rfl⟩ := Option.map_eq_some_iff.1 hk
        obtain ⟨rfl, rfl⟩ := hM
        obtain ⟨n, hn, hv, rfl⟩ := signed?_eq_some_iff.1 hv'
        exact .plain hn hv
    · rintro (⟨hn, hv⟩ | ⟨hn, hv⟩)
      · rename_i t n
        have hm : t ≠ "-" := by
          rintro rfl
          rw [show Literal.value? "-" = none by decide] at hn
          cases hn
        have hs : signed? false bits t = some (n : Int) :=
          signed?_eq_some_iff.2 ⟨n, hn, hv, rfl⟩
        exact ⟨t, some n, [], rfl, by simp [hm, hs], rfl, rfl⟩
      · rename_i t n
        exact ⟨"-", none, [t], rfl, if_pos rfl, t, rfl, signed?_eq_some_iff.2 ⟨n, hn, hv, rfl⟩⟩

/-! ### Memory -/

theorem exact_close (p : Place) :
    Exact (fun w q => w = ["]"] ∧ q = p) fun ts =>
      match expect "]" .operand ts with
      | .error h => .error h
      | .ok ts => .ok (p, ts) := by
  refine (exact_expect "]" (exact_pure p) ⟨[], p, rfl, rfl⟩ ?_ ?_).congr ?_
  · intro ts h hts
    rw [hts]
  · intro ts rest hts
    rw [hts]
  · intro w q
    simp only [Text.same_iff_eq (t := "]") (by decide)]
    constructor
    · rintro ⟨t, w', rfl, rfl, rfl, rfl⟩
      exact ⟨rfl, rfl⟩
    · rintro ⟨rfl, rfl⟩
      exact ⟨"]", [], rfl, rfl, rfl, rfl⟩

theorem exact_offset (b : Register) (negative : Bool) :
    Exact (fun w p => ∃ t d, w = [t, "]"] ∧ signed? negative 32 t = some d ∧
      p = .memory b (some d)) (offset b negative) := by
  refine (exact_branch (r := offset b negative) (f := signed? negative 32)
    (fun t d _ => ⟨exact_close (.memory b (some d)), ["]"], _, rfl, rfl⟩)
    (exists_signed? negative 32) rfl ?_ ?_).congr ?_
  · intro t ts ht
    simp only [offset, displacement?_eq, ht]
  · intro t ts d ht
    rewrite [offset, displacement?_eq, ht]
    rfl
  · intro w p
    constructor
    · rintro ⟨t, d, _, rfl, hd, rfl, rfl⟩
      exact ⟨t, d, rfl, hd, rfl⟩
    · rintro ⟨t, d, rfl, hd, rfl⟩
      exact ⟨t, d, _, rfl, hd, rfl, rfl⟩

/-- What may follow the base: the end, or a sign, which is a minus or not. -/
def afterBase? (t : String) : Option (Option Bool) :=
  if t = "]" then some none
  else if t = "+" then some (some false)
  else if t = "-" then some (some true)
  else none

theorem exact_afterBase (b : Register) : Exact (AfterBase b) (afterBase b) := by
  refine (exact_branch (r := afterBase b) (f := afterBase?)
    (M := fun k w p => k.elim (w = [] ∧ p = Place.memory b none) fun negative => ∃ t d,
      w = [t, "]"] ∧ signed? negative 32 t = some d ∧ p = .memory b (some d))
    (g := fun k ts => k.elim (.ok (.memory b none, ts)) fun negative => offset b negative ts)
    ?_ ⟨"]", none, if_pos rfl⟩ rfl ?_ ?_).congr ?_
  · intro t k _
    cases k with
    | none => exact ⟨exact_pure _, [], _, rfl, rfl⟩
    | some negative =>
      obtain ⟨t, d, hd⟩ := exists_signed? negative 32
      exact ⟨exact_offset b negative, [t, "]"], _, t, d, rfl, hd, rfl⟩
  · intro t ts ht
    unfold afterBase? at ht
    split_ifs at ht with h₁ h₂ h₃
    rw [afterBase, if_neg h₁, if_neg h₂, if_neg h₃]
  · intro t ts k ht
    unfold afterBase? at ht
    split_ifs at ht with h₁ h₂ h₃ <;> cases ht
    · rw [afterBase, if_pos h₁]
      rfl
    · rw [afterBase, if_neg h₁, if_pos h₂]
      rfl
    · rw [afterBase, if_neg h₁, if_neg h₂, if_pos h₃]
      rfl
  · intro w p
    constructor
    · rintro ⟨s, k, w', rfl, hk, hM⟩
      unfold afterBase? at hk
      split_ifs at hk with h₁ h₂ h₃ <;> cases hk
      · obtain ⟨rfl, rfl⟩ := hM
        rw [h₁]
        exact .close
      · obtain ⟨t, d, rfl, hd, rfl⟩ := hM
        obtain ⟨n, hn, hv, rfl⟩ := signed?_eq_some_iff.1 hd
        rw [h₂]
        exact .plus hn hv
      · obtain ⟨t, d, rfl, hd, rfl⟩ := hM
        obtain ⟨n, hn, hv, rfl⟩ := signed?_eq_some_iff.1 hd
        rw [h₃]
        exact .minus hn hv
    · intro h
      cases h with
      | close => exact ⟨"]", none, [], rfl, rfl, rfl, rfl⟩
      | @plus t n ht hn =>
        exact ⟨"+", some false, _, rfl, rfl, t, n, rfl, signed?_eq_some_iff.2 ⟨n, ht, hn, rfl⟩, rfl⟩
      | @minus t n ht hn =>
        exact ⟨"-", some true, _, rfl, rfl, t, -n, rfl, signed?_eq_some_iff.2 ⟨n, ht, hn, rfl⟩, rfl⟩

theorem exact_base :
    Exact (fun w b => ∃ t, w = [t] ∧ b.IsBase ∧ same t b.name = true) base := by
  refine (exact_token (r := base)
    (f := fun t => (Register.base? t).filter fun r => r.bits == 32 || r.bits == 64)
    ⟨"rax", .r64 0, by decide⟩ rfl ?_ ?_).congr ?_
  · intro t ts ht
    simp only [base, ht]
  · intro t ts r ht
    simp only [base, ht]
  · intro w r
    simp only [Option.filter_eq_some_iff, Register.base?_eq_some_iff, Bool.or_eq_true, beq_iff_eq,
      Register.IsBase, and_comm]

/-- What follows the opening bracket of a memory reference. -/
theorem exact_opened :
    Exact (fun w p => Memory ("[" :: w) p) fun ts =>
      match base ts with
      | .error h => .error h
      | .ok (b, ts) => afterBase b ts := by
  refine (exact_base.seq (fun w b _ => ⟨exact_afterBase b, ["]"], _, .close⟩) ?_ ?_).congr ?_
  · intro ts h hts
    simp only [hts]
  · intro ts b rest hts
    simp only [hts]
  · intro w p
    constructor
    · rintro ⟨_, w, b, rfl, ⟨t, rfl, hb, ht⟩, h⟩
      exact .intro hb ht h
    · rintro ⟨hb, ht, h⟩
      exact ⟨[_], _, _, rfl, ⟨_, rfl, hb, ht⟩, h⟩

theorem exists_opened : ∃ w p, Memory ("[" :: w) p := by
  obtain ⟨_, p, hb, ht, h⟩ := exists_memory
  exact ⟨_, p, .intro hb ht h⟩

theorem exact_bracketed : Exact Memory bracketed := by
  refine (exact_expect "[" exact_opened exists_opened ?_ ?_).congr ?_
  · intro ts h hts
    simp only [bracketed, hts]
  · intro ts rest hts
    rewrite [bracketed, hts]
    rfl
  · intro w p
    simp only [Text.same_iff_eq (t := "[") (by decide)]
    constructor
    · rintro ⟨_, w, rfl, rfl, h⟩
      exact h
    · rintro ⟨hb, ht, h⟩
      exact ⟨"[", _, rfl, rfl, .intro hb ht h⟩

/-- Memory after the keyword `ptr`. -/
theorem exact_pointed :
    Exact (fun w p => ∃ u w', w = u :: w' ∧ same u "ptr" = true ∧ Memory w' p) fun ts =>
      match expect "ptr" .operand ts with
      | .error h => .error h
      | .ok ts => bracketed ts :=
  exact_expect "ptr" exact_bracketed exists_memory (fun ts h hts => by rw [hts])
    (fun ts rest hts => by rw [hts])

theorem exists_pointed : ∃ w p, ∃ u w', w = u :: w' ∧ same u "ptr" = true ∧ Memory w' p := by
  obtain ⟨w, p, h⟩ := exists_memory
  exact ⟨_, p, "ptr", w, rfl, Text.same_self _, h⟩

/-- The keyword of an access width is no register. -/
theorem not_named_of_same {bits : Nat} {t : String} (ht : same t (accessWord bits) = true)
    (r : Register) (width : Nat) : ¬ r.Named width t := by
  rintro ⟨hr, -, hname⟩
  have hfound : Register.ofName? (accessWord bits) = some r :=
    Register.ofName?_eq_some_iff.2 ⟨hr, Text.same_trans (Text.same_comm.1 ht) hname⟩
  have hnone : Register.ofName? (accessWord bits) = none := by
    unfold accessWord
    split <;> decide
  rw [hnone] at hfound
  cases hfound

theorem exact_place {bits : Nat} (hb : IsWidth bits) :
    Exact (fun w p => Phrase (.place bits) w (.place p)) (place bits) := by
  refine (exact_branch (r := place bits)
    (f := fun t => (Register.withWidth? t bits).elim
      (if same t (accessWord bits) = true then some none else none) fun r => some (some r))
    (M := fun k w p => k.elim (∃ u w', w = u :: w' ∧ same u "ptr" = true ∧ Memory w' p)
      fun r => w = [] ∧ p = .register r)
    (g := fun k ts => k.elim
      (match expect "ptr" .operand ts with
      | .error h => .error h
      | .ok ts => bracketed ts) fun r => .ok (.register r, ts))
    ?_ ?_ rfl ?_ ?_).congr ?_
  · intro t k _
    cases k with
    | none => exact ⟨exact_pointed, exists_pointed⟩
    | some r => exact ⟨exact_pure _, [], _, rfl, rfl⟩
  · obtain ⟨t, r, hr⟩ := exists_named (Or.inr hb)
    exact ⟨t, some r, by rw [Register.withWidth?_eq_some_iff.2 hr]; rfl⟩
  · intro t ts ht
    cases hr : Register.withWidth? t bits with
    | some r => simp [hr] at ht
    | none =>
      by_cases hw : same t (accessWord bits) = true
      · simp [hr, hw] at ht
      · simp only [place, register, hr, sized, access, expect, if_neg hw, refuse]
  · intro t ts k ht
    cases hr : Register.withWidth? t bits with
    | some r =>
      rw [hr] at ht
      cases ht
      simp only [place, register, hr]
      rfl
    | none =>
      by_cases hw : same t (accessWord bits) = true
      · rw [hr, Option.elim_none, if_pos hw] at ht
        cases ht
        simp only [place, register, hr, sized, access, expect, if_pos hw, refuse]
        rfl
      · simp [hr, hw] at ht
  · intro w p
    constructor
    · rintro ⟨t, k, w, rfl, hk, hM⟩
      cases hr : Register.withWidth? t bits with
      | some r =>
        rw [hr] at hk
        cases hk
        obtain ⟨rfl, rfl⟩ := hM
        exact .direct (Register.withWidth?_eq_some_iff.1 hr)
      | none =>
        by_cases hw : same t (accessWord bits) = true
        · rw [hr, Option.elim_none, if_pos hw] at hk
          cases hk
          obtain ⟨u, w, rfl, hu, h⟩ := hM
          exact .sized ⟨hw, hu⟩ h
        · simp [hr, hw] at hk
    · intro h
      cases h with
      | direct h =>
        exact ⟨_, some _, [], rfl, by rw [Register.withWidth?_eq_some_iff.2 h]; rfl, rfl, rfl⟩
      | @sized _ t u w p ha h =>
        -- the keyword is not mistaken for a register
        have hr : Register.withWidth? t bits = none := by
          rw [Option.eq_none_iff_forall_ne_some]
          intro r hr
          exact not_named_of_same ha.1 r bits (Register.withWidth?_eq_some_iff.1 hr)
        exact ⟨t, none, _, rfl, by simp [hr, ha.1], u, w, rfl, ha.2, h⟩

theorem isAccessWord_iff {t : String} :
    isAccessWord t = true ↔ ∃ bits, IsWidth bits ∧ same t (accessWord bits) = true := by
  simp [isAccessWord, IsWidth]

theorem exact_unsized : Exact (fun w p => Phrase .memory w (.place p)) unsized := by
  refine (exact_branch (r := unsized)
    (f := fun t =>
      if isAccessWord t = true then some true else if t = "[" then some false else none)
    (M := fun sized w p => if sized = true
      then ∃ u w', w = u :: w' ∧ same u "ptr" = true ∧ Memory w' p else Memory ("[" :: w) p)
    (g := fun sized ts => if sized = true
      then (match expect "ptr" .operand ts with
        | .error h => .error h
        | .ok ts => bracketed ts)
      else match base ts with
        | .error h => .error h
        | .ok (b, ts) => afterBase b ts)
    ?_ ?_ rfl ?_ ?_).congr ?_
  · intro t sized _
    cases sized with
    | true => exact ⟨exact_pointed, exists_pointed⟩
    | false => exact ⟨exact_opened, exists_opened⟩
  · exact ⟨"byte", true, by decide⟩
  · intro t ts ht
    split_ifs at ht with hw ho
    have hs : ¬ same t "[" = true := fun hs => ho ((Text.same_iff_eq (by decide)).1 hs)
    simp only [unsized, anyAccess, if_neg hw, bracketed, expect, if_neg hs, refuse]
  · intro t ts k ht
    split_ifs at ht with hw ho <;> cases ht
    · rewrite [unsized, anyAccess, if_pos hw]
      rfl
    · have hs : same t "[" = true := (Text.same_iff_eq (by decide)).2 ho
      simp only [unsized, anyAccess, if_neg hw, bracketed, expect, if_pos hs]
      rfl
  · intro w p
    constructor
    · rintro ⟨t, k, w, rfl, hk, hM⟩
      split_ifs at hk with hw ho <;> cases hk
      · obtain ⟨u, w, rfl, hu, h⟩ := hM
        obtain ⟨bits, hb, ht⟩ := isAccessWord_iff.1 hw
        exact .anySized hb ⟨ht, hu⟩ h
      · rw [ho]
        exact .unsized hM
    · intro h
      cases h with
      | unsized h =>
        obtain ⟨hb, ht, h⟩ := h
        exact ⟨"[", false, _, rfl, by decide, .intro hb ht h⟩
      | @anySized bits t u w p hb ha h =>
        exact ⟨t, true, _, rfl, if_pos (isAccessWord_iff.2 ⟨bits, hb, ha.1⟩), u, w, rfl, ha.2, h⟩

end Reader

/-! ### Operands -/

namespace Template

open Grammar Reader

variable {c : Captures} {op : Operand}

/-- An operand is read by a reader of its phrases, and what they denote is captured. -/
theorem exact_readOperand_of {α : Type} {L : List String → α → Prop}
    {r : List String → Answer (α × List String)} (hr : Exact L r) (g : α → Value)
    (hL : ∀ w v, Phrase op w v ↔ ∃ a, L w a ∧ v = g a)
    (herror : ∀ ts h, r ts = .error h → readOperand c op ts = .error h)
    (hok : ∀ ts a rest, r ts = .ok (a, rest) →
      readOperand c op ts = .ok (c.add (g a), rest)) :
    Exact (fun w d => ∃ v, Phrase op w v ∧ d = c.add v) (readOperand c op) := by
  refine (hr.map (fun a => c.add (g a)) herror hok).congr ?_
  intro w d
  constructor
  · rintro ⟨a, ha, rfl⟩
    exact ⟨g a, (hL w _).2 ⟨a, ha, rfl⟩, rfl⟩
  · rintro ⟨v, hv, rfl⟩
    obtain ⟨a, ha, rfl⟩ := (hL w v).1 hv
    exact ⟨a, ha, rfl⟩

/-- **The operands of a kind are read exactly**, if there is room for a number. -/
theorem exact_readOperand (hop : op.Sized) (hroom : c.immediates.length < 2) :
    Exact (fun w d => ∃ v, Phrase op w v ∧ d = c.add v) (readOperand c op) := by
  cases op with
  | immediate bits | relative bits =>
    refine exact_readOperand_of (exact_number hop) .number (fun w v => ⟨?_, ?_⟩) ?_ ?_
    · intro h
      cases h
      exact ⟨_, ‹Number bits w _›, rfl⟩
    · rintro ⟨n, hn, rfl⟩
      constructor
      exact hn
    · intro ts h hts
      simp only [readOperand, hts]
    · intro ts v rest hts
      simp only [readOperand, hts, Captures.addImmediate, if_pos hroom, Captures.add]
  | fixed word =>
    refine (exact_expect word (exact_pure c) ⟨[], c, rfl, rfl⟩ ?_ ?_).congr ?_
    · intro ts h hts
      simp only [readOperand, hts]
    · intro ts rest hts
      simp only [readOperand, hts]
    · intro w d
      constructor
      · rintro ⟨t, _, rfl, ht, rfl, rfl⟩
        exact ⟨_, .fixed ht, rfl⟩
      · rintro ⟨v, h, rfl⟩
        cases h with
        | fixed ht => exact ⟨_, [], rfl, ht, rfl, rfl⟩
  | register bits =>
    refine exact_readOperand_of (exact_register hop) .register (fun w v => ⟨?_, ?_⟩) ?_ ?_
    · intro h
      cases h with
      | register hr => exact ⟨_, ⟨_, rfl, hr⟩, rfl⟩
    · rintro ⟨r, ⟨t, rfl, hr⟩, rfl⟩
      exact .register hr
    · intro ts h hts
      simp only [readOperand, hts]
    · intro ts r rest hts
      simp only [readOperand, hts, Captures.add]
  | place bits =>
    refine exact_readOperand_of (exact_place hop) .place (fun w v => ⟨?_, ?_⟩) ?_ ?_
    · intro h
      cases h with
      | direct hr => exact ⟨_, .direct hr, rfl⟩
      | sized ha h => exact ⟨_, .sized ha h, rfl⟩
    · rintro ⟨p, hp, rfl⟩
      exact hp
    · intro ts h hts
      simp only [readOperand, hts]
    · intro ts p rest hts
      simp only [readOperand, hts, Captures.add]
  | memory =>
    refine exact_readOperand_of exact_unsized .place (fun w v => ⟨?_, ?_⟩) ?_ ?_
    · intro h
      cases h with
      | unsized h => exact ⟨_, .unsized h, rfl⟩
      | anySized hb ha h => exact ⟨_, .anySized hb ha h, rfl⟩
    · rintro ⟨p, hp, rfl⟩
      exact hp
    · intro ts h hts
      simp only [readOperand, hts]
    · intro ts p rest hts
      simp only [readOperand, hts, Captures.add]

theorem length_immediates_add_le (c : Captures) (v : Value) :
    (c.add v).immediates.length ≤ c.immediates.length + 1 := by
  cases v <;> simp [Captures.add]

/-- An operand and the operands after it, if these are read exactly. -/
theorem exact_readOperand_further {ops : List Operand} (hop : op.Sized)
    (hops : ∀ o ∈ ops, o.Sized) (hroom : c.immediates.length < 2)
    (hnext : ∀ d : Captures, d.immediates.length ≤ c.immediates.length + 1 →
      Exact (fun w d' => ∃ vs, Further ops w vs ∧ d' = vs.foldl Captures.add d)
        (readFurther d ops)) :
    Exact (fun w d => ∃ vs, Phrases (op :: ops) w vs ∧ d = vs.foldl Captures.add c) fun ts =>
      match readOperand c op ts with
      | .error h => .error h
      | .ok (d, ts) => readFurther d ops ts := by
  refine ((exact_readOperand (c := c) hop hroom).seq
    (M := fun d w d' => ∃ vs, Further ops w vs ∧ d' = vs.foldl Captures.add d)
    (g := fun d ts => readFurther d ops ts) ?_ ?_ ?_).congr ?_
  · rintro w d ⟨v, -, rfl⟩
    obtain ⟨w', vs, hvs⟩ := exists_further hops
    exact ⟨hnext _ (length_immediates_add_le c v), w', _, vs, hvs, rfl⟩
  · intro ts h hts
    simp only [hts]
  · intro ts d rest hts
    simp only [hts]
  · intro w d
    constructor
    · rintro ⟨w, w', d', rfl, ⟨v, hv, rfl⟩, vs, hvs, rfl⟩
      exact ⟨v :: vs, .cons hv hvs, rfl⟩
    · rintro ⟨vs, h, rfl⟩
      cases h with
      | cons hv hvs => exact ⟨_, _, _, rfl, ⟨_, hv, rfl⟩, _, hvs, rfl⟩

theorem exact_readFurther {ops : List Operand} (hops : ∀ o ∈ ops, o.Sized)
    (hroom : c.immediates.length + ops.length ≤ 2) :
    Exact (fun w d => ∃ vs, Further ops w vs ∧ d = vs.foldl Captures.add c)
      (readFurther c ops) := by
  induction ops generalizing c with
  | nil =>
    refine (exact_pure c).congr fun w d => ⟨?_, ?_⟩
    · rintro ⟨rfl, rfl⟩
      exact ⟨[], .nil, rfl⟩
    · rintro ⟨vs, h, rfl⟩
      cases h with
      | nil => exact ⟨rfl, rfl⟩
  | cons op ops ih =>
    rw [List.length_cons] at hroom
    have hops' : ∀ o ∈ ops, o.Sized := fun o ho => hops o (by simp [ho])
    obtain ⟨w, vs, hvs⟩ := exists_phrases hops
    -- the operand takes at most one of the places for numbers
    refine (exact_expect "," (exact_readOperand_further (c := c) (hops op (by simp)) hops'
      (by omega) fun d hd => ih hops' (by omega)) ⟨w, _, vs, hvs, rfl⟩ ?_ ?_).congr ?_
    · intro ts h hts
      simp only [readFurther, hts]
    · intro ts rest hts
      rewrite [readFurther, hts]
      rfl
    · intro w d
      simp only [Text.same_iff_eq (t := ",") (by decide)]
      constructor
      · rintro ⟨_, _, rfl, rfl, vs, hvs, rfl⟩
        cases hvs with
        | cons hv hvs => exact ⟨_, .cons hv hvs, rfl⟩
      · rintro ⟨vs, h, rfl⟩
        cases h with
        | cons hv hvs => exact ⟨",", _, rfl, rfl, _, .cons hv hvs, rfl⟩

/-- **The operands of a template are read exactly.** -/
theorem exact_readOperands {ops : List Operand} (hops : ∀ o ∈ ops, o.Sized)
    (hlen : ops.length ≤ 2) :
    Exact (fun w d => ∃ vs, Phrases ops w vs ∧ d = vs.foldl Captures.add .empty)
      (readOperands ops) := by
  cases ops with
  | nil =>
    refine (exact_pure Captures.empty).congr fun w d => ⟨?_, ?_⟩
    · rintro ⟨rfl, rfl⟩
      exact ⟨[], .nil, rfl⟩
    · rintro ⟨vs, h, rfl⟩
      cases h with
      | nil => exact ⟨rfl, rfl⟩
  | cons op ops =>
    rw [List.length_cons] at hlen
    have hops' : ∀ o ∈ ops, o.Sized := fun o ho => hops o (by simp [ho])
    have hnone : Captures.empty.immediates.length = 0 := rfl
    exact exact_readOperand_further (c := .empty) (hops op (by simp)) hops' (by omega)
      fun d hd => exact_readFurther hops' (by omega)

end Template
end RowAsm
