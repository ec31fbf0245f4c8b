import RowAsm.Proofs.Addressing
import RowAsm.Proofs.Length

/-!
# The shortest bytes of an address

Memory can be addressed in several ways: with a SIB byte or without one, and with a displacement
wider than needed. `Target.size` is the least number of bytes for a target: whatever bytes the
machine reads it from, there are at least so many (`Target.size_le_of_read`). A layout uses exactly
so many (`Fields.length_modrmPieces`), so no shorter bytes address the same memory
(`Fields.modrm_shortest`).
-/

namespace RowAsm

/-! ### Numbers that are read -/

namespace Word

theorem isSigned_signed {bs : List UInt8} (h : 0 < bs.length) :
    isSigned (8 * bs.length) (signed bs) = true := by
  have hn := pow_eq_two_mul_count h
  have hpos : 0 < count (8 * bs.length - 1) := Nat.pow_pos (by decide)
  have hle := Int.le_bmod (x := unsigned bs) (m := 2 * count (8 * bs.length - 1)) (by omega)
  have hlt := Int.bmod_lt (x := unsigned bs) (m := 2 * count (8 * bs.length - 1)) (by omega)
  simp only [isSigned, signed, hn, Bool.and_eq_true, decide_eq_true_eq]
  omega

/-- A number of no bytes is zero, and one of some bytes has their width. -/
theorem of_read {size : Nat} {bs rest : List UInt8} {v : Int} (h : read size bs = some (v, rest)) :
    bs.length = size + rest.length ∧ (size = 0 → v = 0) ∧
      (0 < size → isSigned (8 * size) v = true) := by
  unfold read at h
  split_ifs at h with hlen
  cases h
  have htake : (bs.take size).length = size := by simp; omega
  refine ⟨by simp; omega, ?_, fun hpos => ?_⟩
  · rintro rfl
    simp [signed, unsigned]
  · have hsigned : isSigned (8 * (bs.take size).length) (signed (bs.take size)) = true :=
      isSigned_signed (by omega)
    rwa [htake] at hsigned

theorem isSigned_eight_iff {d : Int} : isSigned 8 d = true ↔ -128 ≤ d ∧ d < 128 := by
  simp only [isSigned, Bool.and_eq_true, decide_eq_true_eq]
  rfl

end Word

/-! ### Bases -/

namespace Register

theorem IsBase.isHighByte {b : Register} (h : b.IsBase) : b.isHighByte = false := by
  cases b with
  | high8 i => rcases h with h | h <;> cases h
  | _ => rfl

theorem IsBase.needsRex {b : Register} (h : b.IsBase) : b.needsRex = false := by
  cases b with
  | low8 i => rcases h with h | h <;> cases h
  | _ => rfl

end Register

/-! ### What a target takes -/

namespace Target

/-- The least number of displacement bytes for memory at the base `base`. The base `101` cannot do
without. -/
def leastDisplacement (base : Nat) (d : Int) : Nat :=
  if d = 0 ∧ base ≠ 5 then 0 else if Word.isSigned 8 d then 1 else 4

/-- The least number of bytes for a target: the ModR/M byte, a SIB byte for the base `100`, and the
displacement. -/
def size : Target → Nat
  | .register _ => 1
  | .memory base d => 1 + (if base = 4 then 1 else 0) + leastDisplacement base d
  | .relative _ => 5

/-- The base is the number of a register, short of the fourth bit. -/
def BaseLt : Target → Prop
  | .memory base _ => base < 8
  | _ => True

theorem of_readSib {mode base : Nat} {x : Bool} {bs rest : List UInt8}
    (h : readSib mode x bs = some (base, rest)) :
    bs.length = 1 + rest.length ∧ base < 8 ∧ ¬ (mode = 0 ∧ base = 5) := by
  cases bs with
  | nil => cases h
  | cons s bs =>
    simp only [readSib] at h
    split_ifs at h with hs
    cases h
    exact ⟨by simp; omega, Nat.mod_lt _ (by decide), hs.2.2⟩

/-- The displacement of any mode has at least the bytes it needs. -/
theorem leastDisplacement_le_of_read {mode base : Nat} {d : Int} {bs rest : List UInt8}
    (hbase : ¬ (mode = 0 ∧ base = 5)) (hmode : mode < 3)
    (h : Word.read (displacementSize mode) bs = some (d, rest)) :
    leastDisplacement base d + rest.length ≤ bs.length := by
  obtain ⟨hlen, hzero, hsigned⟩ := Word.of_read h
  rw [hlen, Nat.add_le_add_iff_right]
  interval_cases mode
  · -- no displacement bytes: the displacement is zero, and the base is not `101`
    rw [leastDisplacement, if_pos ⟨hzero rfl, fun h => hbase ⟨rfl, h⟩⟩]
    exact Nat.zero_le _
  · have h8 : Word.isSigned 8 d = true := hsigned (by decide)
    rw [leastDisplacement, if_pos h8]
    split_ifs <;> decide
  · unfold leastDisplacement
    split_ifs <;> decide

/-- **No bytes address a target with fewer than its size**, whichever way they do. -/
theorem size_le_of_read {x : Bool} {reg : Nat} {target : Target} {bs rest : List UInt8}
    (h : read x bs = some ((reg, target), rest)) :
    target.size + rest.length ≤ bs.length ∧ target.BaseLt := by
  cases bs with
  | nil => cases h
  | cons b bs =>
    simp only [read] at h
    by_cases hdirect : Byte.top b = 3
    · rw [if_pos hdirect] at h
      cases h
      exact ⟨by simp [size]; omega, trivial⟩
    by_cases hrelative : Byte.top b = 0 ∧ Byte.bottom b = 5
    · rw [if_neg hdirect, if_pos hrelative] at h
      obtain ⟨⟨d, rest'⟩, hd, he⟩ := Option.bind_eq_some_iff.1 h
      cases he
      have hlen := (Word.of_read hd).1
      exact ⟨by simp only [size, List.length_cons]; omega, trivial⟩
    · rw [if_neg hdirect, if_neg hrelative] at h
      have hmode : Byte.top b < 3 := by
        have := b.toNat_lt
        unfold Byte.top at hdirect ⊢
        omega
      -- the base `100` can only come from a SIB byte
      split_ifs at h with hrm
      · obtain ⟨⟨base, bs'⟩, hbase, h⟩ := Option.bind_eq_some_iff.1 h
        obtain ⟨⟨d, rest'⟩, hd, he⟩ := Option.bind_eq_some_iff.1 h
        cases he
        obtain ⟨hlen, hlt, hne⟩ := of_readSib hbase
        have hdisp := leastDisplacement_le_of_read hne hmode hd
        refine ⟨?_, hlt⟩
        simp only [size, List.length_cons] at hdisp ⊢
        split_ifs <;> omega
      · rw [Option.bind_eq_bind, Option.bind_some] at h
        obtain ⟨⟨d, rest'⟩, hd, he⟩ := Option.bind_eq_some_iff.1 h
        cases he
        have hdisp := leastDisplacement_le_of_read hrelative hmode hd
        refine ⟨?_, Nat.mod_lt _ (by decide)⟩
        simp only [size, if_neg hrm, List.length_cons] at hdisp ⊢
        omega

/-- A memory operand tells the target that it comes from. -/
theorem eq_target_of_place? {target : Target} (hlt : target.BaseLt) {bits : Nat} {short : Bool}
    {rex : Option Rex} {b : Register} {d : Int}
    (h : target.place? bits short rex = some (.memory b (some d))) :
    target = (Place.memory b (some d)).target := by
  cases target with
  | register rm =>
    obtain ⟨r, -, hr⟩ := Option.map_eq_some_iff.1 h
    cases hr
  | memory base d' =>
    obtain ⟨r, hr, he⟩ := Option.map_eq_some_iff.1 h
    cases he
    have hB := Bool.toNat_le (rex.any Rex.b)
    have hi : (rex.any Rex.b).toNat * 8 + base < 16 := by
      have : base < 8 := hlt
      omega
    obtain ⟨hne, hindex⟩ : b ≠ .rip ∧ b.index = (rex.any Rex.b).toNat * 8 + base := by
      cases short <;> cases hr <;> exact ⟨by simp, Nat.mod_eq_of_lt hi⟩
    have hbase : b.index % 8 = base := by
      have : base < 8 := hlt
      omega
    rw [Place.target_memory hne, hbase]
    rfl
  | relative d' =>
    unfold place? at h
    split_ifs at h
    cases h
    rfl

end Target

/-! ### The bytes of a layout -/

namespace Fields

theorem displacementLength_memoryMode (b : Register) (d : Int) :
    (memoryMode b d).displacementLength = Target.leastDisplacement (b.index % 8) d := by
  have hlow : low b = 5 ↔ b.index % 8 = 5 := low_eq_iff
  have h8 : Word.isSigned 8 d = true ↔ -128 ≤ d ∧ d < 128 := Word.isSigned_eight_iff
  unfold memoryMode Mode.ofDisplacement Target.leastDisplacement
  by_cases h0 : d = 0
  · by_cases h5 : b.index % 8 = 5
    · simp [h0, hlow.2 h5, h5, Mode.displacementLength, Word.isSigned_eight_iff]
    · simp [h0, mt hlow.1 h5, h5, Mode.displacementLength]
  · by_cases hd : -128 ≤ d ∧ d < 128
    · simp [h0, hd, h8, Mode.displacementLength]
    · simp [h0, hd, h8, Mode.displacementLength]

/-- A ModR/M byte with what belongs to it takes as many bytes as its target needs. -/
theorem length_modrmPieces {f : Fields} {p : Place} (hp : f.place = some p) :
    (f.modrmPieces.flatMap Piece.bytes).length = p.target.size := by
  cases p with
  | register r => simp [modrmPieces, hp, Piece.bytes, Place.target, Target.size]
  | memory b d =>
    by_cases hb : b = .rip
    · subst hb
      simp [modrmPieces, hp, memoryPieces, Piece.bytes, Place.target, Target.size]
    · have hlow : low b = 4 ↔ b.index % 8 = 4 := low_eq_iff
      have hdisp := length_displacementPieces (memoryMode b (d.getD 0)) (d.getD 0)
      rw [displacementLength_memoryMode] at hdisp
      rw [Place.target_memory hb, Target.size]
      simp only [modrmPieces, hp, memoryPieces, if_neg hb, List.flatMap_cons, List.flatMap_append,
        List.length_append, hdisp, hlow, Piece.bytes, List.length_singleton]
      split_ifs <;> simp [Piece.bytes]
      omega

end Fields

/-! ### Shortest bytes -/

/-- Reads bytes that are a ModR/M byte with what belongs to it and nothing else: the reg field, and
the register or the memory in the r/m field, under a REX byte and an address size. Memory with an
index register or without a base is none. -/
def Place.decode? (bits : Nat) (short : Bool) (rex : Option Rex) (bs : List UInt8) :
    Option (Nat × Place) :=
  match Target.read (rex.any Rex.x) bs with
  | some ((reg, target), []) => (target.place? bits short rex).map fun p => (reg, p)
  | _ => none

theorem Place.of_decode? {bits reg : Nat} {short : Bool} {rex : Option Rex} {bs : List UInt8}
    {p : Place} (h : decode? bits short rex bs = some (reg, p)) :
    ∃ target, Target.read (rex.any Rex.x) bs = some ((reg, target), []) ∧
      target.place? bits short rex = some p := by
  unfold decode? at h
  split at h
  · rename_i reg' target hread
    obtain ⟨q, hq, he⟩ := Option.map_eq_some_iff.1 h
    cases he
    exact ⟨target, hread, hq⟩
  · cases h

/-- **Memory is addressed with the fewest bytes.** Take any reg field, memory at any register of 32
or 64 bits or at the instruction pointer, and any displacement of 32 bits, where a missing one is
zero. The ModR/M byte of the layout, with its SIB byte and its displacement, reads back to that reg
field, base and displacement, if the fourth bit of the base comes from the REX byte; and all bytes
that read back to that base and displacement, under whatever REX byte and address size, are at least
as many. -/
theorem Fields.modrm_shortest (f : Fields) (b : Register) (d : Option Int)
    (hplace : f.place = some (.memory b d)) (hb : b.IsBase)
    (hd : Word.isSigned 32 (d.getD 0) = true) :
    (∀ bits rex, rex.any Rex.b = b.isExtended → rex.any Rex.x = false →
      Place.decode? bits (b.bits == 32) rex (f.modrmPieces.flatMap Piece.bytes) =
        some (f.reg.toNat % 8, .memory b (some (d.getD 0)))) ∧
    ∀ bits short rex bs reg,
      Place.decode? bits short rex bs = some (reg, .memory b (some (d.getD 0))) →
        (f.modrmPieces.flatMap Piece.bytes).length ≤ bs.length := by
  refine ⟨fun bits rex hB hX => ?_, fun bits short rex bs reg h => ?_⟩
  · have hread := read_modrmPieces hplace ⟨hb, hd⟩ []
    have htarget : (Place.memory b d).target.place? bits (b.bits == 32) rex =
        some (.memory b (some (d.getD 0))) :=
      Place.place?_target (p := .memory b d) ⟨hb, hd⟩ (fun r hr => by cases hr) hB
        (by simp [Place.base, hb.isHighByte]) (by simp [Place.base, hb.needsRex])
    rw [List.append_nil] at hread
    simp only [Place.decode?, hX, hread, htarget, Option.map_some]
  · obtain ⟨target, hread, htarget⟩ := Place.of_decode? h
    obtain ⟨hsize, hlt⟩ := Target.size_le_of_read hread
    rw [Target.eq_target_of_place? hlt htarget] at hsize
    have heq : (Place.memory b (some (d.getD 0))).target = (Place.memory b d).target := by
      cases b <;> rfl
    rw [length_modrmPieces hplace, ← heq]
    simpa using hsize

/-- Memory at `r13` takes a displacement of zero in one byte, and no single byte addresses it. -/
theorem Fields.modrm_shortest_r13 :
    let f : Fields := ⟨3, none, some (.memory (.r64 13) none), 0x49, false, true⟩
    f.modrmPieces.flatMap Piece.bytes = [0x5D, 0x00] ∧
      Place.decode? 64 false (some ⟨true, false, false, true⟩) [0x5D, 0x00] =
        some (3, .memory (.r64 13) (some 0)) ∧
      ∀ bits short rex bs reg,
        Place.decode? bits short rex bs = some (reg, .memory (.r64 13) (some 0)) →
          2 ≤ bs.length := by
  intro f
  have hbytes : f.modrmPieces.flatMap Piece.bytes = [0x5D, 0x00] := by decide
  obtain ⟨hdecode, hleast⟩ := modrm_shortest f (.r64 13) none rfl (Or.inr rfl) (by decide)
  rw [hbytes] at hdecode hleast
  exact ⟨hbytes, hdecode 64 _ rfl rfl, hleast⟩

end RowAsm
