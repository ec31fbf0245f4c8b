import Mathlib
import RowAsm.Place
import RowAsm.Word

/-!
# Reading machine code

The rules by which the 64-bit machine reads the bytes of an instruction. Nothing here knows how
instructions are laid out; every reader takes bytes and gives what they say and the bytes after it.

* `Word.signed bs` is the signed number of the bytes `bs`, the lowest first;
* `Rex.ofByte? b` takes a REX byte apart, which are the bytes `40` to `4F`;
* `Register.ofNumber? bits rex i` is the register of a width and a four-bit number. The byte
  registers 4 to 7 are the high bytes, but beside a REX byte they are `spl`, `bpl`, `sil`, `dil`;
* `Target.read` reads a ModR/M byte with its SIB byte and its displacement, and `Target.place?`
  gives the place that they stand for.
-/

namespace RowAsm

/-! ### Numbers -/

namespace Word

/-- The unsigned number of some bytes, the lowest first. -/
def unsigned : List UInt8 → Nat
  | [] => 0
  | b :: bs => b.toNat + 256 * unsigned bs

/-- The signed number of some bytes, the lowest first. -/
def signed (bs : List UInt8) : Int := (unsigned bs : Int).bmod (256 ^ bs.length)

/-- Reads a signed number of so many bytes. -/
def read (size : Nat) (bs : List UInt8) : Option (Int × List UInt8) :=
  if bs.length < size then none else some (signed (bs.take size), bs.drop size)

theorem toNat_lowByte (v : Int) : ((lowByte v).toNat : Int) = v % 256 := by
  have h0 := Int.emod_nonneg v (show (256 : Int) ≠ 0 by decide)
  have h1 := Int.emod_lt_of_pos v (show (0 : Int) < 256 by decide)
  rw [lowByte, UInt8.toNat_ofNat', Nat.mod_eq_of_lt (by omega), Int.toNat_of_nonneg h0]

/-- The low bytes of a number are its remainder. -/
theorem unsigned_littleEndian (size : Nat) (v : Int) :
    (unsigned (littleEndian size v) : Int) = v % 256 ^ size := by
  induction size generalizing v with
  | zero => simp [littleEndian, unsigned]
  | succ size ih =>
    have hpos : (0 : Int) < 256 ^ size := by positivity
    rw [littleEndian, unsigned, Nat.cast_add, Nat.cast_mul, toNat_lowByte, ih, pow_succ',
      Int.emod_def v, Int.emod_def (v / 256), Int.emod_def v, Int.ediv_ediv_of_nonneg (by decide)]
    push_cast
    ring

/-- Half of the values of so many bytes are negative. -/
theorem pow_eq_two_mul_count {size : Nat} (hs : 0 < size) :
    256 ^ size = 2 * count (8 * size - 1) := by
  rw [count, Nat.pow_eq, ← pow_succ', show 8 * size - 1 + 1 = 8 * size by omega, pow_mul]
  rfl

/-- **Sign extension undoes little-endian order.** -/
theorem signed_littleEndian {size : Nat} (hs : 0 < size) {v : Int}
    (h : isSigned (8 * size) v = true) : signed (littleEndian size v) = v := by
  have hn := pow_eq_two_mul_count hs
  simp only [isSigned, Bool.and_eq_true, decide_eq_true_eq] at h
  rw [signed, unsigned_littleEndian, length_littleEndian, hn,
    show (256 : Int) ^ size = ((2 * count (8 * size - 1) : Nat) : Int) by rw [← hn]; push_cast; rfl,
    Int.emod_bmod]
  apply Int.bmod_eq_of_le <;> omega

theorem read_littleEndian (size : Nat) (hs : 0 < size) {v : Int}
    (h : isSigned (8 * size) v = true) (rest : List UInt8) :
    read size (littleEndian size v ++ rest) = some (v, rest) := by
  rw [read, if_neg (by simp), List.take_left' (by simp), List.drop_left' (by simp),
    signed_littleEndian hs h]

end Word

/-! ### Bits of a byte -/

namespace Byte

/-- The two top bits of a byte. -/
def top (b : UInt8) : Nat := b.toNat / 64

/-- The three bits in the middle of a byte. -/
def middle (b : UInt8) : Nat := b.toNat / 8 % 8

/-- The three low bits of a byte. -/
def bottom (b : UInt8) : Nat := b.toNat % 8

end Byte

/-- A REX byte: whether the operand has 64 bits, and the fourth bits of the reg field, the index and
the base. -/
structure Rex where
  w : Bool
  r : Bool
  x : Bool
  b : Bool
  deriving DecidableEq, Repr

namespace Rex

/-- The parts of a REX byte. -/
def ofByte? (b : UInt8) : Option Rex :=
  if b.toNat / 16 = 4 then
    some ⟨b.toNat.testBit 3, b.toNat.testBit 2, b.toNat.testBit 1, b.toNat.testBit 0⟩
  else none

/-- Reads a REX byte if there is one. -/
def read : List UInt8 → Option Rex × List UInt8
  | [] => (none, [])
  | b :: bs =>
    match ofByte? b with
    | some rex => (some rex, bs)
    | none => (none, b :: bs)

end Rex

/-- The register of a width and a four-bit number. -/
def Register.ofNumber? (bits : Nat) (rex : Bool) (i : Nat) : Option Register :=
  match bits with
  | 64 => some (.r64 (Fin.ofNat 16 i))
  | 32 => some (.r32 (Fin.ofNat 16 i))
  | 16 => some (.r16 (Fin.ofNat 16 i))
  | 8 =>
    if rex = false ∧ 4 ≤ i ∧ i < 8 then some (.high8 (Fin.ofNat 4 i))
    else some (.low8 (Fin.ofNat 16 i))
  | _ => none

/-! ### The ModR/M byte -/

/-- What a ModR/M byte and the bytes after it point at, short of the bits in a REX byte. -/
inductive Target
  | register (rm : Nat)
  | memory (base : Nat) (displacement : Int)
  /-- Memory at a distance from the next instruction. -/
  | relative (displacement : Int)
  deriving DecidableEq, Repr

namespace Target

/-- The number of displacement bytes in a memory mode. -/
def displacementSize (mode : Nat) : Nat := if mode = 1 then 1 else if mode = 2 then 4 else 0

/-- Reads a SIB byte without an index: the base. In the mode without a displacement the base `101`
stands for none. -/
def readSib (mode : Nat) (x : Bool) : List UInt8 → Option (Nat × List UInt8)
  | [] => none
  | s :: bs =>
    if x = false ∧ Byte.middle s = 4 ∧ ¬ (mode = 0 ∧ Byte.bottom s = 5) then
      some (Byte.bottom s, bs)
    else none

/-- Reads a ModR/M byte and what belongs to it: the reg field, and what the rest points at. -/
def read (x : Bool) : List UInt8 → Option ((Nat × Target) × List UInt8)
  | [] => none
  | b :: bs =>
    let mode := Byte.top b
    let rm := Byte.bottom b
    if mode = 3 then some ((Byte.middle b, .register rm), bs)
    else if mode = 0 ∧ rm = 5 then do
      let (d, bs) ← Word.read 4 bs
      some ((Byte.middle b, .relative d), bs)
    else do
      let (base, bs) ← if rm = 4 then readSib mode x bs else some (rm, bs)
      let (d, bs) ← Word.read (displacementSize mode) bs
      some ((Byte.middle b, .memory base d), bs)

/-- The place of a target, for registers of the width `bits` and a base of 32 bits or not. -/
def place? (bits : Nat) (short : Bool) (rex : Option Rex) : Target → Option Place
  | .register rm =>
    (Register.ofNumber? bits rex.isSome ((rex.any Rex.b).toNat * 8 + rm)).map .register
  | .memory base d =>
    (Register.ofNumber? (if short then 32 else 64) rex.isSome
      ((rex.any Rex.b).toNat * 8 + base)).map fun r => .memory r (some d)
  | .relative d => if short then none else some (.memory .rip (some d))

end Target
end RowAsm
