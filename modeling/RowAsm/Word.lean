/-!
# Numbers of a fixed width

* `Word.count bits` is the number of values of `bits` bits;
* `Word.isSigned bits v` says that `v` is a signed number of `bits` bits;
* `Word.signed64 v` is the signed number of 64 bits that agrees with `v` in its low 64 bits;
* `Word.littleEndian size v` are the low `size` bytes of `v` in two's complement, the lowest first.
-/

namespace RowAsm
namespace Word

/-- How many values a number of so many bits has. -/
def count (bits : Nat) : Nat := Nat.pow 2 bits

/-- Whether `v` lies in the signed range of a positive number of bits. -/
def isSigned (bits : Nat) (v : Int) : Bool :=
  -(count (bits - 1) : Int) ≤ v && v < (count (bits - 1) : Int)

/-- The signed number of 64 bits that agrees with `v` in its low 64 bits. -/
def signed64 (v : Int) : Int := v.bmod (count 64)

/-- The lowest byte of a number in two's complement. -/
def lowByte (v : Int) : UInt8 := UInt8.ofNat (v % 256).toNat

/-- The low `size` bytes of a number in two's complement, the lowest first. -/
def littleEndian : (size : Nat) → Int → List UInt8
  | 0, _ => []
  | size + 1, v => lowByte v :: littleEndian size (v / 256)

@[simp] theorem length_littleEndian (size : Nat) (v : Int) :
    (littleEndian size v).length = size := by
  induction size generalizing v with
  | zero => rfl
  | succ size ih => simp [littleEndian, ih]

end Word
end RowAsm
