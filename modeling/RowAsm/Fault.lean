/-!
# Faults

A fault is a broken promise of the caller, not a property of a statement: a template that no row
gives may ask for a number of an impossible width, or for more bytes than an instruction has.
`Halt ε` tells an answer of the program (`refused`) from a fault.
-/

namespace RowAsm

/-- What can go wrong with a template or a buffer that no row stands behind. -/
inductive Fault
  /-- A byte was added to 15 bytes. -/
  | full
  /-- A field of `added` bytes was added to `len` bytes, and together they exceed 15. -/
  | overrun (len added : Nat)
  /-- A number operand of width 0. -/
  | zeroWidth
  /-- A number operand of width 128, whose least value has no negation in 128 bits. -/
  | edgeWidth
  /-- A number operand of more than 128 bits. -/
  | wideWidth
  /-- A third number operand. -/
  | thirdNumber
  /-- A number field of `size` bytes, more than a 64-bit number has. -/
  | longField (size : Nat)
  deriving DecidableEq, Repr

/-- The wording of a fault. -/
def Fault.message : Fault → String
  | .full => "instruction longer than 15 bytes"
  | .overrun len added => s!"instruction longer than 15 bytes ({len} + {added})"
  | .zeroWidth => "attempt to subtract with overflow"
  | .edgeWidth => "attempt to negate with overflow"
  | .wideWidth => "attempt to shift left with overflow"
  | .thirdNumber => "index out of bounds: the len is 2 but the index is 2"
  | .longField size => s!"range end index {size} out of range for slice of length 8"

/-- How a computation ends without a result: it refuses its input, or a promise is broken. -/
inductive Halt (ε : Type)
  | refused (e : ε)
  | fault (f : Fault)
  deriving DecidableEq, Repr

end RowAsm
