import RowAsm.Fault
import RowAsm.Text.Digit
import RowAsm.Text.Field

/-!
# Machine code of one instruction

`Code` is a string of at most 15 bytes. A single byte is added by `Code.push`, a field of several by
`Code.extend`; both refuse to exceed the limit.
-/

namespace RowAsm

/-- The bytes of one instruction, at most 15. -/
structure Code where
  bytes : List UInt8
  length_le : bytes.length ≤ 15
  deriving DecidableEq

namespace Code

/-- No bytes. -/
def empty : Code := ⟨[], by simp⟩

/-- The number of bytes. -/
def size (c : Code) : Nat := c.bytes.length

/-- Whether there are no bytes. -/
def isEmpty (c : Code) : Bool := c.bytes.isEmpty

/-- Adds a byte. -/
def push (c : Code) (b : UInt8) : Except Fault Code :=
  if h : c.bytes.length < 15 then .ok ⟨c.bytes ++ [b], by rw [List.length_append]; exact h⟩
  else .error .full

/-- Adds a field of bytes. -/
def extend (c : Code) (bs : List UInt8) : Except Fault Code :=
  if h : c.bytes.length + bs.length ≤ 15 then
    .ok ⟨c.bytes ++ bs, by rw [List.length_append]; exact h⟩
  else .error (.overrun c.bytes.length bs.length)

theorem bytes_of_push {c d : Code} {b : UInt8} (h : c.push b = .ok d) :
    d.bytes = c.bytes ++ [b] := by
  unfold push at h
  split at h
  · cases h
    rfl
  · cases h

theorem bytes_of_extend {c d : Code} {bs : List UInt8} (h : c.extend bs = .ok d) :
    d.bytes = c.bytes ++ bs := by
  unfold extend at h
  split at h
  · cases h
    rfl
  · cases h

/-- The bytes in hexadecimal with spaces between them, such as `B8 05 00 00 00`. -/
def display (c : Code) : String := Text.join " " (c.bytes.map Text.hexByte)

/-- The bytes in decimal as a bracketed list, such as `[184, 5, 0]`. -/
def listing (c : Code) : String :=
  "[" ++ Text.join ", " (c.bytes.map fun b => toString b.toNat) ++ "]"

end Code
end RowAsm
