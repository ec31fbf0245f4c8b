import RowAsm.Register

/-!
# Places

The operand in the r/m field of a ModR/M byte is a place: a register, or memory at a base register
and a displacement.

* `Mode` is the addressing mode, the two top bits of a ModR/M byte;
* `Mode.ofDisplacement d` is the narrowest memory mode that holds `d`;
* `Place.mode` is the mode in which a place is written down: every written displacement counts as
  wide until the code is laid out.
-/

namespace RowAsm

/-- The addressing mode of a ModR/M byte. -/
inductive Mode
  /-- The register itself. -/
  | direct
  /-- Memory at the base, without a displacement. -/
  | base
  /-- Memory at the base and a displacement of one byte. -/
  | disp8
  /-- Memory at the base and a displacement of four bytes. -/
  | disp32
  deriving DecidableEq, Repr

namespace Mode

/-- The two bits of a mode. -/
def bits : Mode → UInt8
  | base => 0
  | disp8 => 1
  | disp32 => 2
  | direct => 3

/-- The number of displacement bytes of a mode. -/
def displacementLength : Mode → Nat
  | disp8 => 1
  | disp32 => 4
  | direct | base => 0

/-- The narrowest memory mode that holds a displacement. -/
def ofDisplacement (d : Int) : Mode :=
  if d = 0 then base else if -128 ≤ d ∧ d < 128 then disp8 else disp32

end Mode

/-- An operand of the r/m field. -/
inductive Place
  | register (r : Register)
  /-- Memory at a base register, and the displacement if one was written. -/
  | memory (base : Register) (displacement : Option Int)
  deriving DecidableEq, Repr

namespace Place

/-- The register, or the base of the memory reference. -/
def base : Place → Register
  | .register r => r
  | .memory b _ => b

/-- Whether the place is in memory. -/
def isMemory : Place → Bool
  | .register _ => false
  | .memory _ _ => true

/-- The displacement that was written. -/
def displacement? : Place → Option Int
  | .register _ => none
  | .memory _ d => d

/-- The mode of a place as it was written. -/
def mode : Place → Mode
  | .register _ => .direct
  | .memory _ none => .base
  | .memory _ (some _) => .disp32

end Place
end RowAsm
