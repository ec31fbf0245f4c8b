import RowAsm.Fault
import RowAsm.Place

/-!
# Captures

What a statement says about the operands of a template that it matches.
-/

namespace RowAsm

/-- The operands of a statement. -/
structure Captures where
  /-- The register operand. -/
  register : Option Register
  /-- The operand of the r/m field. -/
  place : Option Place
  /-- The numbers, in the order of the operands. -/
  immediates : List Int
  /-- The number of tokens of the statement. -/
  consumed : Nat
  deriving DecidableEq, Repr

namespace Captures

/-- Nothing captured. -/
def empty : Captures := ⟨none, none, [], 0⟩

/-- The registers that the operands name: the register operand, then the place's. -/
def registers (c : Captures) : List Register :=
  c.register.toList ++ (c.place.map Place.base).toList

/-- Whether a register asks for a REX byte. -/
def needsRex (c : Captures) : Bool := c.registers.any fun r => r.isExtended || r.needsRex

/-- Whether a register rules a REX byte out. -/
def hasHighByte (c : Captures) : Bool := c.registers.any Register.isHighByte

/-- Adds a number; there is room for two. -/
def addImmediate (c : Captures) (v : Int) : Except Fault Captures :=
  if c.immediates.length < 2 then .ok { c with immediates := c.immediates ++ [v] }
  else .error .thirdNumber

end Captures
end RowAsm
