import RowAsm.Template.Part
import RowAsm.Text.Field

/-!
# Templates

A template is one form of an instruction: its mnemonic, the kinds of its operands and its opcode
program. Templates made from rows have at most two operands and satisfy the checks of `Row.compile`;
a template read from elsewhere need not.
-/

namespace RowAsm

/-- One form of an instruction. -/
structure Template where
  mnemonic : String
  operands : List Operand
  program : List Part
  /-- Whether the operand-size byte `66` comes first. -/
  operandSize : Bool
  deriving DecidableEq, Repr

namespace Template

/-- The constant of the reg field, from the first digit of the program. -/
def digit? (t : Template) : Option UInt8 :=
  t.program.findSome? fun
    | .digit d => some d
    | _ => none

/-- Whether the program places a REX byte. -/
def hasRex (t : Template) : Bool := t.program.any Part.isRex

/-- Whether the program takes the register operand into an opcode byte. -/
def hasFill (t : Template) : Bool := t.program.any Part.isFill

/-- Whether an operand goes into the r/m field. -/
def hasPlace (t : Template) : Bool := t.operands.any Operand.isPlace

/-- The operand kinds as they follow the mnemonic. -/
def displayOperands : List Operand → String
  | [] => ""
  | ops => " " ++ Text.join ", " (ops.map Operand.display)

/-- The template on one line, such as `add r/m32, imm8 [83 /0 ib]`. -/
def display (t : Template) : String :=
  t.mnemonic ++ displayOperands t.operands ++ " [" ++ (if t.operandSize then "66 " else "") ++
    Text.join " " (t.program.map Part.display) ++ "]"

end Template
end RowAsm
