/-!
# Rejections

Why a row of an instruction reference gives no template. An `Inconsistency` is a disagreement
between the operands of a row and its opcode program.
-/

namespace RowAsm

/-- How the two columns of a row can disagree. -/
inductive Inconsistency
  | noOpcodeByte
  | severalRex
  | severalDigits
  | severalFills
  | severalRegisters
  | fillWithoutRegister
  | registerWithoutField
  | digitTakesField
  | unmatchedImmediate
  | unmatchedPlaceholder
  | tooLong
  deriving DecidableEq, Repr

/-- Why a row is not turned into a template. -/
inductive Rejection
  /-- The opcode column uses a form of encoding that templates do not have. -/
  | encoding (marker : String)
  /-- The signature has more fields than a mnemonic and two operands. -/
  | fields (count : Nat)
  /-- Nothing names the instruction. -/
  | noMnemonic
  /-- A field of the signature is no operand kind. -/
  | operand (field : String)
  /-- A token of the opcode column is not in its notation. -/
  | opcode (token : String)
  /-- The columns disagree. -/
  | inconsistent (why : Inconsistency)
  deriving DecidableEq, Repr

/-- The wording of an inconsistency. -/
def Inconsistency.message : Inconsistency → String
  | .noOpcodeByte => "opcode program has no opcode byte"
  | .severalRex => "more than one REX marker"
  | .severalDigits => "more than one /digit marker"
  | .severalFills => "more than one +r marker"
  | .severalRegisters => "more than one register or r/m operand"
  | .fillWithoutRegister => "+r marker without a register operand"
  | .registerWithoutField => "register operand has no ModR/M or opcode slot"
  | .digitTakesField => "/digit leaves no ModR/M field for the register operand"
  | .unmatchedImmediate => "immediate operands do not match opcode placeholders"
  | .unmatchedPlaceholder => "opcode placeholder without an immediate operand"
  | .tooLong => "encoding can exceed the 15-byte instruction limit"

/-- The wording of a rejection. -/
def Rejection.message : Rejection → String
  | .encoding marker => s!"unsupported encoding marker '{marker}'"
  | .fields count => s!"{count} syntax fields (at most 3 are supported)"
  | .noMnemonic => "row has no mnemonic"
  | .operand field => s!"unsupported operand type '{field}'"
  | .opcode token => s!"malformed opcode pattern token '{token}'"
  | .inconsistent why => s!"inconsistent row: {why.message}"

end RowAsm
