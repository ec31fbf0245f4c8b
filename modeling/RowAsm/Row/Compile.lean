import RowAsm.Template.Basic
import RowAsm.Text.Blank

/-!
# Rows

A row of an instruction reference has a signature, such as `ADD r/m32, imm8`, and an opcode column,
such as `83 /0 ib`. `Row.compile` turns a row into a template or says why not; it decides in this
order:

* the opcode column must not use an encoding that templates do not have (`Row.checkEncoding`);
* the signature gives a mnemonic and at most two operands (`Row.headed`);
* the operands are kinds that templates have (`Row.operands`);
* the opcode column is a program (`Row.program`);
* operands and program agree (`Row.inconsistency?`), and no encoding exceeds 15 bytes
  (`Row.maxLength`).
-/

namespace RowAsm

/-- A row of an instruction reference: its signature and its opcode column. -/
structure Row where
  signature : String
  opcode : String
  deriving DecidableEq, Repr

namespace Row

/-! ### The opcode column -/

/-- The opcode column with single spaces between its tokens. -/
def spaced (opcode : String) : List Char :=
  [' '].intercalate (Text.words Text.isBlank opcode.toList)

/-- The marker of an encoding that templates do not have, in a column with single spaces. -/
def marker? (text : List Char) : Option String :=
  if Text.contains "VEX".toList text then some "VEX"
  else if Text.contains "XOP".toList text then some "XOP"
  else
    ((Text.fields (· == ' ') text).find? fun t => t == ['N', 'P'] || t == ['N', 'F', 'x']).map
      String.ofList

/-- Refuses a column with such a marker. -/
def checkEncoding (text : List Char) : Except Rejection Unit :=
  match marker? text with
  | some marker => .error (.encoding marker)
  | none => .ok ()

/-- The tokens of a column with single spaces, one spelling for each: `REX.W +` is `REX.W`, the mark
`+r` sticks to its byte, and a digit stands apart. -/
def tokens (text : List Char) : List (List Char) :=
  let text := Text.replace "REX.W +" "REX.W" text
  let text := Text.replace "REX +" "REX" text
  let text := Text.replace " +r" "+r" text
  let text := Text.replace "+ r" "+r" text
  let text := Text.replace "/" " /" text
  Text.words Text.isBlank text

/-- The program of a column with single spaces. -/
def program (text : List Char) : Except Rejection (List Part) := Part.program (tokens text)

/-! ### The signature -/

/-- The fields of a signature, which commas and spaces separate. -/
def fields (signature : String) : List (List Char) :=
  Text.words (fun c => c == ',' || c == ' ') signature.toList

/-- The mnemonic of the rows that are known by their opcode column alone: the far returns. -/
def opcodeMnemonic? (text : List Char) : Option String :=
  if text = "CB".toList ∨ text = "CA iw".toList then some "retf" else none

/-- Divides the fields of a signature into mnemonic and operands. A row known by its opcode column
may leave its mnemonic out, so there a first field that is an operand kind is an operand. -/
def divide (known : Option String) (fs : List (List Char)) :
    Except Rejection (String × List (List Char)) :=
  match known, fs with
  | some m, f :: rest => .ok (m, if (Operand.ofField? f).isSome then f :: rest else rest)
  | some m, [] => .ok (m, [])
  | none, f :: rest => .ok (Text.lower (String.ofList f), rest)
  | none, [] => .error .noMnemonic

/-- The mnemonic and the at most two operands of a signature of at most three fields. -/
def headed (known : Option String) (fs : List (List Char)) :
    Except Rejection (String × List (List Char)) :=
  if 3 < fs.length then .error (.fields fs.length)
  else
    match divide known fs with
    | .error e => .error e
    | .ok (m, rest) => if 2 < rest.length then .error (.fields (rest.length + 1)) else .ok (m, rest)

/-- The operand kinds of a list of fields; the first field that is none stops the reading. -/
def operands : List (List Char) → Except Rejection (List Operand)
  | [] => .ok []
  | f :: fs =>
    match Operand.ofField? f with
    | none => .error (.operand (String.ofList f))
    | some o =>
      match operands fs with
      | .error e => .error e
      | .ok os => .ok (o :: os)

/-! ### Agreement of the columns -/

/-- The first disagreement between operands and program. -/
def inconsistency? (ops : List Operand) (prog : List Part) : Option Inconsistency :=
  let registers := ops.countP Operand.isRegister
  let places := ops.countP Operand.isPlace
  let fills := prog.countP Part.isFill
  let digits := prog.countP Part.isDigit
  let wanted := ops.filterMap Operand.slot?
  let given := prog.filterMap Part.slot?
  if !prog.any Part.isOpcode then some .noOpcodeByte
  else if 1 < prog.countP Part.isRex then some .severalRex
  else if 1 < digits then some .severalDigits
  else if 1 < fills then some .severalFills
  else if 1 < registers || 1 < places then some .severalRegisters
  else if registers == 0 && 0 < fills then some .fillWithoutRegister
  else if registers == 1 && fills == 0 && digits == 0 && places == 0 then some .registerWithoutField
  else if registers == 1 && 0 < digits && places == 1 then some .digitTakesField
  else if !wanted.isPrefixOf given then some .unmatchedImmediate
  else if wanted.length < given.length then some .unmatchedPlaceholder
  else none

/-- Whether the operands ask for the operand-size byte: one of them is the fixed word `ax`, or the
first that has a register width has 16 bits. -/
def wantsOperandSize (ops : List Operand) : Bool :=
  ops.contains (.fixed "ax") ||
    (ops.findSome? fun
      | .register bits | .place bits => some (bits == 16)
      | _ => none).getD false

/-- The greatest number of bytes that a part can take. -/
def partLength : Part → Nat
  | .byte _ | .fill _ | .rex _ => 1
  | .digit _ => 0
  | .immediate bits | .relative bits => bits / 8

/-- The greatest number of bytes that the parts of a program can take. -/
def partsLength : List Part → Nat
  | [] => 0
  | p :: ps => partLength p + partsLength ps

/-- The greatest length of an encoding: an r/m operand may bring `67`, a SIB byte and a displacement
of four bytes, and any register may bring a REX byte if the program places none. -/
def maxLength (ops : List Operand) (prog : List Part) (operandSize : Bool) : Nat :=
  let places := ops.any Operand.isPlace
  let registers := places || ops.any Operand.isRegister
  operandSize.toNat + (if places then 6 else 0) +
    (if registers && !prog.any Part.isRex then 1 else 0) + partsLength prog +
    (places || prog.any Part.isDigit).toNat

/-- The greatest length of an instruction. -/
def lengthLimit : Nat := 15

/-! ### Compilation -/

/-- The template of a mnemonic, operands and a program that agree. -/
def template (mnemonic : String) (ops : List Operand) (prog : List Part) :
    Except Rejection Template :=
  match inconsistency? ops prog with
  | some why => .error (.inconsistent why)
  | none =>
    let operandSize := wantsOperandSize ops && prog.head? != some (.byte 0x66)
    if lengthLimit < maxLength ops prog operandSize then .error (.inconsistent .tooLong)
    else .ok ⟨mnemonic, ops, prog, operandSize⟩

/-- The template of a row. -/
def compile (row : Row) : Except Rejection Template := do
  let text := spaced row.opcode
  checkEncoding text
  let (mnemonic, rest) ← headed (opcodeMnemonic? text) (fields row.signature)
  let ops ← operands rest
  let prog ← program text
  template mnemonic ops prog

end Row
end RowAsm
