import RowAsm.Row.Rejection
import RowAsm.Template.Operand
import RowAsm.Text.Digit
import RowAsm.Text.Replace

/-!
# Opcode programs

An opcode program is a list of parts, written as tokens of the opcode column: bytes (`83`), bytes
that take a register (`B8+rd`), the digit of a ModR/M byte (`/0`), REX markers, and placeholders for
numbers (`ib`, `cd`).

* `Part.ofToken tok` reads one token; `/r` is a remark and leaves no part;
* `Part.program toks` reads all of them;
* `Part.display` is the token of a part.
-/

namespace RowAsm

/-- One part of an opcode program. -/
inductive Part
  /-- A byte as it stands. -/
  | byte (b : UInt8)
  /-- A byte whose low three bits are those of the register operand. -/
  | fill (b : UInt8)
  /-- The constant in the reg field of the ModR/M byte. -/
  | digit (d : UInt8)
  /-- A REX byte stands here, with or without its W bit. -/
  | rex (w : Bool)
  /-- A signed number of the given width in bits. -/
  | immediate (bits : Nat)
  /-- A branch offset of the given width in bits. -/
  | relative (bits : Nat)
  deriving DecidableEq, Repr

namespace Part

/-- Whether the part is a REX marker. -/
def isRex : Part → Bool
  | .rex _ => true
  | _ => false

/-- Whether the part takes a register into an opcode byte. -/
def isFill : Part → Bool
  | .fill _ => true
  | _ => false

/-- Whether the part fixes the reg field. -/
def isDigit : Part → Bool
  | .digit _ => true
  | _ => false

/-- Whether the part is an opcode byte. -/
def isOpcode : Part → Bool
  | .byte _ | .fill _ => true
  | _ => false

/-- The number field that the part reserves. -/
def slot? : Part → Option Slot
  | .immediate bits => some ⟨false, bits⟩
  | .relative bits => some ⟨true, bits⟩
  | _ => none

/-- The token of a part. -/
def display : Part → String
  | .byte b => Text.hexByte b
  | .fill b => Text.hexByte b ++ "+r"
  | .digit d => s!"/{d.toNat}"
  | .rex false => "REX"
  | .rex true => "REX.W"
  | .immediate 8 => "ib"
  | .immediate 16 => "iw"
  | .immediate 32 => "id"
  | .immediate _ => "io"
  | .relative 8 => "cb"
  | .relative 16 => "cw"
  | .relative _ => "cd"

/-- A byte of the opcode column: two hexadecimal digits, or a plus sign and one digit. -/
def byte? : List Char → Option UInt8
  | [c, d] =>
    if c = '+' then (Text.hexValue d).map UInt8.ofNat
    else
      match Text.hexValue c, Text.hexValue d with
      | some m, some n => some (UInt8.ofNat (m * 16 + n))
      | _, _ => none
  | _ => none

/-- The sizes that may follow `+r`. -/
def fillSizes : List (List Char) := [['b'], ['w'], ['d'], ['o']]

/-- The part of a token that is no keyword. -/
def ofPattern (tok : List Char) : Except Rejection Part :=
  match tok with
  | ['/', d] =>
    if '0' ≤ d && d ≤ '7' then .ok (.digit (UInt8.ofNat (d.toNat - '0'.toNat)))
    else .error (.opcode (String.ofList tok))
  | '/' :: _ => .error (.opcode (String.ofList tok))
  | cs =>
    if ['+', 'i'].isSuffixOf cs then .error (.encoding (String.ofList tok))
    else
      match Text.cut ['+', 'r'] cs with
      | some (stem, size) =>
        match byte? stem with
        | some b =>
          if fillSizes.contains size then .ok (.fill b) else .error (.opcode (String.ofList tok))
        | none => .error (.opcode (String.ofList tok))
      | none =>
        match byte? cs with
        | some b => .ok (.byte b)
        | none => .error (.opcode (String.ofList tok))

/-- The part that a token stands for, if it stands for one. -/
def ofToken (tok : List Char) : Except Rejection (Option Part) :=
  match tok with
  | ['R', 'E', 'X'] => .ok (some (.rex false))
  | ['R', 'E', 'X', '.', 'W'] => .ok (some (.rex true))
  | ['/', 'r'] => .ok none
  | ['i', 'b'] => .ok (some (.immediate 8))
  | ['i', 'w'] => .ok (some (.immediate 16))
  | ['i', 'd'] => .ok (some (.immediate 32))
  | ['i', 'o'] => .ok (some (.immediate 64))
  | ['c', 'b'] => .ok (some (.relative 8))
  | ['c', 'w'] => .ok (some (.relative 16))
  | ['c', 'd'] => .ok (some (.relative 32))
  | _ => (ofPattern tok).map some

/-- The program of a list of tokens; the first token that is none stops the reading. -/
def program : List (List Char) → Except Rejection (List Part)
  | [] => .ok []
  | tok :: toks =>
    match ofToken tok with
    | .error e => .error e
    | .ok p =>
      match program toks with
      | .error e => .error e
      | .ok ps => .ok (p.toList ++ ps)

end Part
end RowAsm
