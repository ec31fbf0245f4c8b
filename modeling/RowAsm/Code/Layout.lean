import RowAsm.Code.Basic
import RowAsm.Match.Captures
import RowAsm.Template.Basic
import RowAsm.Word

/-!
# The layout of an instruction

`Template.layout t caps` is the machine code of a template and its captured operands as a list of
pieces, each with its role, and `Template.emit` puts the pieces together. For a program in the usual
order the pieces are

`66`, `67`, prefix bytes of the program, REX, opcode bytes, ModR/M, SIB, displacement, numbers.

* `Fields.resolve` decides which register goes where. A register operand goes into the opcode byte
  if the program has a fill, else into the reg field, or into the r/m field if a digit owns the reg
  field.
* `Fields.modrmPieces` gives the ModR/M byte and what follows it. Memory at `rsp` or `r12` takes a
  SIB byte, memory at `rbp` or `r13` always a displacement, and memory at `rip` one of four bytes.
* `Fields.walk` goes through the program. A REX byte that the program does not place comes before
  the first opcode byte that is no prefix byte; the ModR/M byte comes before the first number, or at
  the end.

The code is the concatenation of the pieces (`bytes_of_emit`).
-/

namespace RowAsm

/-- What a piece of an instruction is. -/
inductive Role
  | operandSize
  | addressSize
  | rex
  | opcode
  | modrm
  | sib
  | displacement
  | number
  deriving DecidableEq, Repr

/-- A piece of an instruction: a single byte, or a signed number in little-endian order. -/
inductive Piece
  | byte (role : Role) (b : UInt8)
  | word (role : Role) (size : Nat) (value : Int)
  deriving DecidableEq, Repr

namespace Piece

/-- The role of a piece. -/
def role : Piece → Role
  | .byte r _ => r
  | .word r _ _ => r

@[simp] theorem role_byte (r : Role) (b : UInt8) : (byte r b).role = r := rfl

@[simp] theorem role_word (r : Role) (size : Nat) (v : Int) : (word r size v).role = r := rfl

/-- The bytes of a piece. -/
def bytes : Piece → List UInt8
  | .byte _ b => [b]
  | .word _ size v => Word.littleEndian size v

/-- Adds a piece to the code; a number has at most eight bytes. -/
def appendTo (c : Code) : Piece → Except Fault Code
  | .byte _ b => c.push b
  | .word _ size v =>
    if size ≤ 8 then c.extend (Word.littleEndian size v) else .error (.longField size)

theorem bytes_of_appendTo {c d : Code} {p : Piece} (h : appendTo c p = .ok d) :
    d.bytes = c.bytes ++ p.bytes := by
  cases p with
  | byte r b => exact Code.bytes_of_push h
  | word r size v =>
    simp only [appendTo] at h
    split at h
    · exact Code.bytes_of_extend h
    · cases h

/-- Adding pieces one by one adds the concatenation of their bytes. -/
theorem bytes_of_foldlM {ps : List Piece} {c d : Code} (h : ps.foldlM appendTo c = .ok d) :
    d.bytes = c.bytes ++ ps.flatMap bytes := by
  induction ps generalizing c with
  | nil =>
    cases h
    simp
  | cons p ps ih =>
    rw [List.foldlM_cons] at h
    cases hc : appendTo c p with
    | error f => rw [hc] at h; cases h
    | ok c' =>
      rw [hc] at h
      rw [ih h, bytes_of_appendTo hc]
      simp

end Piece

/-- Where the operands of an instruction go. -/
structure Fields where
  /-- The reg field of the ModR/M byte. -/
  reg : UInt8
  /-- The register in the opcode byte. -/
  fill : Option Register
  /-- The operand of the r/m field. -/
  place : Option Place
  /-- The REX byte, if there is to be one. -/
  rex : UInt8
  /-- Whether a REX byte is needed that the program does not place. -/
  forceRex : Bool
  /-- Whether there is a ModR/M byte. -/
  hasModrm : Bool
  deriving DecidableEq, Repr

namespace Fields

/-- The low three bits of a register's index. -/
def low (r : Register) : UInt8 := UInt8.ofNat (r.index % 8)

/-- The REX byte with its W, R and B bits. -/
def rexByte (w r b : Bool) : UInt8 :=
  0x40 ||| (if w then 0x08 else 0) ||| (if r then 0x04 else 0) ||| (if b then 0x01 else 0)

/-- The ModR/M byte. -/
def modrmByte (mode : Mode) (reg rm : UInt8) : UInt8 :=
  (mode.bits <<< 6) ||| ((reg &&& 7) <<< 3) ||| (rm &&& 7)

/-- The SIB byte of a base without an index register, where the r/m field is `100`. -/
def plainSib : UInt8 := 0x24

/-- The bytes that come before REX and opcode: locks, repeats, segments and sizes. -/
def isPrefixByte (b : UInt8) : Bool :=
  [0xF0, 0xF2, 0xF3, 0x26, 0x2E, 0x36, 0x3E, 0x64, 0x65, 0x66, 0x67].contains b

/-- Decides where the captured operands of a template go. -/
def resolve (t : Template) (caps : Captures) : Fields :=
  let digit := t.digit?
  let fill := if t.hasFill then caps.register else none
  let regOperand := if t.hasFill then none else caps.register
  let place := caps.place <|> (if digit.isSome then regOperand.map Place.register else none)
  let reg := digit.getD ((regOperand.map fun r => UInt8.ofNat r.index).getD 0)
  let w := t.program.contains (.rex true)
  let r := digit.isNone && regOperand.any Register.isExtended
  let b := (place.any fun p => p.base.isExtended) || fill.any Register.isExtended
  { reg, fill, place
    rex := rexByte w r b
    forceRex := !t.hasRex && (r || b || caps.registers.any Register.needsRex)
    hasModrm := place.isSome || digit.isSome }

/-- The mode in which memory at a base and a displacement is laid out: the narrowest one, but `rbp`
and `r13` always take a displacement. -/
def memoryMode (base : Register) (d : Int) : Mode :=
  match Mode.ofDisplacement d with
  | .base => if low base = 5 then .disp8 else .base
  | mode => mode

/-- The displacement of a mode. -/
def displacementPieces (mode : Mode) (d : Int) : List Piece :=
  match mode with
  | .disp8 => [.byte .displacement (Word.lowByte d)]
  | .disp32 => [.word .displacement 4 d]
  | .direct | .base => []

/-- The ModR/M byte, the SIB byte and the displacement of memory at a base. -/
def memoryPieces (reg : UInt8) (base : Register) (d : Int) : List Piece :=
  if base = .rip then [.byte .modrm (modrmByte .base reg 5), .word .displacement 4 d]
  else
    let mode := memoryMode base d
    .byte .modrm (modrmByte mode reg (low base)) ::
      ((if low base = 4 then [.byte .sib plainSib] else []) ++ displacementPieces mode d)

/-- The ModR/M byte and what belongs to it. Where a digit stands without an operand, the r/m field
repeats it. -/
def modrmPieces (f : Fields) : List Piece :=
  match f.place with
  | none => [.byte .modrm (modrmByte .direct f.reg f.reg)]
  | some (.register r) => [.byte .modrm (modrmByte .direct f.reg (UInt8.ofNat r.index))]
  | some (.memory base d) => memoryPieces f.reg base (d.getD 0)

/-- The pieces of a program. `rex` and `modrm` say whether a REX byte and the ModR/M byte are still
to come, and the numbers are used up one by one; a missing one counts as zero. -/
def walk (f : Fields) : (rex modrm : Bool) → List Int → List Part → List Piece
  | _, modrm, _, [] => if modrm then f.modrmPieces else []
  | rex, modrm, vs, .byte b :: ps =>
    if rex && !isPrefixByte b then
      .byte .rex f.rex :: .byte .opcode b :: walk f false modrm vs ps
    else .byte .opcode b :: walk f rex modrm vs ps
  | rex, modrm, vs, .fill b :: ps =>
    (if rex then [.byte .rex f.rex] else []) ++
      .byte .opcode ((b &&& 0xF8) ||| (f.fill.map low).getD 0) :: walk f false modrm vs ps
  | rex, modrm, vs, .rex _ :: ps => .byte .rex f.rex :: walk f rex modrm vs ps
  | rex, modrm, vs, .digit _ :: ps => walk f rex modrm vs ps
  | rex, modrm, vs, .immediate bits :: ps | rex, modrm, vs, .relative bits :: ps =>
    (if modrm then f.modrmPieces else []) ++
      .word .number (bits / 8) (vs.head?.getD 0) :: walk f rex false vs.tail ps

/-- The pieces before the program: the operand-size byte, and the address-size byte of memory at a
32-bit base. -/
def sizePieces (f : Fields) (operandSize : Bool) : List Piece :=
  (if operandSize then [.byte .operandSize 0x66] else []) ++
    (if f.place.any fun p => p.isMemory && p.base.bits == 32 then [.byte .addressSize 0x67] else [])

end Fields

namespace Template

/-- The machine code of a template and its captured operands, piece by piece. -/
def layout (t : Template) (caps : Captures) : List Piece :=
  let f := Fields.resolve t caps
  f.sizePieces t.operandSize ++ f.walk f.forceRex f.hasModrm caps.immediates t.program

/-- The machine code of a template and its captured operands. -/
def emit (t : Template) (caps : Captures) : Except Fault Code :=
  (t.layout caps).foldlM Piece.appendTo .empty

/-- The code is the concatenation of the pieces. -/
theorem bytes_of_emit {t : Template} {caps : Captures} {code : Code} (h : t.emit caps = .ok code) :
    code.bytes = (t.layout caps).flatMap Piece.bytes := by
  have := Piece.bytes_of_foldlM h
  simpa [Code.empty] using this

end Template
end RowAsm
