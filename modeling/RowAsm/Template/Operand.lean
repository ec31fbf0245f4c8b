import RowAsm.Text.Case

/-!
# Operand kinds

What a template expects in one operand slot, and how a field of the signature column of a row names
it.

* `Operand.ofField? field` classifies a field. The list `Operand.skipped` is consulted first, with
  the field as it is written; everything after that looks at its lower-case form.
* `Operand.display` is the name of a kind.
-/

namespace RowAsm

/-- A field that holds a number: its kind (`relative` for a branch offset) and its width in bits. -/
structure Slot where
  relative : Bool
  bits : Nat
  deriving DecidableEq, Repr

/-- The kind of one operand. Widths are in bits. -/
inductive Operand
  /-- A signed number. -/
  | immediate (bits : Nat)
  /-- A signed branch offset, counted from the next instruction. -/
  | relative (bits : Nat)
  /-- One token, up to case. -/
  | fixed (word : String)
  /-- A register; the width `0` admits every one. -/
  | register (bits : Nat)
  /-- A register of the width, or a memory reference that accesses so many bits. -/
  | place (bits : Nat)
  /-- A memory reference without a stated access width. -/
  | memory
  deriving DecidableEq, Repr

namespace Operand

/-- Whether the operand goes into the r/m field of a ModR/M byte. -/
def isPlace : Operand → Bool
  | .place _ | .memory => true
  | _ => false

/-- Whether the operand is a register of its own. -/
def isRegister : Operand → Bool
  | .register _ => true
  | _ => false

/-- The number field that the operand asks for. -/
def slot? : Operand → Option Slot
  | .immediate bits => some ⟨false, bits⟩
  | .relative bits => some ⟨true, bits⟩
  | _ => none

/-- The name of a kind in a signature. -/
def display : Operand → String
  | .immediate bits => s!"imm{bits}"
  | .relative bits => s!"rel{bits}"
  | .fixed word => word
  | .register 0 => "r"
  | .register bits => s!"r{bits}"
  | .place bits => s!"r/m{bits}"
  | .memory => "m"

/-- Operands that are known and left out: vector, segment, bound, control, debug and floating-point
registers, memory of an explicit size, far pointers, string operands, and 16-bit branch offsets. -/
def skipped : List (List Char) :=
  ["bnd", "bnd1", "bnd1/m64", "bnd1/m128", "CR0-CR7", "CR8", "DR0-DR7", "k1", "mem", "mm", "mm1",
    "moffs8", "moffs16", "moffs32", "moffs64", "m8", "m16", "m16int", "m2byte", "m32", "m32fp",
    "m32int", "m512", "m512byte", "m64", "m64f", "m64fp", "m64int", "m80bcd", "m80dec", "m80fp",
    "m128", "m14/28byte", "m16:16", "m16:32", "m16:64", "m16&16", "m16&32", "m16&64", "m32&32",
    "m94/108byte", "ptr16:16", "ptr16:32", "reg", "rel", "rel16", "r16/m16", "r32/m16", "r32/m32",
    "r64/m16", "r64/m64", "Sreg", "ST(i)", "ST(0)", "vm32y", "vm32z", "vm64z", "xmm", "xmm1",
    "xmm1/m32", "xmm1/m64", "xmm2", "xmm3/m128", "ymm1"].map String.toList

/-- Operands that stand for themselves. -/
def fixedWords : List (List Char) :=
  ["al", "ah", "ax", "eax", "rax", "cl", "ds", "dx", "es", "ss", "gs", "fs", "cs", "0", "1",
    "3"].map String.toList

/-- The widths that a kind may name. -/
def width? : List Char → Option Nat
  | ['8'] => some 8
  | ['1', '6'] => some 16
  | ['3', '2'] => some 32
  | ['6', '4'] => some 64
  | _ => none

/-- The kind that a lower-case field names. -/
def ofLower? (word : List Char) : Option Operand :=
  match word with
  | 'i' :: 'm' :: 'm' :: ds => (width? ds).map .immediate
  | 'r' :: 'e' :: 'l' :: ds => (width? ds).map .relative
  | cs =>
    if fixedWords.contains cs then some (.fixed (String.ofList cs))
    else
      match cs with
      | 'r' :: '/' :: 'm' :: ds => (width? ds).map .place
      | ['r'] => some (.register 0)
      | 'r' :: ds => (width? ds).map .register
      | ['m'] => some .memory
      | _ => none

/-- The kind that a field of the signature names, if it is one that templates have. -/
def ofField? (field : List Char) : Option Operand :=
  if skipped.contains field then none else ofLower? (field.map Char.toLower)

end Operand
end RowAsm
