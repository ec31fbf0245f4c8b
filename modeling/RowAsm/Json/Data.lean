import RowAsm.Encoder.Basic
import RowAsm.Json.Form

/-!
# The JSON forms of the data

Spans, mismatches, diagnostics, registers, modes, operand kinds, opcode parts, templates and
settings.
-/

namespace RowAsm

open Json

/-! ### Places in a text, mismatches and diagnostics -/

instance : Form Span where
  toJson s := record [("line", nat s.line), ("col", nat s.col), ("offset", nat s.offset),
    ("len", nat s.len)]
  ofJson? v :=
    match record? ["line", "col", "offset", "len"] v with
    | some [line, col, offset, len] => do
      some ⟨← nat? 32 line, ← nat? 32 col, ← nat? 64 offset, ← nat? 64 len⟩
    | _ => none

/-- The name of a kind of mismatch. -/
def Mismatch.Kind.name : Mismatch.Kind → String
  | .instruction => "InvalidInstruction"
  | .operand => "InvalidOperand"
  | .trailing => "ExtraneousTokenAfterInstruction"

instance : Form Mismatch.Kind := .ofNames [.instruction, .operand, .trailing] Mismatch.Kind.name

instance : Form Mismatch where
  toJson m := record [("remaining", nat m.remaining), ("kind", Form.toJson m.kind)]
  ofJson? v :=
    match record? ["remaining", "kind"] v with
    | some [remaining, kind] => do some ⟨← nat? 64 remaining, ← Form.ofJson? kind⟩
    | _ => none

/-- The name of a sort of diagnostic. -/
def Diagnostic.name : Diagnostic → String
  | .malformed .. => "Syntax"
  | .unencodable .. => "Encode"
  | .overLimit .. => "ResourceLimitExceeded"

/-- The data of a diagnostic. -/
def Diagnostic.data : Diagnostic → Json
  | .malformed message span => record [("msg", str message), ("span", Form.toJson span)]
  | .unencodable kind token span =>
    record [("kind", Form.toJson kind), ("token", str token), ("span", Form.toJson span)]
  | .overLimit resource limit => record [("resource", str resource), ("limit", nat limit)]

/-- Reads a malformed text. -/
def Diagnostic.readMalformed? (v : Json) : Option Diagnostic :=
  match record? ["msg", "span"] v with
  | some [message, span] => do some (.malformed (← str? message) (← Form.ofJson? span))
  | _ => none

/-- Reads a statement without an encoding. -/
def Diagnostic.readUnencodable? (v : Json) : Option Diagnostic :=
  match record? ["kind", "token", "span"] v with
  | some [kind, token, span] => do
    some (.unencodable (← Form.ofJson? kind) (← str? token) (← Form.ofJson? span))
  | _ => none

/-- Reads an exceeded limit. -/
def Diagnostic.readOverLimit? (v : Json) : Option Diagnostic :=
  match record? ["resource", "limit"] v with
  | some [resource, limit] => do some (.overLimit (← str? resource) (← nat? 64 limit))
  | _ => none

instance : Form Diagnostic where
  toJson d := variant d.name d.data
  ofJson? v :=
    match variant? v with
    | some ("Syntax", some data) => Diagnostic.readMalformed? data
    | some ("Encode", some data) => Diagnostic.readUnencodable? data
    | some ("ResourceLimitExceeded", some data) => Diagnostic.readOverLimit? data
    | _ => none

/-! ### Registers and modes -/

/-- The name of a register in data. -/
def Register.tag (r : Register) : String := Text.capital r.name

instance : Form Register := .ofNames Register.all Register.tag

/-- The name of a mode in data. -/
def Mode.tag : Mode → String
  | .direct => "NoDereference"
  | .base => "NoOffset"
  | .disp8 => "Offset8Bit"
  | .disp32 => "Offset32Bit"

instance : Form Mode := .ofNames [.direct, .base, .disp8, .disp32] Mode.tag

/-! ### Templates -/

instance : Form Operand where
  toJson
    | .immediate bits => variant "Immediate" (nat bits)
    | .relative bits => variant "Relative" (nat bits)
    | .fixed word => variant "FixedOperand" (str word)
    | .register bits => variant "GenericRegister" (nat bits)
    | .place bits => variant "RegisterOrMemory" (nat bits)
    | .memory => str "DirectMemory"
  ofJson? v :=
    match variant? v with
    | some ("Immediate", some data) => (nat? 16 data).map .immediate
    | some ("Relative", some data) => (nat? 16 data).map .relative
    | some ("FixedOperand", some data) => (str? data).map .fixed
    | some ("GenericRegister", some data) => (nat? 16 data).map .register
    | some ("RegisterOrMemory", some data) => (nat? 16 data).map .place
    | some ("DirectMemory", none) => some .memory
    | some ("DirectMemory", some .null) => some .memory
    | _ => none

/-- Reads the W bit of a REX marker. -/
def Part.readRex? (v : Json) : Option Part :=
  match record? ["w"] v with
  | some [w] => (bool? w).map .rex
  | _ => none

instance : Form Part where
  toJson
    | .byte b => variant "Byte" (nat b.toNat)
    | .fill b => variant "RegisterFill" (nat b.toNat)
    | .digit d => variant "RegField" (nat d.toNat)
    | .rex w => variant "Rex" (record [("w", .bool w)])
    | .immediate bits => variant "Immediate" (nat bits)
    | .relative bits => variant "Relative" (nat bits)
  ofJson? v :=
    match variant? v with
    | some ("Byte", some data) => (byte? data).map .byte
    | some ("RegisterFill", some data) => (byte? data).map .fill
    | some ("RegField", some data) => (byte? data).map .digit
    | some ("Rex", some data) => Part.readRex? data
    | some ("Immediate", some data) => (nat? 16 data).map .immediate
    | some ("Relative", some data) => (nat? 16 data).map .relative
    | _ => none

instance : Form Template where
  toJson t := record [("mnemonic", str t.mnemonic), ("operands", list t.operands),
    ("program", list t.program), ("operand_size_prefix", .bool t.operandSize)]
  ofJson? v :=
    match record? ["mnemonic", "operands", "program", "operand_size_prefix"] v with
    | some [mnemonic, operands, program, operandSize] => do
      some ⟨← str? mnemonic, ← list? operands, ← list? program, ← bool? operandSize⟩
    | _ => none

/-! ### Settings -/

instance : Form Settings where
  toJson s := record [("mnemonic_index", .bool s.indexed),
    ("max_statement_tokens", nat s.maxTokens), ("max_source_bytes", nat s.maxBytes)]
  ofJson? v :=
    match record? ["mnemonic_index", "max_statement_tokens", "max_source_bytes"] v with
    | some [indexed, maxTokens, maxBytes] => do
      some ⟨← bool? indexed, ← nat? 64 maxTokens, ← nat? 64 maxBytes⟩
    | _ => none

end RowAsm
