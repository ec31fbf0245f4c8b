import RowAsm.Match.Reader
import RowAsm.Template.Basic

/-!
# Matching

`Template.capture t tokens` matches a whole statement with a template: the mnemonic, then the
operands with commas between them, then the end. It gives the captured operands or says where
matching stopped.

A register among `ah`, `ch`, `dh`, `bh` cannot stand beside a REX byte, so a statement with one of
them does not match if the template places a REX byte or another register asks for one.
-/

namespace RowAsm
namespace Template

open Reader

/-- Reads one operand and captures it; a later operand of one sort replaces an earlier one. -/
def readOperand (caps : Captures) (op : Operand) (ts : List String) :
    Answer (Captures × List String) :=
  match op with
  | .immediate bits | .relative bits =>
    match number bits ts with
    | .error h => .error h
    | .ok (v, ts) =>
      match caps.addImmediate v with
      | .error f => .error (.fault f)
      | .ok caps => .ok (caps, ts)
  | .fixed word =>
    match expect word .operand ts with
    | .error h => .error h
    | .ok ts => .ok (caps, ts)
  | .register bits =>
    match Reader.register bits ts with
    | .error h => .error h
    | .ok (r, ts) => .ok ({ caps with register := some r }, ts)
  | .place bits =>
    match Reader.place bits ts with
    | .error h => .error h
    | .ok (p, ts) => .ok ({ caps with place := some p }, ts)
  | .memory =>
    match unsized ts with
    | .error h => .error h
    | .ok (p, ts) => .ok ({ caps with place := some p }, ts)

/-- Reads operands that each follow a comma. -/
def readFurther (caps : Captures) : List Operand → List String → Answer (Captures × List String)
  | [], ts => .ok (caps, ts)
  | op :: ops, ts =>
    match expect "," .operand ts with
    | .error h => .error h
    | .ok ts =>
      match readOperand caps op ts with
      | .error h => .error h
      | .ok (caps, ts) => readFurther caps ops ts

/-- Reads the operands of a statement. -/
def readOperands : List Operand → List String → Answer (Captures × List String)
  | [], ts => .ok (.empty, ts)
  | op :: ops, ts =>
    match readOperand .empty op ts with
    | .error h => .error h
    | .ok (caps, ts) => readFurther caps ops ts

/-- Whether a REX byte would stand beside a register that rules it out. -/
def conflicts (t : Template) (caps : Captures) : Bool :=
  caps.hasHighByte && (t.hasRex || caps.needsRex)

/-- Matches a statement and captures its operands. -/
def capture (t : Template) (tokens : List String) : Answer Captures :=
  match expect t.mnemonic .instruction tokens with
  | .error h => .error h
  | .ok ts =>
    match readOperands t.operands ts with
    | .error h => .error h
    | .ok (caps, ts) =>
      if !ts.isEmpty then refuse .trailing ts
      else if t.conflicts caps then refuse .operand []
      else .ok { caps with consumed := tokens.length }

end Template
end RowAsm
