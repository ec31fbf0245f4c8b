import RowAsm.Code.Layout
import RowAsm.Match.Basic

/-!
# Selection

A statement is tried with one template after another. `Selection` keeps the best encoding so far and
the failure that got furthest so far: a later encoding replaces an earlier one only if it is
shorter, and a later failure only if it left fewer tokens.
-/

namespace RowAsm

/-- An encoded statement: its machine code and the index of its template. -/
structure Instruction where
  code : Code
  template : Nat
  deriving DecidableEq

/-- The machine code that a template gives a statement. -/
def Template.encode (t : Template) (tokens : List String) : Except (Halt Mismatch) Code :=
  match t.capture tokens with
  | .error h => .error h
  | .ok caps =>
    match t.emit caps with
    | .error f => .error (.fault f)
    | .ok code => .ok code

/-- A template that was tried, its index and what came of it. -/
structure Attempt where
  index : Nat
  template : Template
  outcome : Except (Halt Mismatch) Code

/-- The outcome of the attempts so far. -/
structure Selection where
  best : Option Instruction
  deepest : Mismatch
  deriving DecidableEq

namespace Selection

/-- Nothing tried, for a statement of `count` tokens: no token is accepted yet. -/
def start (count : Nat) : Selection := ⟨none, ⟨count, .instruction⟩⟩

/-- Whether an encoding is shorter than the best one. -/
def improves (s : Selection) (code : Code) : Bool :=
  match s.best with
  | none => true
  | some i => code.size < i.code.size

/-- Whether a failure got further than the deepest one. -/
def deepens (s : Selection) (m : Mismatch) : Bool := m.remaining < s.deepest.remaining

/-- Takes one more attempt into account. -/
def consider (s : Selection) (a : Attempt) : Except Fault Selection :=
  match a.outcome with
  | .ok code => .ok (if s.improves code then { s with best := some ⟨code, a.index⟩ } else s)
  | .error (.refused m) => .ok (if s.deepens m then { s with deepest := m } else s)
  | .error (.fault f) => .error f

/-- The result of a selection: the best encoding, or the deepest failure. -/
def result (s : Selection) : Except Mismatch Instruction :=
  match s.best with
  | some i => .ok i
  | none => .error s.deepest

end Selection
end RowAsm
