import RowAsm.Literal
import RowAsm.Match.Captures
import RowAsm.Mismatch

/-!
# Reading operands

Readers of the parts of a statement. A reader takes the tokens that are left and gives what it read
and the tokens after it; where it stops, it counts the tokens not accepted, the one in question
included. There is no going back: the only alternatives are decided by the token at hand.
-/

namespace RowAsm
namespace Reader

/-- The answer of a reader. -/
abbrev Answer (α : Type) := Except (Halt Mismatch) α

/-- Stops before the tokens `ts`. -/
def refuse {α : Type} (kind : Mismatch.Kind) (ts : List String) : Answer α :=
  .error (.refused ⟨ts.length, kind⟩)

/-- Reads one given token, up to case. -/
def expect (word : String) (kind : Mismatch.Kind) : List String → Answer (List String)
  | [] => refuse kind []
  | t :: ts => if Text.same t word then .ok ts else refuse kind (t :: ts)

/-- Reads a register of a width. -/
def register (bits : Nat) : List String → Answer (Register × List String)
  | [] => refuse .operand []
  | t :: ts =>
    match Register.withWidth? t bits with
    | some r => .ok (r, ts)
    | none => refuse .operand (t :: ts)

/-! ### Numbers -/

/-- Whether a number lies in the signed range of a width. -/
def fits (bits : Nat) (v : Int) : Except Fault Bool :=
  if bits = 0 then .error .zeroWidth
  else if 128 < bits then .error .wideWidth
  else if bits = 128 then .error .edgeWidth
  else .ok (Word.isSigned bits v)

/-- Reads a literal as a number of a width and a sign. The value is kept as a signed number of 64
bits. -/
def magnitude (negative : Bool) (bits : Nat) : List String → Answer (Int × List String)
  | [] => refuse .operand []
  | t :: ts =>
    match Literal.value? t with
    | none => refuse .operand (t :: ts)
    | some n =>
      let v : Int := if negative then -n else n
      match fits bits v with
      | .error f => .error (.fault f)
      | .ok true => .ok (Word.signed64 v, ts)
      | .ok false => refuse .operand (t :: ts)

/-- Reads a number of a width: a literal, or a minus sign and a literal. -/
def number (bits : Nat) : List String → Answer (Int × List String)
  | [] => refuse .operand []
  | t :: ts => if t = "-" then magnitude true bits ts else magnitude false bits (t :: ts)

/-! ### Memory -/

/-- The keyword of an access width. -/
def accessWord : Nat → String
  | 8 => "byte"
  | 16 => "word"
  | 32 => "dword"
  | _ => "qword"

/-- Whether a token is the keyword of some access width. -/
def isAccessWord (t : String) : Bool :=
  [8, 16, 32, 64].any fun bits => Text.same t (accessWord bits)

/-- Reads the keywords of an access width. -/
def access (bits : Nat) (ts : List String) : Answer (List String) :=
  match expect (accessWord bits) .operand ts with
  | .error h => .error h
  | .ok ts => expect "ptr" .operand ts

/-- Reads the keywords of any access width, if they are there. -/
def anyAccess : List String → Answer (List String)
  | [] => .ok []
  | t :: ts => if isAccessWord t then expect "ptr" .operand ts else .ok (t :: ts)

/-- Reads a base register of 32 or 64 bits. -/
def base : List String → Answer (Register × List String)
  | [] => refuse .operand []
  | t :: ts =>
    match (Register.base? t).filter fun r => r.bits == 32 || r.bits == 64 with
    | some r => .ok (r, ts)
    | none => refuse .operand (t :: ts)

/-- The displacement of a literal after a sign, if it has 32 bits. -/
def displacement? (negative : Bool) (t : String) : Option Int :=
  ((Literal.value? t).map fun n => if negative then -(n : Int) else n).filter (Word.isSigned 32)

/-- Reads the displacement after a sign, and the bracket after it. -/
def offset (b : Register) (negative : Bool) : List String → Answer (Place × List String)
  | [] => refuse .operand []
  | t :: ts =>
    match displacement? negative t with
    | none => refuse .operand (t :: ts)
    | some d =>
      match expect "]" .operand ts with
      | .error h => .error h
      | .ok ts => .ok (.memory b (some d), ts)

/-- Reads what follows the base: the bracket, or a sign and a displacement. -/
def afterBase (b : Register) : List String → Answer (Place × List String)
  | [] => refuse .operand []
  | t :: ts =>
    if t = "]" then .ok (.memory b none, ts)
    else if t = "+" then offset b false ts
    else if t = "-" then offset b true ts
    else refuse .operand (t :: ts)

/-- Reads a bracketed memory reference. -/
def bracketed (ts : List String) : Answer (Place × List String) :=
  match expect "[" .operand ts with
  | .error h => .error h
  | .ok ts =>
    match base ts with
    | .error h => .error h
    | .ok (b, ts) => afterBase b ts

/-- Reads memory accessed with a width. -/
def sized (bits : Nat) (ts : List String) : Answer (Place × List String) :=
  match access bits ts with
  | .error h => .error h
  | .ok ts => bracketed ts

/-- Reads memory accessed with any width, or with none stated. -/
def unsized (ts : List String) : Answer (Place × List String) :=
  match anyAccess ts with
  | .error h => .error h
  | .ok ts => bracketed ts

/-- Reads a register of a width, or memory accessed with it. -/
def place (bits : Nat) (ts : List String) : Answer (Place × List String) :=
  match register bits ts with
  | .ok (r, ts) => .ok (.register r, ts)
  | .error _ => sized bits ts

end Reader
end RowAsm
