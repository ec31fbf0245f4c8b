/-!
# Mismatches

A mismatch says how far the matching of a statement got and why it stopped. `remaining` counts the
tokens that were not accepted, the one that caused the failure included, so a smaller number means
that the attempt got further.
-/

namespace RowAsm

/-- Why a statement does not have the form of a template. -/
inductive Mismatch.Kind
  /-- The first token is not the mnemonic. -/
  | instruction
  /-- The tokens at hand are not the operand that the template asks for. -/
  | operand
  /-- The operands are complete and tokens are left. -/
  | trailing
  deriving DecidableEq, Repr

/-- A failed match: the number of tokens not accepted, and the reason. -/
structure Mismatch where
  remaining : Nat
  kind : Mismatch.Kind
  deriving DecidableEq, Repr

namespace Mismatch

/-- The number by which diagnostics refer to a kind. -/
def Kind.code : Kind → Nat
  | .instruction => 3
  | .operand => 4
  | .trailing => 7

/-- The wording of a kind. -/
def Kind.message : Kind → String
  | .instruction => "invalid instruction"
  | .operand => "invalid operand"
  | .trailing => "extraneous token after instruction"

/-- The wording of a mismatch. -/
def message (m : Mismatch) : String := s!"{m.kind.message} ({m.remaining} token(s) unconsumed)"

/-- The index of the token to blame in a statement of `len` tokens: the first one not accepted, or
the last one when all were accepted. -/
def blamed (m : Mismatch) (len : Nat) : Nat :=
  if m.remaining = 0 then len - 1 else len - m.remaining

end Mismatch
end RowAsm
