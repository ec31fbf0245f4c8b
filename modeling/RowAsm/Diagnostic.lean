import RowAsm.Source.Span
import RowAsm.Mismatch

/-!
# Diagnostics

What can go wrong with a text: it is malformed, a statement of it has no encoding, or a limit is
exceeded. `Flaw` lists the ways in which a text is malformed, with their wording.
-/

namespace RowAsm

/-- What is wrong with a malformed text. -/
inductive Flaw
  /-- A character that starts no token. -/
  | stray (c : Char)
  /-- A word that starts with a digit and is no number literal. -/
  | literal (word : String)
  /-- A second statement where one is asked for. -/
  | several
  /-- No statement where one is asked for. -/
  | empty
  deriving DecidableEq, Repr

/-- The wording of a flaw. -/
def Flaw.message : Flaw → String
  | .stray c => s!"unexpected character '{c}'"
  | .literal word => s!"invalid numeric literal '{word}'"
  | .several => "expected a single statement"
  | .empty => "empty statement"

/-- Why a text has no machine code. -/
inductive Diagnostic
  /-- The text is malformed. -/
  | malformed (message : String) (span : Span)
  /-- No template matches a statement; the token and its place are the ones to blame. -/
  | unencodable (kind : Mismatch.Kind) (token : String) (span : Span)
  /-- A limit of the settings is exceeded. -/
  | overLimit (resource : String) (limit : Nat)
  deriving DecidableEq, Repr

namespace Diagnostic

/-- The diagnostic of a flaw at a place. -/
def ofFlaw (flaw : Flaw) (span : Span) : Diagnostic := .malformed flaw.message span

/-- The wording of a diagnostic. -/
def message : Diagnostic → String
  | .malformed message span => s!"{span.display}: {message}"
  | .unencodable kind token span => s!"{span.display}: {kind.message} ('{token}' here)"
  | .overLimit resource limit => s!"resource limit exceeded: {resource} (limit: {limit})"

end Diagnostic
end RowAsm
