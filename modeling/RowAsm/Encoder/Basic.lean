import RowAsm.Encoder.Selection
import RowAsm.Source.Token
import RowAsm.Table.General

/-!
# The encoder

An encoder is a table with settings.

* `Encoder.encode e tokens` is the shortest encoding of one statement, of several equally short ones
  that of the earliest template; if there is none, the failure that got furthest.
* `Encoder.encodeLine e text` encodes a text of one statement.
* `Encoder.encodeText e text` encodes a text of any number of statements, one after another.

The texts are limited in bytes, before anything else is looked at, and the statements in tokens,
each just before it is encoded.
-/

namespace RowAsm

/-- The settings of an encoder. -/
structure Settings where
  /-- Whether only the templates are tried whose mnemonic is the first token of the statement. -/
  indexed : Bool := true
  /-- The greatest number of tokens in a statement of a text. -/
  maxTokens : Nat := 64
  /-- The greatest number of bytes in a text. -/
  maxBytes : Nat := 16 * 1024 * 1024
  deriving DecidableEq, Repr

/-- A table to select from, with settings. -/
structure Encoder where
  table : Table
  settings : Settings := {}

namespace Encoder

/-- The encoder over the built-in table with the usual settings. -/
def general : Encoder := { table := .general }

/-! ### Statements -/

/-- The positions of the templates to try for a statement: all of them, or those that the index
files under the first token in lower case. -/
def positions (e : Encoder) (tokens : List String) : List Nat :=
  if e.settings.indexed then
    match tokens with
    | [] => []
    | t :: _ => e.table.index.find (Text.lower t)
  else List.range e.table.size

/-- The templates to try for a statement, with their positions. -/
def candidates (e : Encoder) (tokens : List String) : List (Template × Nat) :=
  (e.positions tokens).filterMap fun i => (e.table.get? i).map fun t => (t, i)

/-- The attempts to encode a statement, in the order of the table. -/
def attempts (e : Encoder) (tokens : List String) : List Attempt :=
  (e.candidates tokens).map fun (t, i) => ⟨i, t, t.encode tokens⟩

/-- The selection among the attempts. -/
def select (e : Encoder) (tokens : List String) : Except Fault Selection :=
  (e.attempts tokens).foldlM Selection.consider (.start tokens.length)

/-- Encodes one statement. -/
def encode (e : Encoder) (tokens : List String) : Except (Halt Mismatch) Instruction :=
  match e.select tokens with
  | .error f => .error (.fault f)
  | .ok s =>
    match s.result with
    | .ok i => .ok i
    | .error m => .error (.refused m)

/-! ### Texts -/

/-- The diagnostic of a statement that does not encode: it blames one token. -/
def blame (tokens : List Token) (m : Mismatch) : Diagnostic :=
  match tokens[m.blamed tokens.length]? with
  | some t => .unencodable m.kind t.text t.span
  | none => .unencodable m.kind "" .nowhere

/-- Encodes one statement of a text. -/
def encodeStatement (e : Encoder) (tokens : List Token) : Except (Halt Diagnostic) Instruction :=
  if e.settings.maxTokens < tokens.length then
    .error (.refused (.overLimit "statement tokens" e.settings.maxTokens))
  else
    match e.encode (tokens.map Token.text) with
    | .ok i => .ok i
    | .error (.refused m) => .error (.refused (blame tokens m))
    | .error (.fault f) => .error (.fault f)

/-- The statements of a text within the limit of bytes. -/
def readText (e : Encoder) (text : String) : Except Diagnostic (List (List Token)) :=
  if e.settings.maxBytes < text.utf8ByteSize then
    .error (.overLimit "source bytes" e.settings.maxBytes)
  else statements text

/-- The only statement of a text. -/
def readLine (e : Encoder) (text : String) : Except Diagnostic (List Token) :=
  match e.readText text with
  | .error d => .error d
  | .ok [] => .error (.ofFlaw .empty .nowhere)
  | .ok [s] => .ok s
  | .ok (_ :: s :: _) => .error (.ofFlaw .several ((s.head?.map Token.span).getD .nowhere))

/-- Encodes a text of one statement. -/
def encodeLine (e : Encoder) (text : String) : Except (Halt Diagnostic) Instruction :=
  match e.readLine text with
  | .error d => .error (.refused d)
  | .ok s => e.encodeStatement s

/-- Encodes statements one after another, up to the first that does not encode. -/
def encodeStatements (e : Encoder) : List (List Token) → Except (Halt Diagnostic) (List UInt8)
  | [] => .ok []
  | s :: rest =>
    match e.encodeStatement s with
    | .error h => .error h
    | .ok i =>
      match e.encodeStatements rest with
      | .error h => .error h
      | .ok bytes => .ok (i.code.bytes ++ bytes)

/-- Encodes a text. -/
def encodeText (e : Encoder) (text : String) : Except (Halt Diagnostic) (List UInt8) :=
  match e.readText text with
  | .error d => .error (.refused d)
  | .ok ss => e.encodeStatements ss

end Encoder
end RowAsm
