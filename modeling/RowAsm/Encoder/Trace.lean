import RowAsm.Encoder.Basic

/-!
# Traces

What the compilation of a table and the encoding of a text report on their way, as a list of events.

* `Table.trace rows` reports the rows that were dropped, and the counts;
* `Encoder.trace e tokens` reports every template tried for a statement, each new best encoding and
  each new deepest failure, and finally whether nothing matched;
* `Encoder.traceLine` and `Encoder.traceText` report on the statements of a text, up to the first
  that does not encode.
-/

namespace RowAsm

/-- Something worth reporting. -/
inductive Event
  | dropped (row : Row) (why : Rejection)
  | compiled (count lost : Nat)
  | matched (index : Nat) (template : Template) (code : Code)
  | failed (index : Nat) (template : Template) (m : Mismatch)
  | newBest (index size : Nat)
  | newDeepest (index : Nat) (m : Mismatch)
  | unmatched (tokens : List String) (m : Mismatch)

namespace Event

/-- The level of an event: tables report in less detail than statements. -/
def level : Event → String
  | .dropped .. | .compiled .. => "DEBUG"
  | _ => "TRACE"

/-- The wording of an event. -/
def message : Event → String
  | .dropped row why => s!"dropping ISA row `{row.signature}` / `{row.opcode}`: {why.message}"
  | .compiled count lost => s!"compiled {count} instruction templates ({lost} rows dropped)"
  | .matched index template code =>
    s!"template #{index} `{template.display}` matched: {code.display}"
  | .failed index template m => s!"template #{index} `{template.display}` failed: {m.message}"
  | .newBest index size => s!"new best: template #{index} ({size} bytes)"
  | .newDeepest index m => s!"new deepest failure: template #{index} ({m.message})"
  | .unmatched tokens m =>
    let text := Text.join " " tokens
    s!"no template matched `{text}`: {m.message}"

/-- An event as a line of a log. -/
def display (e : Event) : String := s!"{e.level} {e.message}"

end Event

/-- What the compilation of a table reports. -/
def Table.trace (rows : List Row) : List Event :=
  let dropped := rows.filterMap fun row =>
    match row.compile with
    | .ok _ => none
    | .error why => some (Event.dropped row why)
  let table := Table.compile rows
  dropped ++ [.compiled table.size table.rejected]

/-- What an attempt reports, after the attempts of a selection. -/
def Attempt.trace (a : Attempt) (s : Selection) : List Event :=
  match a.outcome with
  | .ok code =>
    .matched a.index a.template code ::
      (if s.improves code then [.newBest a.index code.size] else [])
  | .error (.refused m) =>
    .failed a.index a.template m :: (if s.deepens m then [.newDeepest a.index m] else [])
  | .error (.fault _) => []

/-- What further attempts report; a fault ends the report. -/
def Selection.trace (s : Selection) (tokens : List String) : List Attempt → List Event
  | [] =>
    match s.result with
    | .ok _ => []
    | .error m => [.unmatched tokens m]
  | a :: rest =>
    a.trace s ++
      match s.consider a with
      | .ok s => Selection.trace s tokens rest
      | .error _ => []

namespace Encoder

/-- What the encoding of one statement reports. -/
def trace (e : Encoder) (tokens : List String) : List Event :=
  Selection.trace (.start tokens.length) tokens (e.attempts tokens)

/-- What the encoding of one statement of a text reports. -/
def traceStatement (e : Encoder) (tokens : List Token) : List Event :=
  if e.settings.maxTokens < tokens.length then [] else e.trace (tokens.map Token.text)

/-- What the encoding of a text of one statement reports. -/
def traceLine (e : Encoder) (text : String) : List Event :=
  match e.readLine text with
  | .error _ => []
  | .ok s => e.traceStatement s

/-- What the encoding of statements reports, up to the first that does not encode. -/
def traceStatements (e : Encoder) : List (List Token) → List Event
  | [] => []
  | s :: rest =>
    e.traceStatement s ++
      match e.encodeStatement s with
      | .ok _ => e.traceStatements rest
      | .error _ => []

/-- What the encoding of a text reports. -/
def traceText (e : Encoder) (text : String) : List Event :=
  match e.readText text with
  | .error _ => []
  | .ok ss => e.traceStatements ss

end Encoder
end RowAsm
