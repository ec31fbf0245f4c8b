import RowAsm.Diagnostic
import RowAsm.Literal
import RowAsm.Source.Lexeme
import RowAsm.Text.Field

/-!
# Tokens and statements

* `tokenize text` turns the lexemes of a text into tokens with their places. Spaces, tabs, carriage
  returns and comments leave none; the first character that starts no token, or the first word that
  starts with a digit and is no literal, makes the text malformed.
* `statements text` are the runs of tokens between separators.
-/

namespace RowAsm

/-- What a token is. -/
inductive Token.Kind
  /-- A mnemonic, a register name or a keyword. -/
  | word
  /-- A number literal and its value. -/
  | number (value : Nat)
  | comma
  | opening
  | closing
  | plus
  | minus
  /-- The end of a statement, a newline or `;`. -/
  | separator
  deriving DecidableEq, Repr

/-- A token: its kind, its text and where it stands. -/
structure Token where
  kind : Token.Kind
  text : String
  span : Span
  deriving DecidableEq, Repr

namespace Token

/-- The kind of a character that is a token by itself. -/
def Kind.ofMark? : Char → Option Kind
  | '\n' => some .separator
  | ';' => some .separator
  | ',' => some .comma
  | '[' => some .opening
  | ']' => some .closing
  | '+' => some .plus
  | '-' => some .minus
  | _ => none

/-- The characters between tokens. -/
def isSpace (c : Char) : Bool := c == ' ' || c == '\t' || c == '\r'

/-- The kind of a word: a literal if it starts with a digit. -/
def Kind.ofWord? (word : List Char) : Option Kind :=
  match word with
  | c :: _ => if c.isDigit then (Literal.value? (String.ofList word)).map .number else some .word
  | [] => some .word

/-- The token of a lexeme that starts at `p`; `none` where it leaves none. -/
def ofLexeme (p : Position) : Lexeme → Except Diagnostic (Option Token)
  | .comment _ => .ok none
  | .word cs =>
    let text := String.ofList cs
    match Kind.ofWord? cs with
    | some kind => .ok (some ⟨kind, text, p.span text⟩)
    | none => .error (.ofFlaw (.literal text) (p.span text))
  | .single c =>
    let text := String.ofList [c]
    if isSpace c then .ok none
    else
      match Kind.ofMark? c with
      | some kind => .ok (some ⟨kind, text, p.span text⟩)
      | none => .error (.ofFlaw (.stray c) (p.span text))

/-- The tokens of lexemes of which the first starts at `p`. -/
def ofLexemes (p : Position) : List Lexeme → Except Diagnostic (List Token)
  | [] => .ok []
  | x :: xs =>
    match ofLexeme p x with
    | .error e => .error e
    | .ok t =>
      match ofLexemes (p.after x.chars) xs with
      | .error e => .error e
      | .ok ts => .ok (t.toList ++ ts)

/-- Whether a token ends a statement. -/
def isSeparator (t : Token) : Bool := t.kind == .separator

end Token

/-- The tokens of a text, separators included. -/
def tokenize (text : String) : Except Diagnostic (List Token) :=
  Token.ofLexemes .start (lexemes text.toList)

/-- The statements of a text: the non-empty runs of tokens between separators. -/
def statements (text : String) : Except Diagnostic (List (List Token)) :=
  (tokenize text).map (Text.words Token.isSeparator)

end RowAsm
