import RowAsm.Text.Digit

/-!
# JSON values

A JSON value as it is written: numbers keep their text, and a string is a list of marks, because an
escape may name half of a surrogate pair, which is no character.

* `Json.Mark` is one character of a string, or half of a surrogate pair;
* `Json.text? marks` is the string, if every half has its other half next to it;
* `Json.render v` is the compact text of a value.
-/

namespace RowAsm

/-- One character of a JSON string, or one half of a surrogate pair. -/
inductive Json.Mark
  | char (c : Char)
  | half (unit : Nat)
  deriving DecidableEq, Repr

/-- A JSON value. -/
inductive Json
  | null
  | bool (b : Bool)
  | number (text : List Char)
  | string (marks : List Json.Mark)
  | array (items : List Json)
  | object (members : List (List Json.Mark × Json))
  deriving Repr

namespace Json

/-! ### Strings -/

/-- The first half of a pair. -/
def isHigh (unit : Nat) : Bool := 0xD800 ≤ unit && unit < 0xDC00

/-- The second half of a pair. -/
def isLow (unit : Nat) : Bool := 0xDC00 ≤ unit && unit < 0xE000

/-- The mark of an escaped code unit. -/
def Mark.ofUnit (unit : Nat) : Mark :=
  if isHigh unit || isLow unit then .half unit else .char (Char.ofNat unit)

/-- The character of two halves. -/
def pair (high low : Nat) : Char := Char.ofNat (0x10000 + (high - 0xD800) * 0x400 + (low - 0xDC00))

/-- The characters of marks in which every half has its other half next to it. -/
def chars? : List Mark → Option (List Char)
  | [] => some []
  | .char c :: ms => (chars? ms).map (c :: ·)
  | .half h :: .half l :: ms =>
    if isHigh h && isLow l then (chars? ms).map (pair h l :: ·) else none
  | .half _ :: _ => none

/-- The string of marks. -/
def text? (marks : List Mark) : Option String := (chars? marks).map String.ofList

/-- The marks of a string. -/
def marks (s : String) : List Mark := s.toList.map .char

theorem chars?_map_char (cs : List Char) : chars? (cs.map .char) = some cs := by
  induction cs with
  | nil => rfl
  | cons c cs ih => simp [chars?, ih]

/-- A string is read back from its marks. -/
@[simp] theorem text?_marks (s : String) : text? (marks s) = some s := by
  simp [text?, marks, chars?_map_char]

/-! ### Compact text -/

/-- Four lower-case hexadecimal digits. -/
def hex4 (n : Nat) : List Char :=
  [Nat.digitChar (n / 4096 % 16), Nat.digitChar (n / 256 % 16), Nat.digitChar (n / 16 % 16),
    Nat.digitChar (n % 16)]

/-- A character of a string: quotes, backslashes and controls are escaped, all else stands for
itself. -/
def escape (c : Char) : List Char :=
  if c = '"' then ['\\', '"']
  else if c = '\\' then ['\\', '\\']
  else if c = '\x08' then ['\\', 'b']
  else if c = '\x0c' then ['\\', 'f']
  else if c = '\n' then ['\\', 'n']
  else if c = '\r' then ['\\', 'r']
  else if c = '\t' then ['\\', 't']
  else if c.toNat < 0x20 then '\\' :: 'u' :: hex4 c.toNat
  else [c]

/-- A mark of a string. -/
def renderMark : Mark → List Char
  | .char c => escape c
  | .half unit => '\\' :: 'u' :: hex4 unit

/-- A string with its quotes. -/
def renderString (ms : List Mark) : List Char := '"' :: (ms.flatMap renderMark ++ ['"'])

mutual

/-- The compact text of a value, without blanks. -/
def renderChars : Json → List Char
  | .null => "null".toList
  | .bool true => "true".toList
  | .bool false => "false".toList
  | .number text => text
  | .string ms => renderString ms
  | .array items => '[' :: (renderItems items ++ [']'])
  | .object members => '\x7b' :: (renderMembers members ++ ['\x7d'])

/-- The items of an array with commas between them. -/
def renderItems : List Json → List Char
  | [] => []
  | [v] => renderChars v
  | v :: vs => renderChars v ++ ',' :: renderItems vs

/-- The members of an object with commas between them. -/
def renderMembers : List (List Mark × Json) → List Char
  | [] => []
  | [(k, v)] => renderString k ++ ':' :: renderChars v
  | (k, v) :: ms => renderString k ++ ':' :: (renderChars v ++ ',' :: renderMembers ms)

end

/-- The compact text of a value. -/
def render (v : Json) : String := String.ofList (renderChars v)

end Json
end RowAsm
