import RowAsm.Json.Reader
import RowAsm.Word

/-!
# JSON forms

How data are written as JSON values and read back.

* A record is an object with its fields in order; it may also be read from an array of exactly its
  fields. Of an object, unknown fields are ignored, and each field must occur once.
* A variant without data is its name, and may also be read from an object with that name and `null`.
  A variant with data is an object with one member: its name and the data.
* A number is a run of decimal digits within the range of its field.

`Form α` is such a form of `α`; `Form.toText` and `Form.ofText?` write and read texts.
-/

namespace RowAsm

/-- A JSON form of a type. -/
class Form (α : Type) where
  toJson : α → Json
  ofJson? : Json → Option α

namespace Json

/-! ### Scalars -/

/-- The value of a natural number. -/
def nat (n : Nat) : Json := .number (Nat.toDigits 10 n)

/-- The natural number of at most so many bits that a value is. -/
def nat? (bits : Nat) : Json → Option Nat
  | .number text => (Text.numeral 10 text).filter (· < Word.count bits)
  | _ => none

/-- The byte that a value is. -/
def byte? (v : Json) : Option UInt8 := (nat? 8 v).map UInt8.ofNat

/-- The truth value that a value is. -/
def bool? : Json → Option Bool
  | .bool b => some b
  | _ => none

/-- The value of a string. -/
def str (s : String) : Json := .string (marks s)

/-- The string that a value is. -/
def str? : Json → Option String
  | .string ms => text? ms
  | _ => none

/-! ### Lists -/

/-- The value of a list. -/
def list {α : Type} [Form α] (l : List α) : Json := .array (l.map Form.toJson)

/-- Reads every value of a list. -/
def all? {α : Type} (read : Json → Option α) : List Json → Option (List α)
  | [] => some []
  | v :: vs =>
    match read v, all? read vs with
    | some a, some l => some (a :: l)
    | _, _ => none

/-- The list that a value is. -/
def list? {α : Type} [Form α] : Json → Option (List α)
  | .array vs => all? Form.ofJson? vs
  | _ => none

/-! ### Records -/

/-- The value of a record. -/
def record (fields : List (String × Json)) : Json :=
  .object (fields.map fun (name, v) => (marks name, v))

/-- The members of an object under their names, if every key is a string. -/
def named? : List (List Mark × Json) → Option (List (String × Json))
  | [] => some []
  | (k, v) :: ms =>
    match text? k, named? ms with
    | some name, some l => some ((name, v) :: l)
    | _, _ => none

/-- The value of a field that occurs once. -/
def field? (members : List (String × Json)) (name : String) : Option Json :=
  match members.filter fun (n, _) => n == name with
  | [(_, v)] => some v
  | _ => none

/-- The values of the fields `names`, each of which must occur once. -/
def fields? (members : List (String × Json)) : List String → Option (List Json)
  | [] => some []
  | name :: names =>
    match field? members name, fields? members names with
    | some v, some vs => some (v :: vs)
    | _, _ => none

/-- The values of the fields of a record, in the order of `names`. -/
def record? (names : List String) : Json → Option (List Json)
  | .array vs => if vs.length = names.length then some vs else none
  | .object members => (named? members).bind fun ms => fields? ms names
  | _ => none

/-! ### Variants -/

/-- The value of a variant with data. -/
def variant (name : String) (data : Json) : Json := record [(name, data)]

/-- The name of a variant, and its data if it is written with some. -/
def variant? : Json → Option (String × Option Json)
  | .string ms => (text? ms).map fun name => (name, none)
  | .object [(k, v)] => (text? k).map fun name => (name, some v)
  | _ => none

/-- The name of a variant without data. -/
def unit? (v : Json) : Option String :=
  match variant? v with
  | some (name, none) => some name
  | some (name, some .null) => some name
  | _ => none

end Json

namespace Form

/-- The compact text of the form of a value. -/
def toText {α : Type} [Form α] (a : α) : String := (toJson a).render

/-- The value whose form a text is. -/
def ofText? {α : Type} [Form α] (s : String) : Option α := (Json.parse? s).bind ofJson?

/-- The form of variants without data: each value is its name. -/
@[reducible] def ofNames {α : Type} (values : List α) (name : α → String) : Form α where
  toJson a := .str (name a)
  ofJson? v := (Json.unit? v).bind fun n => values.find? fun a => name a == n

end Form
end RowAsm
