/-!
# Positions in a text

* `Position` is a place between two characters: line, column and offset, where columns and offsets
  count the bytes of the UTF-8 form;
* `Position.next p c` is the place after the character `c`, and `Position.after p cs` the place
  after all of `cs`;
* `Span` is a place and a length in bytes.
-/

namespace RowAsm

/-- A place in a text; lines and columns count from one, the offset from zero. -/
structure Position where
  line : Nat
  col : Nat
  offset : Nat
  deriving DecidableEq, Repr

/-- A stretch of a text: where it starts and how many bytes it has. -/
structure Span where
  line : Nat
  col : Nat
  offset : Nat
  len : Nat
  deriving DecidableEq, Repr

namespace Position

/-- The place before the first character. -/
def start : Position := ⟨1, 1, 0⟩

/-- The place after one more character; only a newline starts a line. -/
def next (p : Position) (c : Char) : Position :=
  if c = '\n' then ⟨p.line + 1, 1, p.offset + 1⟩
  else ⟨p.line, p.col + c.utf8Size, p.offset + c.utf8Size⟩

/-- The place after the characters `cs`. -/
def after (p : Position) (cs : List Char) : Position := cs.foldl next p

@[simp] theorem after_nil (p : Position) : p.after [] = p := rfl

@[simp] theorem after_cons (p : Position) (c : Char) (cs : List Char) :
    p.after (c :: cs) = (p.next c).after cs := rfl

theorem after_append (p : Position) (cs ds : List Char) :
    p.after (cs ++ ds) = (p.after cs).after ds := List.foldl_append

/-- The span of the text `s` that starts at `p`. -/
def span (p : Position) (s : String) : Span := ⟨p.line, p.col, p.offset, s.utf8ByteSize⟩

end Position

namespace Span

/-- The span of what stands in no text. -/
def nowhere : Span := ⟨0, 0, 0, 0⟩

/-- Line and column, as a diagnostic shows them. -/
def display (s : Span) : String := s!"{s.line}:{s.col}"

end Span
end RowAsm
