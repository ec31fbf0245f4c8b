import RowAsm.Text.Case

/-!
# Registers

The general-purpose registers of the 64-bit machine in four width classes, and the instruction
pointer, which only serves as the base of a memory reference.

* `Register.name`, `Register.index`, `Register.bits` are the name, the four-bit hardware index and
  the width;
* `Register.ofName?`, `Register.withWidth?`, `Register.base?` look a name up, whatever the case of
  its letters.
-/

namespace RowAsm

/-- A register. The byte registers `ah`, `ch`, `dh`, `bh` share the hardware indices 4 to 7 with
`spl`, `bpl`, `sil`, `dil`. -/
inductive Register
  | r64 (i : Fin 16)
  | r32 (i : Fin 16)
  | r16 (i : Fin 16)
  | low8 (i : Fin 16)
  | high8 (i : Fin 4)
  | rip
  deriving DecidableEq, Repr

namespace Register

/-- The 64-bit names by hardware index. -/
def names64 : Vector String 16 :=
  #v["rax", "rcx", "rdx", "rbx", "rsp", "rbp", "rsi", "rdi",
    "r8", "r9", "r10", "r11", "r12", "r13", "r14", "r15"]

/-- The 32-bit names by hardware index. -/
def names32 : Vector String 16 :=
  #v["eax", "ecx", "edx", "ebx", "esp", "ebp", "esi", "edi",
    "r8d", "r9d", "r10d", "r11d", "r12d", "r13d", "r14d", "r15d"]

/-- The 16-bit names by hardware index. -/
def names16 : Vector String 16 :=
  #v["ax", "cx", "dx", "bx", "sp", "bp", "si", "di",
    "r8w", "r9w", "r10w", "r11w", "r12w", "r13w", "r14w", "r15w"]

/-- The names of the low bytes by hardware index. -/
def namesLow8 : Vector String 16 :=
  #v["al", "cl", "dl", "bl", "spl", "bpl", "sil", "dil",
    "r8b", "r9b", "r10b", "r11b", "r12b", "r13b", "r14b", "r15b"]

/-- The names of the high bytes. -/
def namesHigh8 : Vector String 4 := #v["ah", "ch", "dh", "bh"]

/-- The lower-case name. -/
def name : Register → String
  | r64 i => names64[i]
  | r32 i => names32[i]
  | r16 i => names16[i]
  | low8 i => namesLow8[i]
  | high8 i => namesHigh8[i]
  | rip => "rip"

/-- The four-bit hardware index; the instruction pointer borrows the one that stands for it in a
ModR/M byte. -/
def index : Register → Nat
  | r64 i | r32 i | r16 i | low8 i => i.val
  | high8 i => i.val + 4
  | rip => 5

/-- The width in bits. -/
def bits : Register → Nat
  | r64 _ => 64
  | r32 _ => 32
  | r16 _ => 16
  | low8 _ => 8
  | high8 _ => 8
  | rip => 64

/-- Whether the fourth bit of the index is set, which only a REX byte can carry. -/
def isExtended (r : Register) : Bool := 8 ≤ r.index

/-- The byte registers `spl`, `bpl`, `sil`, `dil`, which exist only beside a REX byte. -/
def needsRex : Register → Bool
  | low8 i => 4 ≤ i.val && i.val < 8
  | _ => false

/-- The byte registers `ah`, `ch`, `dh`, `bh`, which do not exist beside a REX byte. -/
def isHighByte : Register → Bool
  | high8 _ => true
  | _ => false

/-- The general-purpose registers, class by class. -/
def general : List Register :=
  (List.finRange 16).map r64 ++ (List.finRange 16).map r32 ++ (List.finRange 16).map r16 ++
    (List.finRange 16).map low8 ++ (List.finRange 4).map high8

/-- All registers. -/
def all : List Register := general ++ [rip]

/-- The general-purpose register of a name. -/
def ofName? (s : String) : Option Register :=
  let key := Text.lower s
  general.find? fun r => r.name == key

/-- The general-purpose register of a name and a width; the width `0` admits every one. -/
def withWidth? (s : String) (width : Nat) : Option Register :=
  (ofName? s).filter fun r => width == 0 || r.bits == width

/-- The register of a name that may be a memory base: a general-purpose one or the instruction
pointer. -/
def base? (s : String) : Option Register :=
  if Text.same s rip.name then some rip else ofName? s

end Register
end RowAsm
