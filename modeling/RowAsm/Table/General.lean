import RowAsm.Table.Basic

/-!
# The general-purpose rows

The built-in rows: the general-purpose integer instructions in the notation of the summary tables of
the processor manuals, one row for each form. Of two forms of one length the usual one comes first.
-/

namespace RowAsm
namespace Table

/-- Data movement. -/
def moves : List Row :=
  [⟨"MOV r/m8, r8", "88 /r"⟩, ⟨"MOV r/m16, r16", "89 /r"⟩, ⟨"MOV r/m32, r32", "89 /r"⟩,
    ⟨"MOV r/m64, r64", "REX.W + 89 /r"⟩, ⟨"MOV r8, r/m8", "8A /r"⟩, ⟨"MOV r16, r/m16", "8B /r"⟩,
    ⟨"MOV r32, r/m32", "8B /r"⟩, ⟨"MOV r64, r/m64", "REX.W + 8B /r"⟩, ⟨"MOV r8, imm8", "B0+rb ib"⟩,
    ⟨"MOV r16, imm16", "B8+rw iw"⟩, ⟨"MOV r32, imm32", "B8+rd id"⟩,
    ⟨"MOV r64, imm64", "REX.W + B8+rd io"⟩, ⟨"MOV r/m8, imm8", "C6 /0 ib"⟩,
    ⟨"MOV r/m16, imm16", "C7 /0 iw"⟩, ⟨"MOV r/m32, imm32", "C7 /0 id"⟩,
    ⟨"MOV r/m64, imm32", "REX.W + C7 /0 id"⟩, ⟨"MOVZX r16, r/m8", "0F B6 /r"⟩,
    ⟨"MOVZX r32, r/m8", "0F B6 /r"⟩, ⟨"MOVZX r64, r/m8", "REX.W + 0F B6 /r"⟩,
    ⟨"MOVZX r32, r/m16", "0F B7 /r"⟩, ⟨"MOVZX r64, r/m16", "REX.W + 0F B7 /r"⟩,
    ⟨"MOVSX r16, r/m8", "0F BE /r"⟩, ⟨"MOVSX r32, r/m8", "0F BE /r"⟩,
    ⟨"MOVSX r64, r/m8", "REX.W + 0F BE /r"⟩, ⟨"MOVSX r32, r/m16", "0F BF /r"⟩,
    ⟨"MOVSX r64, r/m16", "REX.W + 0F BF /r"⟩, ⟨"MOVSXD r64, r/m32", "REX.W + 63 /r"⟩,
    ⟨"XCHG r/m8, r8", "86 /r"⟩, ⟨"XCHG r8, r/m8", "86 /r"⟩, ⟨"XCHG r/m16, r16", "87 /r"⟩,
    ⟨"XCHG r16, r/m16", "87 /r"⟩, ⟨"XCHG r/m32, r32", "87 /r"⟩, ⟨"XCHG r32, r/m32", "87 /r"⟩,
    ⟨"XCHG r/m64, r64", "REX.W + 87 /r"⟩, ⟨"XCHG r64, r/m64", "REX.W + 87 /r"⟩,
    ⟨"LEA r16, m", "8D /r"⟩, ⟨"LEA r32, m", "8D /r"⟩, ⟨"LEA r64, m", "REX.W + 8D /r"⟩,
    ⟨"BSWAP r32", "0F C8+rd"⟩, ⟨"BSWAP r64", "REX.W + 0F C8+rd"⟩]

/-- The stack. -/
def stack : List Row :=
  [⟨"PUSH r64", "50+rd"⟩, ⟨"PUSH r16", "50+rw"⟩, ⟨"PUSH imm8", "6A ib"⟩, ⟨"PUSH imm32", "68 id"⟩,
    ⟨"PUSH r/m64", "FF /6"⟩, ⟨"PUSH r/m16", "FF /6"⟩, ⟨"POP r64", "58+rd"⟩, ⟨"POP r16", "58+rw"⟩,
    ⟨"POP r/m64", "8F /0"⟩, ⟨"POP r/m16", "8F /0"⟩, ⟨"ENTER imm16, imm8", "C8 iw ib"⟩,
    ⟨"LEAVE", "C9"⟩]

/-- Integer arithmetic and logic. -/
def arithmetic : List Row :=
  [⟨"ADD r/m8, imm8", "80 /0 ib"⟩, ⟨"ADD r/m16, imm8", "83 /0 ib"⟩, ⟨"ADD r/m32, imm8", "83 /0 ib"⟩,
    ⟨"ADD r/m64, imm8", "REX.W + 83 /0 ib"⟩, ⟨"ADD AL, imm8", "04 ib"⟩, ⟨"ADD AX, imm16", "05 iw"⟩,
    ⟨"ADD EAX, imm32", "05 id"⟩, ⟨"ADD RAX, imm32", "REX.W + 05 id"⟩,
    ⟨"ADD r/m16, imm16", "81 /0 iw"⟩, ⟨"ADD r/m32, imm32", "81 /0 id"⟩,
    ⟨"ADD r/m64, imm32", "REX.W + 81 /0 id"⟩, ⟨"ADD r/m8, r8", "00 /r"⟩,
    ⟨"ADD r/m16, r16", "01 /r"⟩, ⟨"ADD r/m32, r32", "01 /r"⟩, ⟨"ADD r/m64, r64", "REX.W + 01 /r"⟩,
    ⟨"ADD r8, r/m8", "02 /r"⟩, ⟨"ADD r16, r/m16", "03 /r"⟩, ⟨"ADD r32, r/m32", "03 /r"⟩,
    ⟨"ADD r64, r/m64", "REX.W + 03 /r"⟩, ⟨"OR r/m8, imm8", "80 /1 ib"⟩,
    ⟨"OR r/m16, imm8", "83 /1 ib"⟩, ⟨"OR r/m32, imm8", "83 /1 ib"⟩,
    ⟨"OR r/m64, imm8", "REX.W + 83 /1 ib"⟩, ⟨"OR AL, imm8", "0C ib"⟩, ⟨"OR AX, imm16", "0D iw"⟩,
    ⟨"OR EAX, imm32", "0D id"⟩, ⟨"OR RAX, imm32", "REX.W + 0D id"⟩, ⟨"OR r/m16, imm16", "81 /1 iw"⟩,
    ⟨"OR r/m32, imm32", "81 /1 id"⟩, ⟨"OR r/m64, imm32", "REX.W + 81 /1 id"⟩,
    ⟨"OR r/m8, r8", "08 /r"⟩, ⟨"OR r/m16, r16", "09 /r"⟩, ⟨"OR r/m32, r32", "09 /r"⟩,
    ⟨"OR r/m64, r64", "REX.W + 09 /r"⟩, ⟨"OR r8, r/m8", "0A /r"⟩, ⟨"OR r16, r/m16", "0B /r"⟩,
    ⟨"OR r32, r/m32", "0B /r"⟩, ⟨"OR r64, r/m64", "REX.W + 0B /r"⟩, ⟨"ADC r/m8, imm8", "80 /2 ib"⟩,
    ⟨"ADC r/m16, imm8", "83 /2 ib"⟩, ⟨"ADC r/m32, imm8", "83 /2 ib"⟩,
    ⟨"ADC r/m64, imm8", "REX.W + 83 /2 ib"⟩, ⟨"ADC AL, imm8", "14 ib"⟩, ⟨"ADC AX, imm16", "15 iw"⟩,
    ⟨"ADC EAX, imm32", "15 id"⟩, ⟨"ADC RAX, imm32", "REX.W + 15 id"⟩,
    ⟨"ADC r/m16, imm16", "81 /2 iw"⟩, ⟨"ADC r/m32, imm32", "81 /2 id"⟩,
    ⟨"ADC r/m64, imm32", "REX.W + 81 /2 id"⟩, ⟨"ADC r/m8, r8", "10 /r"⟩,
    ⟨"ADC r/m16, r16", "11 /r"⟩, ⟨"ADC r/m32, r32", "11 /r"⟩, ⟨"ADC r/m64, r64", "REX.W + 11 /r"⟩,
    ⟨"ADC r8, r/m8", "12 /r"⟩, ⟨"ADC r16, r/m16", "13 /r"⟩, ⟨"ADC r32, r/m32", "13 /r"⟩,
    ⟨"ADC r64, r/m64", "REX.W + 13 /r"⟩, ⟨"SBB r/m8, imm8", "80 /3 ib"⟩,
    ⟨"SBB r/m16, imm8", "83 /3 ib"⟩, ⟨"SBB r/m32, imm8", "83 /3 ib"⟩,
    ⟨"SBB r/m64, imm8", "REX.W + 83 /3 ib"⟩, ⟨"SBB AL, imm8", "1C ib"⟩, ⟨"SBB AX, imm16", "1D iw"⟩,
    ⟨"SBB EAX, imm32", "1D id"⟩, ⟨"SBB RAX, imm32", "REX.W + 1D id"⟩,
    ⟨"SBB r/m16, imm16", "81 /3 iw"⟩, ⟨"SBB r/m32, imm32", "81 /3 id"⟩,
    ⟨"SBB r/m64, imm32", "REX.W + 81 /3 id"⟩, ⟨"SBB r/m8, r8", "18 /r"⟩,
    ⟨"SBB r/m16, r16", "19 /r"⟩, ⟨"SBB r/m32, r32", "19 /r"⟩, ⟨"SBB r/m64, r64", "REX.W + 19 /r"⟩,
    ⟨"SBB r8, r/m8", "1A /r"⟩, ⟨"SBB r16, r/m16", "1B /r"⟩, ⟨"SBB r32, r/m32", "1B /r"⟩,
    ⟨"SBB r64, r/m64", "REX.W + 1B /r"⟩, ⟨"AND r/m8, imm8", "80 /4 ib"⟩,
    ⟨"AND r/m16, imm8", "83 /4 ib"⟩, ⟨"AND r/m32, imm8", "83 /4 ib"⟩,
    ⟨"AND r/m64, imm8", "REX.W + 83 /4 ib"⟩, ⟨"AND AL, imm8", "24 ib"⟩, ⟨"AND AX, imm16", "25 iw"⟩,
    ⟨"AND EAX, imm32", "25 id"⟩, ⟨"AND RAX, imm32", "REX.W + 25 id"⟩,
    ⟨"AND r/m16, imm16", "81 /4 iw"⟩, ⟨"AND r/m32, imm32", "81 /4 id"⟩,
    ⟨"AND r/m64, imm32", "REX.W + 81 /4 id"⟩, ⟨"AND r/m8, r8", "20 /r"⟩,
    ⟨"AND r/m16, r16", "21 /r"⟩, ⟨"AND r/m32, r32", "21 /r"⟩, ⟨"AND r/m64, r64", "REX.W + 21 /r"⟩,
    ⟨"AND r8, r/m8", "22 /r"⟩, ⟨"AND r16, r/m16", "23 /r"⟩, ⟨"AND r32, r/m32", "23 /r"⟩,
    ⟨"AND r64, r/m64", "REX.W + 23 /r"⟩, ⟨"SUB r/m8, imm8", "80 /5 ib"⟩,
    ⟨"SUB r/m16, imm8", "83 /5 ib"⟩, ⟨"SUB r/m32, imm8", "83 /5 ib"⟩,
    ⟨"SUB r/m64, imm8", "REX.W + 83 /5 ib"⟩, ⟨"SUB AL, imm8", "2C ib"⟩, ⟨"SUB AX, imm16", "2D iw"⟩,
    ⟨"SUB EAX, imm32", "2D id"⟩, ⟨"SUB RAX, imm32", "REX.W + 2D id"⟩,
    ⟨"SUB r/m16, imm16", "81 /5 iw"⟩, ⟨"SUB r/m32, imm32", "81 /5 id"⟩,
    ⟨"SUB r/m64, imm32", "REX.W + 81 /5 id"⟩, ⟨"SUB r/m8, r8", "28 /r"⟩,
    ⟨"SUB r/m16, r16", "29 /r"⟩, ⟨"SUB r/m32, r32", "29 /r"⟩, ⟨"SUB r/m64, r64", "REX.W + 29 /r"⟩,
    ⟨"SUB r8, r/m8", "2A /r"⟩, ⟨"SUB r16, r/m16", "2B /r"⟩, ⟨"SUB r32, r/m32", "2B /r"⟩,
    ⟨"SUB r64, r/m64", "REX.W + 2B /r"⟩, ⟨"XOR r/m8, imm8", "80 /6 ib"⟩,
    ⟨"XOR r/m16, imm8", "83 /6 ib"⟩, ⟨"XOR r/m32, imm8", "83 /6 ib"⟩,
    ⟨"XOR r/m64, imm8", "REX.W + 83 /6 ib"⟩, ⟨"XOR AL, imm8", "34 ib"⟩, ⟨"XOR AX, imm16", "35 iw"⟩,
    ⟨"XOR EAX, imm32", "35 id"⟩, ⟨"XOR RAX, imm32", "REX.W + 35 id"⟩,
    ⟨"XOR r/m16, imm16", "81 /6 iw"⟩, ⟨"XOR r/m32, imm32", "81 /6 id"⟩,
    ⟨"XOR r/m64, imm32", "REX.W + 81 /6 id"⟩, ⟨"XOR r/m8, r8", "30 /r"⟩,
    ⟨"XOR r/m16, r16", "31 /r"⟩, ⟨"XOR r/m32, r32", "31 /r"⟩, ⟨"XOR r/m64, r64", "REX.W + 31 /r"⟩,
    ⟨"XOR r8, r/m8", "32 /r"⟩, ⟨"XOR r16, r/m16", "33 /r"⟩, ⟨"XOR r32, r/m32", "33 /r"⟩,
    ⟨"XOR r64, r/m64", "REX.W + 33 /r"⟩, ⟨"CMP r/m8, imm8", "80 /7 ib"⟩,
    ⟨"CMP r/m16, imm8", "83 /7 ib"⟩, ⟨"CMP r/m32, imm8", "83 /7 ib"⟩,
    ⟨"CMP r/m64, imm8", "REX.W + 83 /7 ib"⟩, ⟨"CMP AL, imm8", "3C ib"⟩, ⟨"CMP AX, imm16", "3D iw"⟩,
    ⟨"CMP EAX, imm32", "3D id"⟩, ⟨"CMP RAX, imm32", "REX.W + 3D id"⟩,
    ⟨"CMP r/m16, imm16", "81 /7 iw"⟩, ⟨"CMP r/m32, imm32", "81 /7 id"⟩,
    ⟨"CMP r/m64, imm32", "REX.W + 81 /7 id"⟩, ⟨"CMP r/m8, r8", "38 /r"⟩,
    ⟨"CMP r/m16, r16", "39 /r"⟩, ⟨"CMP r/m32, r32", "39 /r"⟩, ⟨"CMP r/m64, r64", "REX.W + 39 /r"⟩,
    ⟨"CMP r8, r/m8", "3A /r"⟩, ⟨"CMP r16, r/m16", "3B /r"⟩, ⟨"CMP r32, r/m32", "3B /r"⟩,
    ⟨"CMP r64, r/m64", "REX.W + 3B /r"⟩, ⟨"TEST AL, imm8", "A8 ib"⟩, ⟨"TEST AX, imm16", "A9 iw"⟩,
    ⟨"TEST EAX, imm32", "A9 id"⟩, ⟨"TEST RAX, imm32", "REX.W + A9 id"⟩,
    ⟨"TEST r/m8, imm8", "F6 /0 ib"⟩, ⟨"TEST r/m16, imm16", "F7 /0 iw"⟩,
    ⟨"TEST r/m32, imm32", "F7 /0 id"⟩, ⟨"TEST r/m64, imm32", "REX.W + F7 /0 id"⟩,
    ⟨"TEST r/m8, r8", "84 /r"⟩, ⟨"TEST r/m16, r16", "85 /r"⟩, ⟨"TEST r/m32, r32", "85 /r"⟩,
    ⟨"TEST r/m64, r64", "REX.W + 85 /r"⟩, ⟨"INC r/m8", "FE /0"⟩, ⟨"INC r/m16", "FF /0"⟩,
    ⟨"INC r/m32", "FF /0"⟩, ⟨"INC r/m64", "REX.W + FF /0"⟩, ⟨"DEC r/m8", "FE /1"⟩,
    ⟨"DEC r/m16", "FF /1"⟩, ⟨"DEC r/m32", "FF /1"⟩, ⟨"DEC r/m64", "REX.W + FF /1"⟩,
    ⟨"NOT r/m8", "F6 /2"⟩, ⟨"NOT r/m16", "F7 /2"⟩, ⟨"NOT r/m32", "F7 /2"⟩,
    ⟨"NOT r/m64", "REX.W + F7 /2"⟩, ⟨"NEG r/m8", "F6 /3"⟩, ⟨"NEG r/m16", "F7 /3"⟩,
    ⟨"NEG r/m32", "F7 /3"⟩, ⟨"NEG r/m64", "REX.W + F7 /3"⟩, ⟨"MUL r/m8", "F6 /4"⟩,
    ⟨"MUL r/m16", "F7 /4"⟩, ⟨"MUL r/m32", "F7 /4"⟩, ⟨"MUL r/m64", "REX.W + F7 /4"⟩,
    ⟨"IMUL r/m8", "F6 /5"⟩, ⟨"IMUL r/m16", "F7 /5"⟩, ⟨"IMUL r/m32", "F7 /5"⟩,
    ⟨"IMUL r/m64", "REX.W + F7 /5"⟩, ⟨"DIV r/m8", "F6 /6"⟩, ⟨"DIV r/m16", "F7 /6"⟩,
    ⟨"DIV r/m32", "F7 /6"⟩, ⟨"DIV r/m64", "REX.W + F7 /6"⟩, ⟨"IDIV r/m8", "F6 /7"⟩,
    ⟨"IDIV r/m16", "F7 /7"⟩, ⟨"IDIV r/m32", "F7 /7"⟩, ⟨"IDIV r/m64", "REX.W + F7 /7"⟩,
    ⟨"IMUL r16, r/m16", "0F AF /r"⟩, ⟨"IMUL r32, r/m32", "0F AF /r"⟩,
    ⟨"IMUL r64, r/m64", "REX.W + 0F AF /r"⟩]

/-- Shifts and rotates. -/
def shifts : List Row :=
  [⟨"ROL r/m8, 1", "D0 /0"⟩, ⟨"ROL r/m8, CL", "D2 /0"⟩, ⟨"ROL r/m8, imm8", "C0 /0 ib"⟩,
    ⟨"ROL r/m16, 1", "D1 /0"⟩, ⟨"ROL r/m16, CL", "D3 /0"⟩, ⟨"ROL r/m16, imm8", "C1 /0 ib"⟩,
    ⟨"ROL r/m32, 1", "D1 /0"⟩, ⟨"ROL r/m32, CL", "D3 /0"⟩, ⟨"ROL r/m32, imm8", "C1 /0 ib"⟩,
    ⟨"ROL r/m64, 1", "REX.W + D1 /0"⟩, ⟨"ROL r/m64, CL", "REX.W + D3 /0"⟩,
    ⟨"ROL r/m64, imm8", "REX.W + C1 /0 ib"⟩, ⟨"ROR r/m8, 1", "D0 /1"⟩, ⟨"ROR r/m8, CL", "D2 /1"⟩,
    ⟨"ROR r/m8, imm8", "C0 /1 ib"⟩, ⟨"ROR r/m16, 1", "D1 /1"⟩, ⟨"ROR r/m16, CL", "D3 /1"⟩,
    ⟨"ROR r/m16, imm8", "C1 /1 ib"⟩, ⟨"ROR r/m32, 1", "D1 /1"⟩, ⟨"ROR r/m32, CL", "D3 /1"⟩,
    ⟨"ROR r/m32, imm8", "C1 /1 ib"⟩, ⟨"ROR r/m64, 1", "REX.W + D1 /1"⟩,
    ⟨"ROR r/m64, CL", "REX.W + D3 /1"⟩, ⟨"ROR r/m64, imm8", "REX.W + C1 /1 ib"⟩,
    ⟨"SHL r/m8, 1", "D0 /4"⟩, ⟨"SHL r/m8, CL", "D2 /4"⟩, ⟨"SHL r/m8, imm8", "C0 /4 ib"⟩,
    ⟨"SHL r/m16, 1", "D1 /4"⟩, ⟨"SHL r/m16, CL", "D3 /4"⟩, ⟨"SHL r/m16, imm8", "C1 /4 ib"⟩,
    ⟨"SHL r/m32, 1", "D1 /4"⟩, ⟨"SHL r/m32, CL", "D3 /4"⟩, ⟨"SHL r/m32, imm8", "C1 /4 ib"⟩,
    ⟨"SHL r/m64, 1", "REX.W + D1 /4"⟩, ⟨"SHL r/m64, CL", "REX.W + D3 /4"⟩,
    ⟨"SHL r/m64, imm8", "REX.W + C1 /4 ib"⟩, ⟨"SHR r/m8, 1", "D0 /5"⟩, ⟨"SHR r/m8, CL", "D2 /5"⟩,
    ⟨"SHR r/m8, imm8", "C0 /5 ib"⟩, ⟨"SHR r/m16, 1", "D1 /5"⟩, ⟨"SHR r/m16, CL", "D3 /5"⟩,
    ⟨"SHR r/m16, imm8", "C1 /5 ib"⟩, ⟨"SHR r/m32, 1", "D1 /5"⟩, ⟨"SHR r/m32, CL", "D3 /5"⟩,
    ⟨"SHR r/m32, imm8", "C1 /5 ib"⟩, ⟨"SHR r/m64, 1", "REX.W + D1 /5"⟩,
    ⟨"SHR r/m64, CL", "REX.W + D3 /5"⟩, ⟨"SHR r/m64, imm8", "REX.W + C1 /5 ib"⟩,
    ⟨"SAR r/m8, 1", "D0 /7"⟩, ⟨"SAR r/m8, CL", "D2 /7"⟩, ⟨"SAR r/m8, imm8", "C0 /7 ib"⟩,
    ⟨"SAR r/m16, 1", "D1 /7"⟩, ⟨"SAR r/m16, CL", "D3 /7"⟩, ⟨"SAR r/m16, imm8", "C1 /7 ib"⟩,
    ⟨"SAR r/m32, 1", "D1 /7"⟩, ⟨"SAR r/m32, CL", "D3 /7"⟩, ⟨"SAR r/m32, imm8", "C1 /7 ib"⟩,
    ⟨"SAR r/m64, 1", "REX.W + D1 /7"⟩, ⟨"SAR r/m64, CL", "REX.W + D3 /7"⟩,
    ⟨"SAR r/m64, imm8", "REX.W + C1 /7 ib"⟩]

/-- Bit tests. -/
def bitTests : List Row :=
  [⟨"BT r/m16, r16", "0F A3 /r"⟩, ⟨"BT r/m32, r32", "0F A3 /r"⟩,
    ⟨"BT r/m64, r64", "REX.W + 0F A3 /r"⟩, ⟨"BT r/m16, imm8", "0F BA /4 ib"⟩,
    ⟨"BT r/m32, imm8", "0F BA /4 ib"⟩, ⟨"BT r/m64, imm8", "REX.W + 0F BA /4 ib"⟩]

/-- Control transfer. -/
def jumps : List Row :=
  [⟨"JMP rel8", "EB cb"⟩, ⟨"JMP rel32", "E9 cd"⟩, ⟨"JMP r/m64", "FF /4"⟩, ⟨"CALL rel32", "E8 cd"⟩,
    ⟨"CALL r/m64", "FF /2"⟩, ⟨"JO rel8", "70 cb"⟩, ⟨"JNO rel8", "71 cb"⟩, ⟨"JB rel8", "72 cb"⟩,
    ⟨"JAE rel8", "73 cb"⟩, ⟨"JE rel8", "74 cb"⟩, ⟨"JNE rel8", "75 cb"⟩, ⟨"JBE rel8", "76 cb"⟩,
    ⟨"JA rel8", "77 cb"⟩, ⟨"JS rel8", "78 cb"⟩, ⟨"JNS rel8", "79 cb"⟩, ⟨"JP rel8", "7A cb"⟩,
    ⟨"JNP rel8", "7B cb"⟩, ⟨"JL rel8", "7C cb"⟩, ⟨"JGE rel8", "7D cb"⟩, ⟨"JLE rel8", "7E cb"⟩,
    ⟨"JG rel8", "7F cb"⟩, ⟨"JO rel32", "0F 80 cd"⟩, ⟨"JNO rel32", "0F 81 cd"⟩,
    ⟨"JB rel32", "0F 82 cd"⟩, ⟨"JAE rel32", "0F 83 cd"⟩, ⟨"JE rel32", "0F 84 cd"⟩,
    ⟨"JNE rel32", "0F 85 cd"⟩, ⟨"JBE rel32", "0F 86 cd"⟩, ⟨"JA rel32", "0F 87 cd"⟩,
    ⟨"JS rel32", "0F 88 cd"⟩, ⟨"JNS rel32", "0F 89 cd"⟩, ⟨"JP rel32", "0F 8A cd"⟩,
    ⟨"JNP rel32", "0F 8B cd"⟩, ⟨"JL rel32", "0F 8C cd"⟩, ⟨"JGE rel32", "0F 8D cd"⟩,
    ⟨"JLE rel32", "0F 8E cd"⟩, ⟨"JG rel32", "0F 8F cd"⟩, ⟨"RET", "C3"⟩, ⟨"RET imm16", "C2 iw"⟩,
    ⟨"RET", "CB"⟩, ⟨"RET imm16", "CA iw"⟩, ⟨"INT3", "CC"⟩, ⟨"INT imm8", "CD ib"⟩]

/-- Conditional sets and moves. -/
def conditional : List Row :=
  [⟨"SETO r/m8", "0F 90"⟩, ⟨"SETNO r/m8", "0F 91"⟩, ⟨"SETB r/m8", "0F 92"⟩, ⟨"SETAE r/m8", "0F 93"⟩,
    ⟨"SETE r/m8", "0F 94"⟩, ⟨"SETNE r/m8", "0F 95"⟩, ⟨"SETBE r/m8", "0F 96"⟩,
    ⟨"SETA r/m8", "0F 97"⟩, ⟨"SETS r/m8", "0F 98"⟩, ⟨"SETNS r/m8", "0F 99"⟩, ⟨"SETP r/m8", "0F 9A"⟩,
    ⟨"SETNP r/m8", "0F 9B"⟩, ⟨"SETL r/m8", "0F 9C"⟩, ⟨"SETGE r/m8", "0F 9D"⟩,
    ⟨"SETLE r/m8", "0F 9E"⟩, ⟨"SETG r/m8", "0F 9F"⟩, ⟨"CMOVB r16, r/m16", "0F 42 /r"⟩,
    ⟨"CMOVB r32, r/m32", "0F 42 /r"⟩, ⟨"CMOVB r64, r/m64", "REX.W + 0F 42 /r"⟩,
    ⟨"CMOVAE r16, r/m16", "0F 43 /r"⟩, ⟨"CMOVAE r32, r/m32", "0F 43 /r"⟩,
    ⟨"CMOVAE r64, r/m64", "REX.W + 0F 43 /r"⟩, ⟨"CMOVE r16, r/m16", "0F 44 /r"⟩,
    ⟨"CMOVE r32, r/m32", "0F 44 /r"⟩, ⟨"CMOVE r64, r/m64", "REX.W + 0F 44 /r"⟩,
    ⟨"CMOVNE r16, r/m16", "0F 45 /r"⟩, ⟨"CMOVNE r32, r/m32", "0F 45 /r"⟩,
    ⟨"CMOVNE r64, r/m64", "REX.W + 0F 45 /r"⟩, ⟨"CMOVBE r16, r/m16", "0F 46 /r"⟩,
    ⟨"CMOVBE r32, r/m32", "0F 46 /r"⟩, ⟨"CMOVBE r64, r/m64", "REX.W + 0F 46 /r"⟩,
    ⟨"CMOVA r16, r/m16", "0F 47 /r"⟩, ⟨"CMOVA r32, r/m32", "0F 47 /r"⟩,
    ⟨"CMOVA r64, r/m64", "REX.W + 0F 47 /r"⟩, ⟨"CMOVL r16, r/m16", "0F 4C /r"⟩,
    ⟨"CMOVL r32, r/m32", "0F 4C /r"⟩, ⟨"CMOVL r64, r/m64", "REX.W + 0F 4C /r"⟩,
    ⟨"CMOVGE r16, r/m16", "0F 4D /r"⟩, ⟨"CMOVGE r32, r/m32", "0F 4D /r"⟩,
    ⟨"CMOVGE r64, r/m64", "REX.W + 0F 4D /r"⟩, ⟨"CMOVLE r16, r/m16", "0F 4E /r"⟩,
    ⟨"CMOVLE r32, r/m32", "0F 4E /r"⟩, ⟨"CMOVLE r64, r/m64", "REX.W + 0F 4E /r"⟩,
    ⟨"CMOVG r16, r/m16", "0F 4F /r"⟩, ⟨"CMOVG r32, r/m32", "0F 4F /r"⟩,
    ⟨"CMOVG r64, r/m64", "REX.W + 0F 4F /r"⟩]

/-- Sign extension, flags and system. -/
def system : List Row :=
  [⟨"CBW", "66 98"⟩, ⟨"CWDE", "98"⟩, ⟨"CDQE", "REX.W + 98"⟩, ⟨"CWD", "66 99"⟩, ⟨"CDQ", "99"⟩,
    ⟨"CQO", "REX.W + 99"⟩, ⟨"CLC", "F8"⟩, ⟨"STC", "F9"⟩, ⟨"CMC", "F5"⟩, ⟨"CLD", "FC"⟩,
    ⟨"STD", "FD"⟩, ⟨"NOP", "90"⟩, ⟨"NOP r/m16", "0F 1F /0"⟩, ⟨"NOP r/m32", "0F 1F /0"⟩,
    ⟨"PAUSE", "F3 90"⟩, ⟨"HLT", "F4"⟩, ⟨"UD2", "0F 0B"⟩, ⟨"SYSCALL", "0F 05"⟩, ⟨"CPUID", "0F A2"⟩]

/-- All built-in rows. -/
def generalRows : List Row :=
  moves ++ stack ++ arithmetic ++ shifts ++ bitTests ++ jumps ++ conditional ++ system

/-- The built-in table. -/
def general : Table := compile generalRows

end Table
end RowAsm
