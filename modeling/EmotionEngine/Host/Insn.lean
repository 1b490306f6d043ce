import EmotionEngine.Host.CodeByte
import EmotionEngine.Host.Opcode

/-!
Host instructions. `Insn` has the forms that compiled code is made of, and `Insn.encode` gives the bytes
of each. Immediates and displacements are written in the shortest form that the instruction has.
-/

namespace EmotionEngine.Host

/-- Two-operand arithmetic. -/
inductive ArithOp where
  | add | or | adc | sbb | and | sub | xor | cmp
  deriving DecidableEq

/-- The number of the operation in its opcode. -/
def ArithOp.code : ArithOp → Nat
  | add => 0 | or => 1 | adc => 2 | sbb => 3 | and => 4 | sub => 5 | xor => 6 | cmp => 7

/-- The operation with a given number. -/
def ArithOp.ofCode? (n : Nat) : Option ArithOp :=
  [add, or, adc, sbb, and, sub, xor, cmp][n]?

@[simp] theorem ArithOp.ofCode?_code (op : ArithOp) : ofCode? op.code = some op := by cases op <;> rfl

/-- Shifts and rotations. -/
inductive ShiftOp where
  | rol | ror | shl | shr | sar
  deriving DecidableEq

/-- The number of the operation in its opcode. -/
def ShiftOp.code : ShiftOp → Nat
  | rol => 0 | ror => 1 | shl => 4 | shr => 5 | sar => 7

/-- The operation with a given number. -/
def ShiftOp.ofCode? (n : Nat) : Option ShiftOp := [rol, ror, shl, shr, sar].find? (·.code == n)

@[simp] theorem ShiftOp.ofCode?_code (op : ShiftOp) : ofCode? op.code = some op := by cases op <;> rfl

/-- Conditions on the flags: overflow, carry, zero, sign, parity, and the signed and unsigned orders. -/
inductive Cond where
  | o | no | b | ae | e | ne | be | a | s | ns | p | np | l | ge | le | g
  deriving DecidableEq

namespace Cond

/-- The number of the condition in an opcode. -/
def code : Cond → Nat
  | o => 0 | no => 1 | b => 2 | ae => 3 | e => 4 | ne => 5 | be => 6 | a => 7
  | s => 8 | ns => 9 | p => 10 | np => 11 | l => 12 | ge => 13 | le => 14 | g => 15

def all : List Cond := [o, no, b, ae, e, ne, be, a, s, ns, p, np, l, ge, le, g]

/-- The condition that holds when this one does not. -/
def invert : Cond → Cond
  | o => no | no => o | b => ae | ae => b | e => ne | ne => e | be => a | a => be
  | s => ns | ns => s | p => np | np => p | l => ge | ge => l | le => g | g => le

/-- Opposite conditions differ in the lowest bit of their numbers. -/
theorem code_invert (c : Cond) : c.invert.code = c.code ^^^ 1 := by cases c <;> rfl

@[simp] theorem invert_invert (c : Cond) : c.invert.invert = c := by cases c <;> rfl

end Cond

/-- Extensions of the low part of a register or memory operand. -/
inductive Extend where
  | zeroByte | signByte | signHalf | signWord
  deriving DecidableEq

/-- The opcode of an extension. The signed ones fill 64 bits. -/
def Extend.opcode : Extend → Opcode
  | zeroByte => { byte := 0xB6#8, escape := true }
  | signByte => { byte := 0xBE#8, escape := true, wide := true }
  | signHalf => { byte := 0xBF#8, escape := true, wide := true }
  | signWord => { byte := 0x63#8, wide := true }

/-- Host instructions. Where there is a choice, `wide` selects 64-bit operands, and memory operands are
a base register and a displacement. -/
inductive Insn where
  | arith (op : ArithOp) (wide : Bool) (dst src : Reg)
  | arithImm (op : ArithOp) (wide : Bool) (dst : Reg) (imm : Word)
  | arithMemImm (op : ArithOp) (base : Reg) (disp imm : Word)
  | not (wide : Bool) (dst : Reg)
  | shiftImm (op : ShiftOp) (wide : Bool) (dst : Reg) (amount : Byte)
  /-- Shift by the low byte of `rcx`. -/
  | shiftCl (op : ShiftOp) (wide : Bool) (dst : Reg)
  | mov (wide : Bool) (dst src : Reg)
  /-- Clear a register by exclusive or with itself, which changes the flags. -/
  | clear (dst : Reg)
  /-- A 32-bit immediate; the high half becomes zero. -/
  | movImm32 (dst : Reg) (imm : Word)
  /-- A 32-bit immediate, sign-extended. -/
  | movImmSigned (dst : Reg) (imm : Word)
  | movImm64 (dst : Reg) (imm : Dword)
  /-- The address of a helper. -/
  | movHelper (dst : Reg) (h : Helper)
  | extend (x : Extend) (dst src : Reg)
  | load (wide : Bool) (dst base : Reg) (disp : Word)
  | loadExtend (x : Extend) (dst base : Reg) (disp : Word)
  | store (wide : Bool) (src base : Reg) (disp : Word)
  | storeImm (base : Reg) (disp imm : Word)
  | imul (wide : Bool) (dst src : Reg)
  | setcc (cond : Cond) (dst : Reg)
  | cmov (cond : Cond) (wide : Bool) (dst src : Reg)
  | test (wide : Bool) (a b : Reg)
  | testMemImm (base : Reg) (disp imm : Word)
  | push (r : Reg)
  | pop (r : Reg)
  | call (r : Reg)
  | ret
  /-- A jump if the condition holds; the distance counts from its end. -/
  | jcc (cond : Cond) (rel : Word)
  | jmp (rel : Word)
  deriving DecidableEq

namespace Insn

/-- The shortest instruction that puts a constant into a register. Zero costs the flags. -/
def movImm (wide : Bool) (dst : Reg) (v : Dword) : Insn :=
  if v = 0 then clear dst
  else if !wide || v.toNat < twoPow 32 then movImm32 dst (v.setWidth 32)
  else if (v.setWidth 32).signExtend 64 = v then movImmSigned dst (v.setWidth 32)
  else movImm64 dst v

def op (byte : Nat) (wide : Bool) : Opcode := { byte := BitVec.ofNat 8 byte, wide }

def op0F (byte : Nat) (wide : Bool) : Opcode := { byte := BitVec.ofNat 8 byte, wide, escape := true }

/-- The opcode and the bytes of an arithmetic immediate. -/
def arithImmForm (wide : Bool) (imm : Word) : Opcode × List Byte :=
  if fitsByte imm then (op 0x83 wide, [imm.setWidth 8]) else (op 0x81 wide, leBytes 4 imm.toNat)

/-- The bytes of an instruction, but for the address of a helper at its end. -/
def bytes : Insn → List Byte
  | arith o wide dst src => (op (0x03 + 8 * o.code) wide).regReg dst src
  | arithImm o wide dst imm =>
    let (form, rest) := arithImmForm wide imm
    form.extReg o.code dst ++ rest
  | arithMemImm o base disp imm =>
    let (form, rest) := arithImmForm false imm
    form.extMem o.code base disp ++ rest
  | not wide dst => (op 0xF7 wide).extReg 2 dst
  | shiftImm o wide dst amount =>
    if amount = 1 then (op 0xD1 wide).extReg o.code dst
    else (op 0xC1 wide).extReg o.code dst ++ [amount]
  | shiftCl o wide dst => (op 0xD3 wide).extReg o.code dst
  | mov wide dst src => (op 0x89 wide).regReg src dst
  | clear dst => (op 0x31 false).regReg dst dst
  | movImm32 dst imm => (op 0xB8 false).plusReg dst ++ leBytes 4 imm.toNat
  | movImmSigned dst imm => (op 0xC7 true).extReg 0 dst ++ leBytes 4 imm.toNat
  | movImm64 dst imm => (op 0xB8 true).plusReg dst ++ leBytes 8 imm.toNat
  | movHelper dst _ => (op 0xB8 true).plusReg dst
  | extend x dst src => x.opcode.regReg dst src
  | load wide dst base disp => (op 0x8B wide).regMem dst base disp
  | loadExtend x dst base disp => x.opcode.regMem dst base disp
  | store wide src base disp => (op 0x89 wide).regMem src base disp
  | storeImm base disp imm => (op 0xC7 false).extMem 0 base disp ++ leBytes 4 imm.toNat
  | imul wide dst src => (op0F 0xAF wide).regReg dst src
  | setcc c dst => { op0F (0x90 + c.code) false with byteRm := true }.extReg 0 dst
  | cmov c wide dst src => (op0F (0x40 + c.code) wide).regReg dst src
  | test wide a b => (op 0x85 wide).regReg a b
  | testMemImm base disp imm => (op 0xF7 false).extMem 0 base disp ++ leBytes 4 imm.toNat
  | push r => (op 0x50 false).plusReg r
  | pop r => (op 0x58 false).plusReg r
  | call r => (op 0xFF false).extReg 2 r
  | ret => [0xC3#8]
  | jcc c rel => (op0F (0x80 + c.code) false).encode 0 0 ++ leBytes 4 rel.toNat
  | jmp rel => 0xE9#8 :: leBytes 4 rel.toNat

/-- The helper whose address ends an instruction. -/
def helper? : Insn → Option Helper
  | movHelper _ h => some h
  | _ => none

/-- All bytes of an instruction. -/
def encode (i : Insn) : List CodeByte :=
  CodeByte.ofBytes i.bytes ++
    (match i.helper? with
     | some h => CodeByte.ofHelper h
     | none => [])

/-- How many bytes an instruction takes. -/
def size (i : Insn) : Nat := i.encode.length

end Insn

end EmotionEngine.Host
