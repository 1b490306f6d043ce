import EmotionEngine.Host.Reg
import EmotionEngine.Word

/-!
The parts of a host instruction: prefixes and opcode, the operand byte that names two registers or a
register and a memory operand, and displacements, which take one byte where one is enough.
-/

namespace EmotionEngine.Host

/-- An opcode with what goes before it. -/
structure Opcode where
  byte : Byte
  /-- Preceded by the escape byte `0F`. -/
  escape : Bool := false
  /-- Preceded by the prefix for 16-bit operands. -/
  data16 : Bool := false
  /-- Works on 64 bits. -/
  wide : Bool := false
  /-- The register field names a byte register. -/
  byteReg : Bool := false
  /-- The other field names a byte register. -/
  byteRm : Bool := false
  deriving DecidableEq

/-- The low bits of the REX prefix: operand size and the fourth bit of each register. -/
def rexBits (wide : Bool) (r rm : Nat) : Byte :=
  (if wide then 0x08#8 else 0) ||| (if 8 ≤ r then 0x04#8 else 0) ||| (if 8 ≤ rm then 0x01#8 else 0)

namespace Opcode

/-- Whether an empty prefix is needed all the same: without one, encodings 4 to 7 of a byte register
mean the high bytes of the first four registers. -/
def forcesRex (op : Opcode) (r rm : Nat) : Bool := (op.byteReg && 4 ≤ r) || (op.byteRm && 4 ≤ rm)

/-- The prefix for 64-bit operands and high registers, if one is needed. -/
def rex (op : Opcode) (r rm : Nat) : List Byte :=
  let bits := rexBits op.wide r rm
  if bits ≠ 0 ∨ op.forcesRex r rm then [0x40#8 ||| bits] else []

/-- Prefixes and opcode of an instruction whose operand fields are `r` and `rm`. -/
def encode (op : Opcode) (r rm : Nat) : List Byte :=
  (if op.data16 then [0x66#8] else []) ++ op.rex r rm ++ (if op.escape then [0x0F#8] else []) ++ [op.byte]

end Opcode

/-- The operand byte of mode `mode` with fields `r` and `rm`. -/
def operandByte (mode : Byte) (r rm : Nat) : Byte := mode ||| (BitVec.ofNat 8 r <<< 3) ||| BitVec.ofNat 8 rm

/-- Whether one sign-extended byte holds the value. -/
def fitsByte (w : Word) : Bool := (w.setWidth 8).signExtend 32 == w

/-- The memory operand `[base + disp]` with `r` in the register field. Two of the base registers need
an extra byte and two others always a displacement. -/
def memOperand (r : Nat) (base : Reg) (disp : Word) : List Byte :=
  -- The extra byte says: this base, and no index register.
  let extra : List Byte := if base.low3 = 4 then [0x24#8] else []
  if disp = 0 ∧ base.low3 ≠ 5 then operandByte 0x00#8 r base.low3 :: extra
  else if fitsByte disp then operandByte 0x40#8 r base.low3 :: extra ++ [disp.setWidth 8]
  else operandByte 0x80#8 r base.low3 :: extra ++ leBytes 4 disp.toNat

namespace Opcode

/-- An instruction on two registers. -/
def regReg (op : Opcode) (r rm : Reg) : List Byte :=
  op.encode r.index rm.index ++ [operandByte 0xC0#8 r.low3 rm.low3]

/-- An instruction on one register, whose opcode goes on in the register field. -/
def extReg (op : Opcode) (ext : Nat) (rm : Reg) : List Byte :=
  op.encode ext rm.index ++ [operandByte 0xC0#8 ext rm.low3]

/-- An instruction on a register and memory. -/
def regMem (op : Opcode) (r base : Reg) (disp : Word) : List Byte :=
  op.encode r.index base.index ++ memOperand r.low3 base disp

/-- An instruction on memory, whose opcode goes on in the register field. -/
def extMem (op : Opcode) (ext : Nat) (base : Reg) (disp : Word) : List Byte :=
  op.encode ext base.index ++ memOperand ext base disp

/-- An instruction whose opcode byte names its register. -/
def plusReg (op : Opcode) (r : Reg) : List Byte :=
  { op with byte := op.byte + BitVec.ofNat 8 r.low3 }.encode 0 r.index

end Opcode

end EmotionEngine.Host
