import EmotionEngine.Insn.Basic

/-!
The instruction table, as an encoder reads it: where every instruction has its fields. `Insn.selectors` are the
fields that say which instruction a word is and the values they have, `Insn.operandFields` those that hold its
registers, shift amount, immediate, index or code. The other bits of the word are free, and zero in what
`Insn.encode` gives.

The tables are indexed by instruction here, and by the bits of a word in the decoder; neither is made from the
other.
-/

namespace EmotionEngine

/-! ## Fields -/

/-- A range of bits of an instruction word. -/
structure BitField where
  /-- The lowest bit. -/
  pos : Nat
  width : Nat
  deriving DecidableEq

namespace BitField

def opcode : BitField := ⟨26, 6⟩
def rs : BitField := ⟨21, 5⟩
def rt : BitField := ⟨16, 5⟩
def rd : BitField := ⟨11, 5⟩
/-- The shift amount; it is a floating point destination and a selector of lane operations as well. -/
def sa : BitField := ⟨6, 5⟩
def funct : BitField := ⟨0, 6⟩
def imm : BitField := ⟨0, 16⟩
def index : BitField := ⟨0, 26⟩
/-- The code of a system call or a breakpoint. -/
def code : BitField := ⟨6, 20⟩
def whole : BitField := ⟨0, 32⟩

def get (f : BitField) (w : Word) : Nat := w.toNat / twoPow f.pos % twoPow f.width

/-- The word that has a value in a field, and zeros elsewhere. -/
def put (f : BitField) (v : Nat) : Word := BitVec.ofNat 32 v <<< f.pos

/-- The word that has each of some values in its field, and zeros elsewhere. -/
def pack (fields : List (BitField × Nat)) : Word := fields.foldr (fun p w => p.1.put p.2 ||| w) 0

/-- Whether a word has each of some values in its field. -/
def Carried (fields : List (BitField × Nat)) (w : Word) : Prop := ∀ p ∈ fields, p.1.get w = p.2

instance (fields : List (BitField × Nat)) (w : Word) : Decidable (Carried fields w) :=
  inferInstanceAs (Decidable (∀ p ∈ fields, p.1.get w = p.2))

end BitField

/-! ## Numbers of operations -/

def AluOp.funct : AluOp → Nat
  | .add => 0x20 | .addu => 0x21 | .sub => 0x22 | .subu => 0x23 | .and => 0x24 | .or => 0x25 | .xor => 0x26
  | .nor => 0x27 | .slt => 0x2A | .sltu => 0x2B | .dadd => 0x2C | .daddu => 0x2D | .dsub => 0x2E | .dsubu => 0x2F

@[simp] theorem AluOp.funct_lt (op : AluOp) : op.funct < 64 := by cases op <;> decide

def AluImmOp.opcode : AluImmOp → Nat
  | .addi => 0x08 | .addiu => 0x09 | .slti => 0x0A | .sltiu => 0x0B | .andi => 0x0C | .ori => 0x0D | .xori => 0x0E
  | .daddi => 0x18 | .daddiu => 0x19

@[simp] theorem AluImmOp.opcode_lt (op : AluImmOp) : op.opcode < 64 := by cases op <;> decide

def ShiftOp.funct : ShiftOp → Nat
  | .sll => 0x00 | .srl => 0x02 | .sra => 0x03 | .dsll => 0x38 | .dsrl => 0x3A | .dsra => 0x3B | .dsll32 => 0x3C
  | .dsrl32 => 0x3E | .dsra32 => 0x3F

@[simp] theorem ShiftOp.funct_lt (op : ShiftOp) : op.funct < 64 := by cases op <;> decide

def ShiftVarOp.funct : ShiftVarOp → Nat
  | .sllv => 0x04 | .srlv => 0x06 | .srav => 0x07 | .dsllv => 0x14 | .dsrlv => 0x16 | .dsrav => 0x17

@[simp] theorem ShiftVarOp.funct_lt (op : ShiftVarOp) : op.funct < 64 := by cases op <;> decide

def MulDivOp.funct : MulDivOp → Nat
  | .mult => 0x18 | .multu => 0x19 | .div => 0x1A | .divu => 0x1B

@[simp] theorem MulDivOp.funct_lt (op : MulDivOp) : op.funct < 64 := by cases op <;> decide

def HiLoOp.funct : HiLoOp → Nat
  | .mfhi => 0x10 | .mthi => 0x11 | .mflo => 0x12 | .mtlo => 0x13

@[simp] theorem HiLoOp.funct_lt (op : HiLoOp) : op.funct < 64 := by cases op <;> decide

def CondMoveOp.funct : CondMoveOp → Nat
  | .movz => 0x0A | .movn => 0x0B

@[simp] theorem CondMoveOp.funct_lt (op : CondMoveOp) : op.funct < 64 := by cases op <;> decide

def LoadOp.opcode : LoadOp → Nat
  | .lb => 0x20 | .lh => 0x21 | .lw => 0x23 | .lbu => 0x24 | .lhu => 0x25 | .lwu => 0x27 | .ld => 0x37 | .lq => 0x1E

@[simp] theorem LoadOp.opcode_lt (op : LoadOp) : op.opcode < 64 := by cases op <;> decide

def StoreOp.opcode : StoreOp → Nat
  | .sb => 0x28 | .sh => 0x29 | .sw => 0x2B | .sd => 0x3F | .sq => 0x1F

@[simp] theorem StoreOp.opcode_lt (op : StoreOp) : op.opcode < 64 := by cases op <;> decide

/-- The row of the table of moves, which the `rs` field selects. -/
def Cop0Op.row : Cop0Op → Nat
  | .mfc0 => 0x00 | .mtc0 => 0x04

@[simp] theorem Cop0Op.row_lt (op : Cop0Op) : op.row < 32 := by cases op <;> decide

/-- The row of the table of moves, which the `rs` field selects. -/
def FpuMoveOp.row : FpuMoveOp → Nat
  | .mfc1 => 0x00 | .cfc1 => 0x02 | .mtc1 => 0x04 | .ctc1 => 0x06

@[simp] theorem FpuMoveOp.row_lt (op : FpuMoveOp) : op.row < 32 := by cases op <;> decide

/-- The format of the operand, which the `rs` field holds: a word for `cvtSW`, single precision for the rest. -/
def FpuOp.format : FpuOp → Nat
  | .cvtSW => 0x14
  | _ => 0x10

@[simp] theorem FpuOp.format_lt (op : FpuOp) : op.format < 32 := by cases op <;> decide

def FpuOp.funct : FpuOp → Nat
  | .add => 0x00 | .sub => 0x01 | .mul => 0x02 | .div => 0x03 | .sqrt => 0x04 | .abs => 0x05 | .mov => 0x06
  | .neg => 0x07 | .cvtWS => 0x24 | .cvtSW => 0x20

@[simp] theorem FpuOp.funct_lt (op : FpuOp) : op.funct < 64 := by cases op <;> decide

def FpuCond.funct : FpuCond → Nat
  | .f => 0x30 | .eq => 0x32 | .lt => 0x34 | .le => 0x36

@[simp] theorem FpuCond.funct_lt (op : FpuCond) : op.funct < 64 := by cases op <;> decide

def MmiOp.funct : MmiOp → Nat
  | .paddw | .psubw | .paddh | .psubh | .paddsw | .psubsw | .paddsh | .psubsh => 0x08
  | .padduw | .psubuw => 0x28
  | .pand | .pxor => 0x09
  | .por | .pnor => 0x29

@[simp] theorem MmiOp.funct_lt (op : MmiOp) : op.funct < 64 := by cases op <;> decide

/-- The row among the lane operations of one function, which the `sa` field selects. -/
def MmiOp.row : MmiOp → Nat
  | .paddw => 0x00 | .psubw => 0x01 | .paddh => 0x04 | .psubh => 0x05 | .paddsw => 0x10 | .psubsw => 0x11
  | .paddsh => 0x14 | .psubsh => 0x15 | .padduw => 0x10 | .psubuw => 0x11 | .pand => 0x12 | .pxor => 0x13
  | .por => 0x12 | .pnor => 0x13

@[simp] theorem MmiOp.row_lt (op : MmiOp) : op.row < 32 := by cases op <;> decide

/-- What says that a word is a branch on a condition. Those on the sign of a register alone share an opcode, and
only they have a linking form. -/
def BranchCond.selectors (cond : BranchCond) (likely link : Bool) : List (BitField × Nat) :=
  match cond with
  | .eq => [(.opcode, 0x04 + 0x10 * likely.toNat)]
  | .ne => [(.opcode, 0x05 + 0x10 * likely.toNat)]
  | .lez => [(.opcode, 0x06 + 0x10 * likely.toNat)]
  | .gtz => [(.opcode, 0x07 + 0x10 * likely.toNat)]
  | .ltz => [(.opcode, 0x01), (.rt, 0x00 + 0x02 * likely.toNat + 0x10 * link.toNat)]
  | .gez => [(.opcode, 0x01), (.rt, 0x01 + 0x02 * likely.toNat + 0x10 * link.toNat)]

def BranchCond.links : BranchCond → Bool
  | .ltz | .gez => true
  | _ => false

/-! ## Instructions -/

namespace Insn

/-- Whether the table has the instruction: it is not a reserved word, links only if it can, and has zero for a
register that it has no field for. -/
def listed : Insn → Bool
  | reserved _ => false
  | mulDiv op rd _ _ => op.isMul || rd == 0
  | branch cond _ rt _ _ link => (cond.usesRt || rt == 0) && (cond.links || !link)
  | _ => true

/-- The fields that tell an instruction from others, with their values. -/
def selectors : Insn → List (BitField × Nat)
  | nop => [(.whole, 0)]
  | alu op _ _ _ => [(.opcode, 0x00), (.funct, op.funct)]
  | aluImm op _ _ _ => [(.opcode, op.opcode)]
  | lui _ _ => [(.opcode, 0x0F)]
  | shift op _ _ _ => [(.opcode, 0x00), (.funct, op.funct)]
  | shiftVar op _ _ _ => [(.opcode, 0x00), (.funct, op.funct)]
  | mulDiv op _ _ _ => [(.opcode, 0x00), (.funct, op.funct)]
  | hiLo op _ => [(.opcode, 0x00), (.funct, op.funct)]
  | condMove op _ _ _ => [(.opcode, 0x00), (.funct, op.funct)]
  | load op _ _ _ => [(.opcode, op.opcode)]
  | store op _ _ _ => [(.opcode, op.opcode)]
  | branch cond _ _ _ likely link => cond.selectors likely link
  | jump _ link => [(.opcode, 0x02 + link.toNat)]
  | jumpReg _ link => [(.opcode, 0x00), (.funct, 0x08 + link.isSome.toNat)]
  | syscall _ => [(.opcode, 0x00), (.funct, 0x0C)]
  | breakpoint _ => [(.opcode, 0x00), (.funct, 0x0D)]
  | sync => [(.opcode, 0x00), (.funct, 0x0F)]
  | cop0Move op _ _ => [(.opcode, 0x10), (.rs, op.row)]
  | eret => [(.opcode, 0x10), (.rs, 0x10), (.funct, 0x18)]
  | ei => [(.opcode, 0x10), (.rs, 0x10), (.funct, 0x38)]
  | di => [(.opcode, 0x10), (.rs, 0x10), (.funct, 0x39)]
  | fpuMove op _ _ => [(.opcode, 0x11), (.rs, op.row)]
  | fpuLoad _ _ _ => [(.opcode, 0x31)]
  | fpuStore _ _ _ => [(.opcode, 0x39)]
  | fpuArith op _ _ _ => [(.opcode, 0x11), (.rs, op.format), (.funct, op.funct)]
  | fpuCompare cond _ _ => [(.opcode, 0x11), (.rs, 0x10), (.funct, cond.funct)]
  | fpuBranch onTrue likely _ => [(.opcode, 0x11), (.rs, 0x08), (.rt, onTrue.toNat + 0x02 * likely.toNat)]
  | mmi op _ _ _ => [(.opcode, 0x1C), (.funct, op.funct), (.sa, op.row)]
  | reserved w => [(.whole, w.toNat)]

/-- The fields that hold the operands of an instruction, with their values. -/
def operandFields : Insn → List (BitField × Nat)
  | alu _ rd rs rt | shiftVar _ rd rt rs | condMove _ rd rs rt | mmi _ rd rs rt => [(.rd, rd), (.rs, rs), (.rt, rt)]
  | mulDiv op rd rs rt => if op.isMul then [(.rd, rd), (.rs, rs), (.rt, rt)] else [(.rs, rs), (.rt, rt)]
  | aluImm _ rt rs imm => [(.rt, rt), (.rs, rs), (.imm, imm.toNat)]
  | lui rt imm => [(.rt, rt), (.imm, imm.toNat)]
  | shift _ rd rt sa => [(.rd, rd), (.rt, rt), (.sa, sa)]
  | hiLo .mfhi r | hiLo .mflo r => [(.rd, r)]
  | hiLo .mthi r | hiLo .mtlo r => [(.rs, r)]
  | load _ rt base offset | store _ rt base offset => [(.rt, rt), (.rs, base), (.imm, offset.toNat)]
  | branch cond rs rt offset _ _ =>
    if cond.usesRt then [(.rs, rs), (.rt, rt), (.imm, offset.toNat)] else [(.rs, rs), (.imm, offset.toNat)]
  | jump index _ => [(.index, index.toNat)]
  | jumpReg rs none => [(.rs, rs)]
  | jumpReg rs (some rd) => [(.rs, rs), (.rd, rd)]
  | syscall code | breakpoint code => [(.code, code.toNat)]
  | cop0Move _ rt rd => [(.rt, rt), (.rd, rd)]
  | fpuMove _ rt fs => [(.rt, rt), (.rd, fs)]
  | fpuLoad ft base offset | fpuStore ft base offset => [(.rt, ft), (.rs, base), (.imm, offset.toNat)]
  | fpuArith _ fd fs ft => [(.sa, fd), (.rd, fs), (.rt, ft)]
  | fpuCompare _ fs ft => [(.rd, fs), (.rt, ft)]
  | fpuBranch _ _ offset => [(.imm, offset.toNat)]
  | nop | sync | eret | ei | di | reserved _ => []

def fields (i : Insn) : List (BitField × Nat) := i.selectors ++ i.operandFields

/-- The word of an instruction. The all-zero word stands for `nop` and not for the shift of register 0 by zero,
whose fields are all zero too: that one is told apart by a bit that no shift uses. -/
def encode (i : Insn) : Word :=
  BitField.pack (i.fields ++ if i = shift .sll 0 0 0 then [(.rs, 1)] else [])

/-- Whether the word is a cache hint or a prefetch. -/
def isHint (w : Word) : Prop := BitField.opcode.get w = 0x2F ∨ BitField.opcode.get w = 0x33

end Insn

end EmotionEngine
