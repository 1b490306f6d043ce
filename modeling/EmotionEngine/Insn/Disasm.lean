import EmotionEngine.Insn.Uses
import EmotionEngine.Text.Number

/-!
Disassembly. An instruction is written as its mnemonic, padded to eight columns, and its operands;
branch and jump targets are absolute addresses, so the text depends on where the instruction lies.
-/

namespace EmotionEngine

/-! ## Mnemonics -/

def AluOp.mnemonic : AluOp → String
  | .add => "add" | .addu => "addu" | .sub => "sub" | .subu => "subu"
  | .and => "and" | .or => "or" | .xor => "xor" | .nor => "nor"
  | .slt => "slt" | .sltu => "sltu"
  | .dadd => "dadd" | .daddu => "daddu" | .dsub => "dsub" | .dsubu => "dsubu"

def AluImmOp.mnemonic : AluImmOp → String
  | .addi => "addi" | .addiu => "addiu" | .slti => "slti" | .sltiu => "sltiu"
  | .andi => "andi" | .ori => "ori" | .xori => "xori"
  | .daddi => "daddi" | .daddiu => "daddiu"

def ShiftOp.mnemonic : ShiftOp → String
  | .sll => "sll" | .srl => "srl" | .sra => "sra"
  | .dsll => "dsll" | .dsrl => "dsrl" | .dsra => "dsra"
  | .dsll32 => "dsll32" | .dsrl32 => "dsrl32" | .dsra32 => "dsra32"

def ShiftVarOp.mnemonic : ShiftVarOp → String
  | .sllv => "sllv" | .srlv => "srlv" | .srav => "srav"
  | .dsllv => "dsllv" | .dsrlv => "dsrlv" | .dsrav => "dsrav"

def MulDivOp.mnemonic : MulDivOp → String
  | .mult => "mult" | .multu => "multu" | .div => "div" | .divu => "divu"

def HiLoOp.mnemonic : HiLoOp → String
  | .mfhi => "mfhi" | .mthi => "mthi" | .mflo => "mflo" | .mtlo => "mtlo"

def CondMoveOp.mnemonic : CondMoveOp → String
  | .movz => "movz" | .movn => "movn"

def LoadOp.mnemonic : LoadOp → String
  | .lb => "lb" | .lh => "lh" | .lw => "lw" | .lbu => "lbu" | .lhu => "lhu" | .lwu => "lwu"
  | .ld => "ld" | .lq => "lq"

def StoreOp.mnemonic : StoreOp → String
  | .sb => "sb" | .sh => "sh" | .sw => "sw" | .sd => "sd" | .sq => "sq"

/-- The condition as it stands in a branch's mnemonic. -/
def BranchCond.suffix : BranchCond → String
  | .eq => "eq" | .ne => "ne" | .lez => "lez" | .gtz => "gtz" | .ltz => "ltz" | .gez => "gez"

/-- The mnemonic of a branch: linking branches end in `al`, likely ones in `l`. -/
def BranchCond.mnemonic (c : BranchCond) (likely link : Bool) : String :=
  "b" ++ c.suffix ++ (if link then "al" else "") ++ (if likely then "l" else "")

def Cop0Op.mnemonic : Cop0Op → String
  | .mfc0 => "mfc0" | .mtc0 => "mtc0"

def FpuMoveOp.mnemonic : FpuMoveOp → String
  | .mfc1 => "mfc1" | .mtc1 => "mtc1" | .cfc1 => "cfc1" | .ctc1 => "ctc1"

def FpuOp.mnemonic : FpuOp → String
  | .add => "add.s" | .sub => "sub.s" | .mul => "mul.s" | .div => "div.s" | .sqrt => "sqrt.s"
  | .abs => "abs.s" | .mov => "mov.s" | .neg => "neg.s"
  | .cvtWS => "cvt.w.s" | .cvtSW => "cvt.s.w"

def FpuCond.mnemonic : FpuCond → String
  | .f => "c.f.s" | .eq => "c.eq.s" | .lt => "c.lt.s" | .le => "c.le.s"

/-- The mnemonic of a branch on the condition bit. -/
def fpuBranchMnemonic (onTrue likely : Bool) : String :=
  "bc1" ++ (if onTrue then "t" else "f") ++ (if likely then "l" else "")

def MmiOp.mnemonic : MmiOp → String
  | .paddw => "paddw" | .psubw => "psubw" | .paddh => "paddh" | .psubh => "psubh"
  | .paddsw => "paddsw" | .psubsw => "psubsw" | .paddsh => "paddsh" | .psubsh => "psubsh"
  | .padduw => "padduw" | .psubuw => "psubuw"
  | .pand => "pand" | .pxor => "pxor" | .por => "por" | .pnor => "pnor"

/-! ## Operands -/

namespace Insn

def line (mnemonic : String) (operands : List String) : String :=
  Text.padRight 8 mnemonic ++ ", ".intercalate operands

def reg (r : RegNum) : String := gprName r

/-- A floating point register operand. -/
def freg (r : RegNum) : String := "$f" ++ toString r.val

def creg (r : RegNum) : String := "$" ++ toString r.val

def signed (i : Half) : String := toString i.toInt

/-- A memory operand: offset and base register. -/
def memory (offset : Half) (base : RegNum) : String := signed offset ++ "(" ++ reg base ++ ")"

def target (a : Word) : String := Text.addr a.toNat

/-- The instruction's text at address `pc`. -/
def disasm (pc : Word) : Insn → String
  | nop => "nop"
  | alu op rd rs rt => line op.mnemonic [reg rd, reg rs, reg rt]
  | aluImm op rt rs imm =>
    line op.mnemonic
      [reg rt, reg rs, if op.zeroExtends then Text.size imm.toNat else signed imm]
  | lui rt imm => line "lui" [reg rt, Text.size imm.toNat]
  | shift op rd rt sa => line op.mnemonic [reg rd, reg rt, toString sa.val]
  | shiftVar op rd rt rs => line op.mnemonic [reg rd, reg rt, reg rs]
  | mulDiv op rd rs rt =>
    line op.mnemonic (if op.isMul then [reg rd, reg rs, reg rt] else [reg rs, reg rt])
  | hiLo op r => line op.mnemonic [reg r]
  | condMove op rd rs rt => line op.mnemonic [reg rd, reg rs, reg rt]
  | load op rt base offset => line op.mnemonic [reg rt, memory offset base]
  | store op rt base offset => line op.mnemonic [reg rt, memory offset base]
  | branch cond rs rt offset likely link =>
    let goal := target (branchTarget pc offset)
    line (cond.mnemonic likely link)
      (if cond.usesRt then [reg rs, reg rt, goal] else [reg rs, goal])
  | jump index link =>
    line (if link then "jal" else "j") [target (jumpTarget pc (index.setWidth 32))]
  | jumpReg rs (some rd) => line "jalr" [reg rd, reg rs]
  | jumpReg rs none => line "jr" [reg rs]
  | syscall code => line "syscall" [Text.size code.toNat]
  | breakpoint code => line "break" [Text.size code.toNat]
  | sync => "sync"
  | cop0Move op rt rd => line op.mnemonic [reg rt, creg rd]
  | eret => "eret"
  | ei => "ei"
  | di => "di"
  | fpuMove .mfc1 rt fs => line "mfc1" [reg rt, freg fs]
  | fpuMove .mtc1 rt fs => line "mtc1" [reg rt, freg fs]
  | fpuMove op rt fs => line op.mnemonic [reg rt, creg fs]
  | fpuLoad ft base offset => line "lwc1" [freg ft, memory offset base]
  | fpuStore ft base offset => line "swc1" [freg ft, memory offset base]
  | fpuArith op fd fs ft =>
    line op.mnemonic
      (match op with
       | .add | .sub | .mul | .div => [freg fd, freg fs, freg ft]
       | .sqrt => [freg fd, freg ft]
       | _ => [freg fd, freg fs])
  | fpuCompare cond fs ft => line cond.mnemonic [freg fs, freg ft]
  | fpuBranch onTrue likely offset =>
    line (fpuBranchMnemonic onTrue likely) [target (branchTarget pc offset)]
  | mmi op rd rs rt => line op.mnemonic [reg rd, reg rs, reg rt]
  | reserved word => line ".word" [target word]

end Insn

end EmotionEngine
