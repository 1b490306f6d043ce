import EmotionEngine.Insn.Disasm

/-!
The long form of an instruction: the name of its format with every field, numbers in decimal. Unlike
disassembly it depends on nothing but the instruction and shows every field, used or not.
-/

namespace EmotionEngine

/-- The name of a floating point operation. -/
def FpuOp.name : FpuOp → String
  | .add => "Add" | .sub => "Sub" | .mul => "Mul" | .div => "Div" | .sqrt => "Sqrt"
  | .abs => "Abs" | .mov => "Mov" | .neg => "Neg" | .cvtWS => "CvtWS" | .cvtSW => "CvtSW"

/-- The name of a floating point condition. -/
def FpuCond.name : FpuCond → String
  | .f => "F" | .eq => "Eq" | .lt => "Lt" | .le => "Le"

def MmiOp.name (op : MmiOp) : String := Text.capitalize op.mnemonic

/-- The long form of a guest register. -/
def GuestReg.describe : GuestReg → String
  | .gpr n => "Gpr(" ++ toString n.val ++ ")"
  | .hi => "Hi"
  | .lo => "Lo"

/-- The long form of a set: its members in index order. -/
def RegSet.describe (s : RegSet) : String :=
  "\x7b" ++ ", ".intercalate (s.toList.map GuestReg.describe) ++ "\x7d"

/-- The long form of a value that may be absent. -/
def describeOption (o : Option String) : String :=
  match o with
  | some s => "Some(" ++ s ++ ")"
  | none => "None"

namespace Insn

/-- A field that names the member of a family. -/
def opField (mnemonic : String) : String × String := ("op", Text.capitalize mnemonic)

/-- A field that holds a register number or a shift amount. -/
def numField (name : String) (r : RegNum) : String × String := (name, toString r.val)

/-- A field that holds a truth value. -/
def boolField (name : String) (b : Bool) : String × String := (name, toString b)

/-- The signed offset of a branch or a memory operand. -/
def offsetField (i : Half) : String × String := ("offset", signed i)

def describe : Insn → String
  | nop => "Nop"
  | alu op rd rs rt =>
    Text.record "Alu" [opField op.mnemonic, numField "rd" rd, numField "rs" rs, numField "rt" rt]
  | aluImm op rt rs imm =>
    Text.record "AluImm"
      [opField op.mnemonic, numField "rt" rt, numField "rs" rs, ("imm", toString imm.toNat)]
  | lui rt imm => Text.record "Lui" [numField "rt" rt, ("imm", toString imm.toNat)]
  | shift op rd rt sa =>
    Text.record "Shift" [opField op.mnemonic, numField "rd" rd, numField "rt" rt, numField "sa" sa]
  | shiftVar op rd rt rs =>
    Text.record "ShiftVar"
      [opField op.mnemonic, numField "rd" rd, numField "rt" rt, numField "rs" rs]
  | mulDiv op rd rs rt =>
    Text.record "MulDiv" [opField op.mnemonic, numField "rd" rd, numField "rs" rs, numField "rt" rt]
  | hiLo op r => Text.record "HiLo" [opField op.mnemonic, numField "reg" r]
  | condMove op rd rs rt =>
    Text.record "CondMove"
      [opField op.mnemonic, numField "rd" rd, numField "rs" rs, numField "rt" rt]
  | load op rt base offset =>
    Text.record "Load"
      [opField op.mnemonic, numField "rt" rt, numField "base" base, offsetField offset]
  | store op rt base offset =>
    Text.record "Store"
      [opField op.mnemonic, numField "rt" rt, numField "base" base, offsetField offset]
  | branch cond rs rt offset likely link =>
    Text.record "Branch"
      [("cond", Text.capitalize cond.suffix), numField "rs" rs, numField "rt" rt,
       offsetField offset, boolField "likely" likely, boolField "link" link]
  | jump index link =>
    Text.record "Jump" [("index", toString index.toNat), boolField "link" link]
  | jumpReg rs link =>
    Text.record "JumpReg"
      [numField "rs" rs, ("link", describeOption (link.map (fun r => toString r.val)))]
  | syscall code => Text.record "Syscall" [("code", toString code.toNat)]
  | breakpoint code => Text.record "Break" [("code", toString code.toNat)]
  | sync => "Sync"
  | cop0Move op rt rd =>
    Text.record "Cop0Move" [opField op.mnemonic, numField "rt" rt, numField "rd" rd]
  | eret => "Eret"
  | ei => "Ei"
  | di => "Di"
  | fpuMove op rt fs =>
    Text.record "FpuMove" [opField op.mnemonic, numField "rt" rt, numField "fs" fs]
  | fpuLoad ft base offset =>
    Text.record "FpuLoad" [numField "ft" ft, numField "base" base, offsetField offset]
  | fpuStore ft base offset =>
    Text.record "FpuStore" [numField "ft" ft, numField "base" base, offsetField offset]
  | fpuArith op fd fs ft =>
    Text.record "FpuArith" [("op", op.name), numField "fd" fd, numField "fs" fs, numField "ft" ft]
  | fpuCompare cond fs ft =>
    Text.record "FpuCompare" [("cond", cond.name), numField "fs" fs, numField "ft" ft]
  | fpuBranch onTrue likely offset =>
    Text.record "FpuBranch"
      [boolField "on_true" onTrue, boolField "likely" likely, offsetField offset]
  | mmi op rd rs rt =>
    Text.record "Mmi" [("op", op.name), numField "rd" rd, numField "rs" rs, numField "rt" rt]
  | reserved word => Text.record "Reserved" [("word", toString word.toNat)]

end Insn

end EmotionEngine
