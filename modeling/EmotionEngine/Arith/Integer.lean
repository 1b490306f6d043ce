import EmotionEngine.Insn.Basic

/-!
Scalar integer operations on register values. Those that trap give `none` on signed overflow; 32-bit
results are sign-extended to the register's width.
-/

namespace EmotionEngine

/-- A 32-bit sum, unless it overflows. -/
def addTrap32 (a b : Word) : Option Dword :=
  if a.saddOverflow b then none else some (sextWord (a + b))

/-- A 32-bit difference, unless it overflows. -/
def subTrap32 (a b : Word) : Option Dword :=
  if a.ssubOverflow b then none else some (sextWord (a - b))

/-- A 64-bit sum, unless it overflows. -/
def addTrap64 (a b : Dword) : Option Dword :=
  if a.saddOverflow b then none else some (a + b)

/-- A 64-bit difference, unless it overflows. -/
def subTrap64 (a b : Dword) : Option Dword :=
  if a.ssubOverflow b then none else some (a - b)

/-- The result of a three-register operation; `none` means overflow. -/
def AluOp.eval (op : AluOp) (a b : Dword) : Option Dword :=
  match op with
  | .add => addTrap32 (a.setWidth 32) (b.setWidth 32)
  | .addu => some (sext32 (a + b))
  | .sub => subTrap32 (a.setWidth 32) (b.setWidth 32)
  | .subu => some (sext32 (a - b))
  | .and => some (a &&& b)
  | .or => some (a ||| b)
  | .xor => some (a ^^^ b)
  | .nor => some (~~~(a ||| b))
  | .slt => some (flag (a.slt b))
  | .sltu => some (flag (a.ult b))
  | .dadd => addTrap64 a b
  | .daddu => some (a + b)
  | .dsub => subTrap64 a b
  | .dsubu => some (a - b)

/-- The result of a register-immediate operation; `none` means overflow. -/
def AluImmOp.eval (op : AluImmOp) (a : Dword) (imm : Half) : Option Dword :=
  let s := simm imm
  let z : Dword := imm.setWidth 64
  match op with
  | .addi => addTrap32 (a.setWidth 32) (s.setWidth 32)
  | .addiu => some (sext32 (a + s))
  | .slti => some (flag (a.slt s))
  | .sltiu => some (flag (a.ult s))
  | .andi => some (a &&& z)
  | .ori => some (a ||| z)
  | .xori => some (a ^^^ z)
  | .daddi => addTrap64 a s
  | .daddiu => some (a + s)

def ShiftOp.eval (op : ShiftOp) (v : Dword) (n : Nat) : Dword :=
  let w : Word := v.setWidth 32
  match op with
  | .sll => sextWord (w <<< n)
  | .srl => sextWord (w >>> n)
  | .sra => sextWord (w.sshiftRight n)
  | .dsll => v <<< n
  | .dsrl => v >>> n
  | .dsra => v.sshiftRight n
  | .dsll32 => v <<< (n + 32)
  | .dsrl32 => v >>> (n + 32)
  | .dsra32 => v.sshiftRight (n + 32)

/-- A shift by the low five or six bits of a register. -/
def ShiftVarOp.eval (op : ShiftVarOp) (v amount : Dword) : Dword :=
  let s5 := amount.toNat % 32
  let s6 := amount.toNat % 64
  match op with
  | .sllv => ShiftOp.sll.eval v s5
  | .srlv => ShiftOp.srl.eval v s5
  | .srav => ShiftOp.sra.eval v s5
  | .dsllv => v <<< s6
  | .dsrlv => v >>> s6
  | .dsrav => v.sshiftRight s6

end EmotionEngine
