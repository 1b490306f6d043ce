import EmotionEngine.Word

/-!
Guest instructions. `Insn` is the closed set of operations that the processor knows, grouped by
format; a group's member is picked by one of the small enumerations before it. Register numbers,
shift amounts, jump indices and trap codes carry their range in their types, so no instruction can
name a register that does not exist.

The predicates at the end say how an instruction shapes a block: whether it owns a delay slot,
whether translation stops after it, whether it may sit in a delay slot, and where it can jump.
-/

namespace EmotionEngine

/-! ## Families of operations -/

/-- Three-register integer operations. -/
inductive AluOp where
  | add | addu | sub | subu | and | or | xor | nor | slt | sltu | dadd | daddu | dsub | dsubu
  deriving DecidableEq

/-- Register-immediate integer operations. -/
inductive AluImmOp where
  | addi | addiu | slti | sltiu | andi | ori | xori | daddi | daddiu
  deriving DecidableEq

/-- Shifts by a constant. -/
inductive ShiftOp where
  | sll | srl | sra | dsll | dsrl | dsra | dsll32 | dsrl32 | dsra32
  deriving DecidableEq

/-- Shifts by the low bits of a register. -/
inductive ShiftVarOp where
  | sllv | srlv | srav | dsllv | dsrlv | dsrav
  deriving DecidableEq

/-- Multiplications and divisions into HI and LO. -/
inductive MulDivOp where
  | mult | multu | div | divu
  deriving DecidableEq

/-- Moves from and to HI and LO. -/
inductive HiLoOp where
  | mfhi | mthi | mflo | mtlo
  deriving DecidableEq

/-- Moves on a register being zero, or not zero. -/
inductive CondMoveOp where
  | movz | movn
  deriving DecidableEq

inductive LoadOp where
  | lb | lh | lw | lbu | lhu | lwu | ld | lq
  deriving DecidableEq

inductive StoreOp where
  | sb | sh | sw | sd | sq
  deriving DecidableEq

/-- Branch conditions: `eq` and `ne` compare two registers, the rest compare one with zero. -/
inductive BranchCond where
  | eq | ne | lez | gtz | ltz | gez
  deriving DecidableEq

/-- Moves from and to the system control registers. -/
inductive Cop0Op where
  | mfc0 | mtc0
  deriving DecidableEq

/-- Moves from and to the floating point registers and their control registers. -/
inductive FpuMoveOp where
  | mfc1 | mtc1 | cfc1 | ctc1
  deriving DecidableEq

/-- Single-precision operations. -/
inductive FpuOp where
  | add | sub | mul | div | sqrt | abs | mov | neg | cvtWS | cvtSW
  deriving DecidableEq

/-- Single-precision comparisons; `f` is always false. -/
inductive FpuCond where
  | f | eq | lt | le
  deriving DecidableEq

/-- Operations on the lanes of a 128-bit register. -/
inductive MmiOp where
  | paddw | psubw | paddh | psubh | paddsw | psubsw | paddsh | psubsh | padduw | psubuw
  | pand | pxor | por | pnor
  deriving DecidableEq

/-! ## Numbered families

Helpers that run on behalf of compiled code receive the member of a family as its number. -/

def FpuOp.all : List FpuOp := [.add, .sub, .mul, .div, .sqrt, .abs, .mov, .neg, .cvtWS, .cvtSW]

def FpuCond.all : List FpuCond := [.f, .eq, .lt, .le]

def MmiOp.all : List MmiOp :=
  [.paddw, .psubw, .paddh, .psubh, .paddsw, .psubsw, .paddsh, .psubsh, .padduw, .psubuw,
   .pand, .pxor, .por, .pnor]

/-- The operation with a given number. -/
def FpuOp.ofNat? (n : Nat) : Option FpuOp := FpuOp.all[n]?

/-- The comparison with a given number. -/
def FpuCond.ofNat? (n : Nat) : Option FpuCond := FpuCond.all[n]?

/-- The lane operation with a given number. -/
def MmiOp.ofNat? (n : Nat) : Option MmiOp := MmiOp.all[n]?

def FpuOp.toNat : FpuOp → Nat
  | .add => 0 | .sub => 1 | .mul => 2 | .div => 3 | .sqrt => 4
  | .abs => 5 | .mov => 6 | .neg => 7 | .cvtWS => 8 | .cvtSW => 9

def FpuCond.toNat : FpuCond → Nat
  | .f => 0 | .eq => 1 | .lt => 2 | .le => 3

/-- The number of a lane operation. -/
def MmiOp.toNat : MmiOp → Nat
  | .paddw => 0 | .psubw => 1 | .paddh => 2 | .psubh => 3 | .paddsw => 4 | .psubsw => 5
  | .paddsh => 6 | .psubsh => 7 | .padduw => 8 | .psubuw => 9
  | .pand => 10 | .pxor => 11 | .por => 12 | .pnor => 13

@[simp] theorem FpuOp.ofNat?_toNat (op : FpuOp) : FpuOp.ofNat? op.toNat = some op := by
  cases op <;> rfl

@[simp] theorem FpuCond.ofNat?_toNat (c : FpuCond) : FpuCond.ofNat? c.toNat = some c := by
  cases c <;> rfl

@[simp] theorem MmiOp.ofNat?_toNat (op : MmiOp) : MmiOp.ofNat? op.toNat = some op := by
  cases op <;> rfl

/-! ## Properties of families -/

/-- Whether signed overflow raises an exception. -/
def AluOp.trapsOnOverflow : AluOp → Bool
  | .add | .sub | .dadd | .dsub => true
  | _ => false

/-- Whether signed overflow raises an exception. -/
def AluImmOp.trapsOnOverflow : AluImmOp → Bool
  | .addi | .daddi => true
  | _ => false

/-- The logical operations zero-extend their immediate; the rest sign-extend it. -/
def AluImmOp.zeroExtends : AluImmOp → Bool
  | .andi | .ori | .xori => true
  | _ => false

/-- The multiplications also write their low result to a general register. -/
def MulDivOp.isMul : MulDivOp → Bool
  | .mult | .multu => true
  | .div | .divu => false

def BranchCond.usesRt : BranchCond → Bool
  | .eq | .ne => true
  | _ => false

/-- Whether the branch is taken on these register values. -/
def BranchCond.holds (c : BranchCond) (rs rt : Dword) : Bool :=
  match c with
  | .eq => rs == rt
  | .ne => rs != rt
  | .lez => rs.sle 0
  | .gtz => (0 : Dword).slt rs
  | .ltz => rs.slt 0
  | .gez => (0 : Dword).sle rs

/-! ## Instructions -/

/-- A decoded guest instruction. -/
inductive Insn where
  | nop
  | alu (op : AluOp) (rd rs rt : RegNum)
  | aluImm (op : AluImmOp) (rt rs : RegNum) (imm : Half)
  | lui (rt : RegNum) (imm : Half)
  | shift (op : ShiftOp) (rd rt : RegNum) (sa : Fin 32)
  | shiftVar (op : ShiftVarOp) (rd rt rs : RegNum)
  | mulDiv (op : MulDivOp) (rd rs rt : RegNum)
  /-- `mfhi` and `mflo` write `reg`, `mthi` and `mtlo` read it. -/
  | hiLo (op : HiLoOp) (reg : RegNum)
  | condMove (op : CondMoveOp) (rd rs rt : RegNum)
  | load (op : LoadOp) (rt base : RegNum) (offset : Half)
  | store (op : StoreOp) (rt base : RegNum) (offset : Half)
  | branch (cond : BranchCond) (rs rt : RegNum) (offset : Half) (likely link : Bool)
  | jump (index : BitVec 26) (link : Bool)
  /-- A jump to the address in `rs`; `link` names the register for the return address, if any. -/
  | jumpReg (rs : RegNum) (link : Option RegNum)
  | syscall (code : BitVec 20)
  | breakpoint (code : BitVec 20)
  | sync
  | cop0Move (op : Cop0Op) (rt rd : RegNum)
  | eret
  | ei
  | di
  | fpuMove (op : FpuMoveOp) (rt fs : RegNum)
  | fpuLoad (ft base : RegNum) (offset : Half)
  | fpuStore (ft base : RegNum) (offset : Half)
  | fpuArith (op : FpuOp) (fd fs ft : RegNum)
  | fpuCompare (cond : FpuCond) (fs ft : RegNum)
  | fpuBranch (onTrue likely : Bool) (offset : Half)
  | mmi (op : MmiOp) (rd rs rt : RegNum)
  /-- A word that is no instruction; executing it raises an exception. -/
  | reserved (word : Word)
  deriving DecidableEq

namespace Insn

/-- Branches and jumps, each of which owns one delay slot. -/
def isControlTransfer : Insn → Bool
  | branch .. | jump .. | jumpReg .. | fpuBranch .. => true
  | _ => false

/-- Whether the next instruction executes before control moves. -/
def hasDelaySlot (i : Insn) : Bool := i.isControlTransfer

/-- Instructions after which a block must end. -/
def endsBlock : Insn → Bool
  | branch .. | jump .. | jumpReg .. | fpuBranch .. => true
  | syscall _ | breakpoint _ | eret | ei | di | cop0Move .mtc0 .. | reserved _ => true
  | _ => false

/-- Whether the instruction may sit in a delay slot. -/
def allowedInDelaySlot : Insn → Bool
  | branch .. | jump .. | jumpReg .. | fpuBranch .. => false
  | eret | ei | di | cop0Move .mtc0 .. => false
  | _ => true

end Insn

/-- Where a relative branch at `pc` goes: the offset counts words from the delay slot. -/
def branchTarget (pc : Word) (offset : Half) : Word :=
  pc + 4 + (offset.signExtend 32 <<< 2)

/-- Where a jump at `pc` goes: inside the delay slot's 256 MiB region. -/
def jumpTarget (pc index : Word) : Word :=
  ((pc + 4) &&& 0xF0000000#32) ||| (index <<< 2)

/-- The address at which an instruction at `pc` can be told to jump without running it. -/
def Insn.staticTarget (pc : Word) : Insn → Option Word
  | .branch _ _ _ offset _ _ => some (branchTarget pc offset)
  | .fpuBranch _ _ offset => some (branchTarget pc offset)
  | .jump index _ => some (jumpTarget pc (index.setWidth 32))
  | _ => none

def LoadOp.width : LoadOp → Width
  | .lb | .lbu => .byte
  | .lh | .lhu => .half
  | .lw | .lwu => .word
  | .ld => .dword
  | .lq => .quad

def StoreOp.width : StoreOp → Width
  | .sb => .byte
  | .sh => .half
  | .sw => .word
  | .sd => .dword
  | .sq => .quad

end EmotionEngine
