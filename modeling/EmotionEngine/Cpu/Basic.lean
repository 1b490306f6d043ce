import EmotionEngine.Word

/-!
The processor state. `Cpu` holds the architectural registers, the outcome fields through which a block
reports an exception, and the page range of the block that is running. Register 0 is stored like the
others and no operation here writes it, so it stays zero. The lemmas beside the accessors say what each
write does to each read.

`ExcCode` is the set of guest exceptions with their numbers in the Cause register.
-/

namespace EmotionEngine

/-- Guest exceptions. -/
inductive ExcCode where
  | interrupt
  | addressLoad
  | addressStore
  | instructionBus
  | dataBus
  | syscall
  | breakpoint
  | reservedInstruction
  | coprocessorUnusable
  | overflow
  deriving DecidableEq

namespace ExcCode

/-- The number of the exception in the Cause register. -/
def toNat : ExcCode → Nat
  | interrupt => 0
  | addressLoad => 4
  | addressStore => 5
  | instructionBus => 6
  | dataBus => 7
  | syscall => 8
  | breakpoint => 9
  | reservedInstruction => 10
  | coprocessorUnusable => 11
  | overflow => 12

/-- The exception with a given number. -/
def ofNat? : Nat → Option ExcCode
  | 0 => some interrupt
  | 4 => some addressLoad
  | 5 => some addressStore
  | 6 => some instructionBus
  | 7 => some dataBus
  | 8 => some syscall
  | 9 => some breakpoint
  | 10 => some reservedInstruction
  | 11 => some coprocessorUnusable
  | 12 => some overflow
  | _ => none

@[simp] theorem ofNat?_toNat (c : ExcCode) : ofNat? c.toNat = some c := by
  cases c <;> rfl

def toWord (c : ExcCode) : Word := BitVec.ofNat 32 c.toNat

def mnemonic : ExcCode → String
  | interrupt => "Int"
  | addressLoad => "AdEL"
  | addressStore => "AdES"
  | instructionBus => "IBE"
  | dataBus => "DBE"
  | syscall => "Sys"
  | breakpoint => "Bp"
  | reservedInstruction => "RI"
  | coprocessorUnusable => "CpU"
  | overflow => "Ov"

def name : ExcCode → String
  | interrupt => "Interrupt"
  | addressLoad => "AddressLoad"
  | addressStore => "AddressStore"
  | instructionBus => "InstructionBus"
  | dataBus => "DataBus"
  | syscall => "Syscall"
  | breakpoint => "Breakpoint"
  | reservedInstruction => "ReservedInstruction"
  | coprocessorUnusable => "CoprocessorUnusable"
  | overflow => "Overflow"

end ExcCode

/-! ## Register numbers and bits -/

namespace Cop0

def badVAddr : RegNum := 8
def count : RegNum := 9
def compare : RegNum := 11
def status : RegNum := 12
def cause : RegNum := 13
def epc : RegNum := 14
def prId : RegNum := 15
def config : RegNum := 16
def errorEpc : RegNum := 30

/-- The processor revision in the read-only identification register. -/
def prIdValue : Word := 0x2E20#32

end Cop0

namespace Status

def ie : Word := 0x00000001#32
def exl : Word := 0x00000002#32
def erl : Word := 0x00000004#32
def ksuMask : Word := 0x00000018#32
def imMask : Word := 0x0000FC00#32
def eie : Word := 0x00010000#32
def edi : Word := 0x00020000#32
def bev : Word := 0x00400000#32
def cu0 : Word := 0x10000000#32
def cu1 : Word := 0x20000000#32

end Status

namespace Cause

def excCodeMask : Word := 0x0000007C#32
def ipMask : Word := 0x0000FC00#32
/-- The two interrupt requests that software may set. -/
def softwareMask : Word := 0x00000300#32
def ipTimer : Word := 0x00008000#32
/-- The number of the coprocessor that was unusable. -/
def ceMask : Word := 0x30000000#32
def bd : Word := 0x80000000#32

end Cause

namespace Fcr31

def c : Word := 0x00800000#32
def i : Word := 0x00020000#32
def d : Word := 0x00010000#32
def o : Word := 0x00008000#32
def u : Word := 0x00004000#32
def si : Word := 0x00000040#32
def sd : Word := 0x00000020#32
def so : Word := 0x00000010#32
def su : Word := 0x00000008#32

/-- The bits that a control move may change. -/
def writable : Word := c ||| i ||| d ||| o ||| u ||| si ||| sd ||| so ||| su ||| 0x3#32

end Fcr31

/-- The read-only implementation register of the floating point unit. -/
def fcr0Value : Word := 0x2E30#32

/-- Where execution starts after reset. -/
def resetPc : Word := 0xBFC00000#32

/-! ## State -/

/-- The state of one processor. -/
structure Cpu where
  gpr : Vector Quad 32
  hi : Dword
  lo : Dword
  /-- Between blocks, the address of the next instruction. -/
  pc : Word
  fcr31 : Word
  /-- Floating point registers as raw bit patterns. -/
  fpr : Vector Word 32
  cop0 : Vector Word 32
  /-- The number of the last synchronous exception. -/
  excCode : Word
  /-- Whether its instruction sat in a delay slot. -/
  excDelaySlot : Bool
  /-- Set when an access or a privileged operation raised an exception. -/
  faultPending : Bool
  /-- The pages of the running block, first and last. -/
  blockFirst : Nat
  blockLast : Nat
  deriving DecidableEq

namespace Cpu

/-- Forget the outcome of the block before. -/
def clearExit (s : Cpu) : Cpu :=
  { s with excCode := 0, excDelaySlot := false, faultPending := false }

/-- Power-on reset: every register zero but the program counter, Status and the identification. -/
def reset (s : Cpu) : Cpu :=
  { s with
    gpr := Vector.replicate 32 0
    hi := 0
    lo := 0
    pc := resetPc
    fcr31 := 0
    fpr := Vector.replicate 32 0
    cop0 := setAt (setAt (Vector.replicate 32 0) Cop0.status (Status.erl ||| Status.bev))
      Cop0.prId Cop0.prIdValue
    excCode := 0
    excDelaySlot := false
    faultPending := false }

def new : Cpu :=
  reset
    { gpr := Vector.replicate 32 0, hi := 0, lo := 0, pc := 0, fcr31 := 0,
      fpr := Vector.replicate 32 0, cop0 := Vector.replicate 32 0, excCode := 0,
      excDelaySlot := false, faultPending := false, blockFirst := 0, blockLast := 0 }

def reg (s : Cpu) (r : RegNum) : Dword := lowHalf (s.gpr.get r)

def regQuad (s : Cpu) (r : RegNum) : Quad := s.gpr.get r

/-- Store all of register `r`, whichever it is. -/
def putQuad (s : Cpu) (r : RegNum) (v : Quad) : Cpu := { s with gpr := setAt s.gpr r v }

/-- Write the low half of `r` and keep its high half. Writes to register 0 are dropped. -/
def setReg (s : Cpu) (r : RegNum) (v : Dword) : Cpu :=
  if r = 0 then s else s.putQuad r (joinHalves (highHalf (s.regQuad r)) v)

/-- Write all of `r`. Writes to register 0 are dropped. -/
def setRegQuad (s : Cpu) (r : RegNum) (v : Quad) : Cpu :=
  if r = 0 then s else s.putQuad r v

def freg (s : Cpu) (r : RegNum) : Word := s.fpr.get r

def setFreg (s : Cpu) (r : RegNum) (v : Word) : Cpu := { s with fpr := setAt s.fpr r v }

def creg (s : Cpu) (r : RegNum) : Word := s.cop0.get r

def setCreg (s : Cpu) (r : RegNum) (v : Word) : Cpu := { s with cop0 := setAt s.cop0 r v }

theorem reg_eq (s : Cpu) (r : RegNum) : s.reg r = lowHalf (s.regQuad r) := rfl

theorem regQuad_putQuad (s : Cpu) (r r' : RegNum) (v : Quad) :
    (s.putQuad r v).regQuad r' = if r' = r then v else s.regQuad r' :=
  get_setAt s.gpr r r' v

/-- Register 0 keeps its value, every other register takes the value written to it. -/
theorem regQuad_setRegQuad (s : Cpu) (r r' : RegNum) (v : Quad) :
    (s.setRegQuad r v).regQuad r' = if r' = r ∧ r ≠ 0 then v else s.regQuad r' := by
  unfold setRegQuad
  by_cases h : r = 0
  · simp [h]
  · simp [h, regQuad_putQuad]

/-- What scalar instructions see after a scalar write. -/
theorem reg_setReg (s : Cpu) (r r' : RegNum) (v : Dword) :
    (s.setReg r v).reg r' = if r' = r ∧ r ≠ 0 then v else s.reg r' := by
  unfold setReg
  by_cases h : r = 0
  · simp [h]
  · simp only [h, if_false, reg_eq, regQuad_putQuad]
    by_cases e : r' = r <;> simp [e, h]

theorem highHalf_setReg (s : Cpu) (r r' : RegNum) (v : Dword) :
    highHalf ((s.setReg r v).regQuad r') = highHalf (s.regQuad r') := by
  unfold setReg
  by_cases h : r = 0
  · simp [h]
  · simp only [h, if_false, regQuad_putQuad]
    by_cases e : r' = r <;> simp [e]

theorem freg_setFreg (s : Cpu) (r r' : RegNum) (v : Word) :
    (s.setFreg r v).freg r' = if r' = r then v else s.freg r' :=
  get_setAt s.fpr r r' v

theorem creg_setCreg (s : Cpu) (r r' : RegNum) (v : Word) :
    (s.setCreg r v).creg r' = if r' = r then v else s.creg r' :=
  get_setAt s.cop0 r r' v

def status (s : Cpu) : Word := s.creg Cop0.status

/-- Kernel mode: no user mode is selected, or an exception or error is being handled. -/
def inKernelMode (s : Cpu) : Bool :=
  (s.status &&& Status.ksuMask) == 0 || (s.status &&& (Status.exl ||| Status.erl)) != 0

/-- Record a synchronous exception, with the address it reports if there is one. -/
def raiseFault (s : Cpu) (code : ExcCode) (badVAddr : Option Word) : Cpu :=
  let s := { s with excCode := code.toWord, faultPending := true }
  match badVAddr with
  | some a => s.setCreg Cop0.badVAddr a
  | none => s

/-- Take the architectural registers of another processor; register 0 stays zero. -/
def loadArch (s other : Cpu) : Cpu :=
  { s with
    gpr := setAt other.gpr 0 0
    hi := other.hi
    lo := other.lo
    pc := other.pc
    fcr31 := other.fcr31
    fpr := other.fpr
    cop0 := other.cop0 }

end Cpu

end EmotionEngine
