import EmotionEngine.Arith.Integer
import EmotionEngine.Arith.Lanes
import EmotionEngine.Arith.MulDiv
import EmotionEngine.Block.Basic
import EmotionEngine.Cpu.Control
import EmotionEngine.Cpu.Float
import EmotionEngine.Memory.Guest

/-!
Running blocks: the meaning of every instruction and of a whole block. An instruction changes the
processor and memory and says how control goes on (`Flow`); a block runs its instructions in order
until one of them ends it, and else ends as its terminator says. A conditional branch that is not
taken still stores the next program counter, so that after the delay slot nothing is left to decide.
-/

namespace EmotionEngine

/-- How control goes on after an instruction. -/
inductive Flow where
  | next
  /-- An exception with this code. -/
  | fault (code : ExcCode)
  /-- A likely branch was not taken, so its delay slot does not execute. -/
  | skipDelaySlot
  /-- The instruction stored the next program counter itself. -/
  | redirect
  /-- A store invalidated the running block. -/
  | codeModified
  deriving DecidableEq

/-- The register value of a loaded value. -/
def LoadOp.extend (op : LoadOp) (v : Quad) : Dword :=
  match op with
  | .lb => (v.setWidth 8).signExtend 64
  | .lh => (v.setWidth 16).signExtend 64
  | .lw => sextWord (v.setWidth 32)
  | .lbu | .lhu | .lwu | .ld | .lq => v.setWidth 64

/-- The address of a memory operand. -/
def Cpu.effectiveAddr (s : Cpu) (base : RegNum) (offset : Half) : Word :=
  (s.reg base).setWidth 32 + offset.signExtend 32

/-- The return address that a linking instruction at `pc` leaves. -/
def linkValue (pc : Word) : Dword := sextWord (pc + 8)

namespace Guest

/-! ## Parts of instructions -/

/-- The exception that was recorded in the processor. -/
def recordedFault (g : Guest) : Flow :=
  .fault ((ExcCode.ofNat? g.cpu.excCode.toNat).getD .dataBus)

def goOn (g : Guest) (cpu : Cpu) : Flow × Guest := (.next, { g with cpu })

/-- Write a result to a register, or report overflow. -/
def writeResult (g : Guest) (r : RegNum) : Option Dword → Flow × Guest
  | some v => g.goOn (g.cpu.setReg r v)
  | none => (.fault .overflow, g)

def execLoad (g : Guest) (op : LoadOp) (rt : RegNum) (addr : Word) : Flow × Guest :=
  match g.load op.width addr with
  | (some v, g) =>
    if op = .lq then g.goOn (g.cpu.setRegQuad rt v) else g.goOn (g.cpu.setReg rt (op.extend v))
  | (none, g) => (g.recordedFault, g)

/-- A load into a floating point register. -/
def execFpuLoad (g : Guest) (ft : RegNum) (addr : Word) : Flow × Guest :=
  match g.load .word addr with
  | (some v, g) => g.goOn (g.cpu.setFreg ft (v.setWidth 32))
  | (none, g) => (g.recordedFault, g)

def execStore (g : Guest) (w : Width) (addr : Word) (v : Quad) : Flow × Guest :=
  match g.store w addr v with
  | (.ok, g) => (.next, g)
  | (.fault, g) => (g.recordedFault, g)
  | (.codeModified, g) => (.codeModified, g)

def execBranch (g : Guest) (pc target : Word) (taken likely : Bool) : Flow × Guest :=
  if taken then g.goOn { g.cpu with pc := target }
  else if likely then (.skipDelaySlot, g)
  else g.goOn { g.cpu with pc := pc + 8 }

/-- Go on after a privileged operation, or with the exception it recorded. -/
def execPrivileged (g : Guest) (after : Flow) : Bool × Cpu → Flow × Guest
  | (true, cpu) => (after, { g with cpu })
  | (false, cpu) =>
    let g := { g with cpu }
    (g.recordedFault, g)

/-! ## Instructions -/

def exec (g : Guest) (i : DecodedInsn) : Flow × Guest :=
  let cpu := g.cpu
  let pc := i.addr
  match i.insn with
  | .nop | .sync => (.next, g)
  | .alu op rd rs rt => g.writeResult rd (op.eval (cpu.reg rs) (cpu.reg rt))
  | .aluImm op rt rs imm => g.writeResult rt (op.eval (cpu.reg rs) imm)
  | .lui rt imm => g.goOn (cpu.setReg rt (sextWord (imm.setWidth 32 <<< 16)))
  | .shift op rd rt sa => g.goOn (cpu.setReg rd (op.eval (cpu.reg rt) sa.val))
  | .shiftVar op rd rt rs => g.goOn (cpu.setReg rd (op.eval (cpu.reg rt) (cpu.reg rs)))
  | .mulDiv op rd rs rt =>
    let r := op.eval (cpu.reg rs) (cpu.reg rt)
    let cpu := { cpu with lo := r.lo, hi := r.hi }
    g.goOn (if op.isMul then cpu.setReg rd r.lo else cpu)
  | .hiLo .mfhi r => g.goOn (cpu.setReg r cpu.hi)
  | .hiLo .mflo r => g.goOn (cpu.setReg r cpu.lo)
  | .hiLo .mthi r => g.goOn { cpu with hi := cpu.reg r }
  | .hiLo .mtlo r => g.goOn { cpu with lo := cpu.reg r }
  | .condMove op rd rs rt =>
    let zero := cpu.reg rt == 0
    g.goOn (if zero == (op == .movz) then cpu.setReg rd (cpu.reg rs) else cpu)
  | .load op rt base offset => g.execLoad op rt (cpu.effectiveAddr base offset)
  | .store op rt base offset =>
    g.execStore op.width (cpu.effectiveAddr base offset) (cpu.regQuad rt)
  | .branch cond rs rt offset likely link =>
    -- The condition is about the registers as they were before the link.
    let taken := cond.holds (cpu.reg rs) (cpu.reg rt)
    let g := if link then { g with cpu := cpu.setReg 31 (linkValue pc) } else g
    g.execBranch pc (branchTarget pc offset) taken likely
  | .fpuBranch onTrue likely offset =>
    g.execBranch pc (branchTarget pc offset) (cpu.fpuCondition == onTrue) likely
  | .jump index link =>
    let cpu := if link then cpu.setReg 31 (linkValue pc) else cpu
    g.goOn { cpu with pc := jumpTarget pc (index.setWidth 32) }
  | .jumpReg rs link =>
    -- The target is read before the link is written.
    let target : Word := (cpu.reg rs).setWidth 32
    let cpu :=
      match link with
      | some rd => cpu.setReg rd (linkValue pc)
      | none => cpu
    g.goOn { cpu with pc := target }
  | .syscall _ => (.fault .syscall, g)
  | .breakpoint _ => (.fault .breakpoint, g)
  | .reserved _ => (.fault .reservedInstruction, g)
  | .cop0Move .mfc0 rt rd =>
    match cpu.mfc0 rd with
    | (some v, cpu) => g.goOn (cpu.setReg rt (sextWord v))
    | (none, cpu) =>
      let g := { g with cpu }
      (g.recordedFault, g)
  | .cop0Move .mtc0 rt rd => g.execPrivileged .next (cpu.mtc0 rd ((cpu.reg rt).setWidth 32))
  | .eret => g.execPrivileged .redirect cpu.eret
  | .ei => g.execPrivileged .next (cpu.setEie true)
  | .di => g.execPrivileged .next (cpu.setEie false)
  | .fpuMove .mfc1 rt fs => g.goOn (cpu.setReg rt (sextWord (cpu.freg fs)))
  | .fpuMove .mtc1 rt fs => g.goOn (cpu.setFreg fs ((cpu.reg rt).setWidth 32))
  | .fpuMove .cfc1 rt fs => g.goOn (cpu.setReg rt (sextWord (cpu.fpuControl fs.val)))
  | .fpuMove .ctc1 rt fs => g.goOn (cpu.setFpuControl fs.val ((cpu.reg rt).setWidth 32))
  | .fpuLoad ft base offset => g.execFpuLoad ft (cpu.effectiveAddr base offset)
  | .fpuStore ft base offset =>
    g.execStore .word (cpu.effectiveAddr base offset) ((cpu.freg ft).setWidth 128)
  | .fpuArith op fd fs ft => g.goOn (cpu.fpuArith op fd fs ft)
  | .fpuCompare cond fs ft => g.goOn (cpu.fpuCompare cond fs ft)
  | .mmi op rd rs rt => g.goOn (cpu.setRegQuad rd (op.eval (cpu.regQuad rs) (cpu.regQuad rt)))

/-! ## Blocks -/

/-- Record an exception taken at an instruction: one in a delay slot restarts at its branch. -/
def raiseAt (g : Guest) (i : DecodedInsn) (code : ExcCode) : Guest :=
  { g with
    cpu := { g.cpu with
      excCode := code.toWord
      pc := if i.inDelaySlot then i.addr - 4 else i.addr
      excDelaySlot := i.inDelaySlot } }

/-- Run instructions in order. Gives the exit of the instruction that ended the block, if one did. -/
def execAll (g : Guest) : List DecodedInsn → Option BlockExit × Guest
  | [] => (none, g)
  | i :: rest =>
    match g.exec i with
    | (.next, g) => g.execAll rest
    | (.fault code, g) => (some .exception, g.raiseAt i code)
    | (.skipDelaySlot, g) => (some .fallthrough, { g with cpu := { g.cpu with pc := i.addr + 8 } })
    | (.redirect, g) => (some .branch, g)
    | (.codeModified, g) =>
      -- In a delay slot the branch has stored the next program counter already.
      (some .codeModified,
        if i.inDelaySlot then g else { g with cpu := { g.cpu with pc := i.addr + 4 } })

/-- Ready to run a block: no outcome yet, and the block's pages as those to watch. -/
def enter (g : Guest) (b : Block) : Guest :=
  { g with
    cpu := { g.cpu.clearExit with blockFirst := b.firstPage, blockLast := b.lastPage } }

/-- Leave a block whose instructions have all run. -/
def leave (g : Guest) (b : Block) : BlockExit × Guest :=
  match b.terminator with
  | .fetchFault addr branchPc =>
    let cpu := g.cpu.raiseFault .instructionBus (some addr)
    (.exception,
      { g with cpu := { cpu with pc := branchPc.getD addr, excDelaySlot := branchPc.isSome } })
  | t =>
    if b.branchIndex.isSome then (.branch, g)
    else
      (if t = .system then .interrupt else .fallthrough,
        { g with cpu := { g.cpu with pc := b.fallthrough } })

end Guest

def Block.run (b : Block) (g : Guest) : BlockExit × Guest :=
  match (g.enter b).execAll b.insns with
  | (some exit, g) => (exit, g)
  | (none, g) => g.leave b

end EmotionEngine
