import EmotionEngine.Block.Run
import EmotionEngine.Code.Site

/-!
The code of each instruction. Operands are copied from their host registers to scratch registers, and
the result is copied back at the end, so an instruction that leaves the block has changed no operand.
-/

namespace EmotionEngine

open Host (Reg Cond Helper Names arg)

/-- The guest values whose host registers the code of an instruction names, in the order in which it
names them. -/
def Insn.operands : Insn → List GuestReg
  | .mulDiv .mult rd rs rt | .mulDiv .multu rd rs rt =>
    regList [.gpr rs, .gpr rt] ++ [.hi, .lo] ++ regList [.gpr rd]
  | .condMove _ rd rs rt => regList [.gpr rt, .gpr rs, .gpr rd]
  | .fpuMove .ctc1 rt fs => if fs = 31 then regList [.gpr rt] else []
  | i => i.uses.reads ++ i.uses.writes

/-- The host condition that stands for a branch condition after comparing with its second operand. -/
def BranchCond.host : BranchCond → Cond
  | .eq => .e
  | .ne => .ne
  | .lez => .le
  | .gtz => .g
  | .ltz => .l
  | .gez => .ge

/-- The host shift, its operand size and the amount. -/
def ShiftOp.host (op : ShiftOp) (sa : Nat) : Host.ShiftOp × Bool × Nat :=
  match op with
  | .sll => (.shl, false, sa)
  | .srl => (.shr, false, sa)
  | .sra => (.sar, false, sa)
  | .dsll => (.shl, true, sa)
  | .dsrl => (.shr, true, sa)
  | .dsra => (.sar, true, sa)
  | .dsll32 => (.shl, true, sa + 32)
  | .dsrl32 => (.shr, true, sa + 32)
  | .dsra32 => (.sar, true, sa + 32)

/-- The host shift and its operand size. The host takes the amount modulo the operand size, as the
guest does. -/
def ShiftVarOp.host : ShiftVarOp → Host.ShiftOp × Bool
  | .sllv => (.shl, false)
  | .srlv => (.shr, false)
  | .srav => (.sar, false)
  | .dsllv => (.shl, true)
  | .dsrlv => (.shr, true)
  | .dsrav => (.sar, true)

namespace Code

/-- Instructions as pieces of a body. -/
def items (is : List Host.Insn) : List Item := is.map .insn

/-- The truth of a condition as a number in the first scratch register. -/
def truth (c : Cond) : List Host.Insn :=
  [.setcc c .scratch0, .extend .zeroByte .scratch0 .scratch0]

/-- From two words packed in the first scratch register, leave the low one there, sign-extended, and
the high one, sign-extended, in the third. -/
def splitHiLo : List Host.Insn :=
  [.mov true .scratch2 .scratch0, .shiftImm .sar true .scratch2 32, signExtend]

namespace Site

variable {ρ : Type} [Names ρ]

/-- Add a condition under which overflow leaves the block. -/
def trapIf (s : Site ρ) (traps : Bool) : List Item :=
  if traps then [s.fault (some .o) (some .overflow)] else []

/-- The operation on the first two scratch registers, with the result in the first. -/
def alu (s : Site ρ) (op : AluOp) : List Item :=
  let a := Reg.scratch0
  let b := Reg.scratch1
  match op with
  | .add | .addu => .insn (.arith .add false a b) :: s.trapIf op.trapsOnOverflow ++ [.insn signExtend]
  | .sub | .subu => .insn (.arith .sub false a b) :: s.trapIf op.trapsOnOverflow ++ [.insn signExtend]
  | .dadd | .daddu => .insn (.arith .add true a b) :: s.trapIf op.trapsOnOverflow
  | .dsub | .dsubu => .insn (.arith .sub true a b) :: s.trapIf op.trapsOnOverflow
  | .and => items [.arith .and true a b]
  | .or => items [.arith .or true a b]
  | .xor => items [.arith .xor true a b]
  | .nor => items [.arith .or true a b, .not true a]
  | .slt => items (.arith .cmp true a b :: truth .l)
  | .sltu => items (.arith .cmp true a b :: truth .b)

/-- The operation on the first scratch register and an immediate. -/
def aluImm (s : Site ρ) (op : AluImmOp) (imm : Half) : List Item :=
  let a := Reg.scratch0
  let signed : Word := imm.signExtend 32
  let unsigned : Word := imm.setWidth 32
  match op with
  | .addi | .addiu =>
    .insn (.arithImm .add false a signed) :: s.trapIf op.trapsOnOverflow ++ [.insn signExtend]
  | .daddi | .daddiu => .insn (.arithImm .add true a signed) :: s.trapIf op.trapsOnOverflow
  | .slti => items (.arithImm .cmp true a signed :: truth .l)
  | .sltiu => items (.arithImm .cmp true a signed :: truth .b)
  | .andi => items [.arithImm .and true a unsigned]
  | .ori => items [.arithImm .or true a unsigned]
  | .xori => items [.arithImm .xor true a unsigned]

/-- Multiply the low words of two registers; the product fits one. -/
def multiply (s : Site ρ) (widen : List Host.Insn) (rd rs rt : RegNum) : List Host.Insn :=
  [s.read .scratch0 (.gpr rs), s.read .scratch1 (.gpr rt)] ++ widen ++
    [.imul true .scratch0 .scratch1] ++ splitHiLo ++
    s.write .hi .scratch2 ++ s.write .lo .scratch0 ++ s.write (.gpr rd) .scratch0

def divide (s : Site ρ) (h : Helper) (rs rt : RegNum) : List Host.Insn :=
  [s.read (arg 0) (.gpr rs), s.read (arg 1) (.gpr rt)] ++ call h ++ splitHiLo ++
    s.write .hi .scratch2 ++ s.write .lo .scratch0

def mulDiv (s : Site ρ) (op : MulDivOp) (rd rs rt : RegNum) : List Host.Insn :=
  match op with
  | .mult =>
    s.multiply [.extend .signWord .scratch0 .scratch0, .extend .signWord .scratch1 .scratch1] rd rs rt
  | .multu => s.multiply [.mov false .scratch0 .scratch0, .mov false .scratch1 .scratch1] rd rs rt
  | .div => s.divide .div rs rt
  | .divu => s.divide .divu rs rt

/-- The address of a memory operand in the second argument register. -/
def effectiveAddr (s : Site ρ) (base : RegNum) (offset : Half) : List Host.Insn :=
  s.read (arg 1) (.gpr base) ::
    (if offset = 0 then [] else [.arithImm .add false (arg 1) (offset.signExtend 32)])

/-- The extension that a load does on the value the helper returned. -/
def extendLoad : LoadOp → List Host.Insn
  | .lb => [.extend .signByte .scratch0 .scratch0]
  | .lh => [.extend .signHalf .scratch0 .scratch0]
  | .lw => [signExtend]
  | .lbu | .lhu | .lwu | .ld | .lq => []

/-- A load. Quadwords are stored in the register file by the helper. -/
def load (s : Site ρ) (op : LoadOp) (rt base : RegNum) (offset : Half) : List Item :=
  let start := s.effectiveAddr base offset ++ [envArg]
  if op = .lq then items (start ++ [numArg 2 rt.val] ++ call (.load .quad)) ++ s.checkFault
  else
    items (start ++ call (.load op.width)) ++ s.checkFault ++
      items (extendLoad op ++ s.write (.gpr rt) .scratch0)

/-- A store. Quadwords are read from the register file by the helper. -/
def store (s : Site ρ) (op : StoreOp) (rt base : RegNum) (offset : Half) : List Item :=
  let value := if op = .sq then numArg 2 rt.val else s.read (arg 2) (.gpr rt)
  items (s.effectiveAddr base offset ++ [value, envArg] ++ call (.store op.width)) ++ s.checkStore

/-- Store where a branch goes whose condition is in the flags. -/
def outcome (s : Site ρ) (cond : Cond) (target : Word) (likely : Bool) : List Item :=
  if likely then [s.skipSlot cond.invert, .insn (setPc target)]
  else
    -- Moving a constant that may be zero could change the flags, so both targets are moved as they are.
    items
      [.movImm32 .scratch2 target, .movImm32 .rsi (s.insn.addr + 8),
       .cmov cond false .rsi .scratch2, .store false .rsi .env (offset Layout.pc)]

/-- Moves between general and floating point registers. -/
def fpuMove (s : Site ρ) (op : FpuMoveOp) (rt fs : RegNum) : List Host.Insn :=
  match op with
  | .mfc1 =>
    .loadExtend .signWord .scratch0 .env (offset (Layout.fpr fs.val)) :: s.write (.gpr rt) .scratch0
  | .mtc1 =>
    [s.read .scratch0 (.gpr rt), .store false .scratch0 .env (offset (Layout.fpr fs.val))]
  | .cfc1 =>
    (if fs = 0 then .movImm true .scratch0 (fcr0Value.setWidth 64)
      else if fs = 31 then .loadExtend .signWord .scratch0 .env (offset Layout.fcr31)
      else .clear .scratch0) :: s.write (.gpr rt) .scratch0
  | .ctc1 =>
    if fs = 31 then
      [s.read .scratch0 (.gpr rt), .arithImm .and false .scratch0 Fcr31.writable,
       .store false .scratch0 .env (offset Layout.fcr31)]
    else []

def code (s : Site ρ) : List Item :=
  let pc := s.insn.addr
  match s.insn.insn with
  | .nop | .sync => []
  | .alu op rd rs rt =>
    items [s.read .scratch0 (.gpr rs), s.read .scratch1 (.gpr rt)] ++ s.alu op ++
      items (s.write (.gpr rd) .scratch0)
  | .aluImm op rt rs imm =>
    .insn (s.read .scratch0 (.gpr rs)) :: s.aluImm op imm ++ items (s.write (.gpr rt) .scratch0)
  | .lui rt imm => items (s.writeImm rt (simm imm <<< 16))
  | .shift op rd rt sa =>
    let (x, wide, amount) := op.host sa.val
    items
      (s.read .scratch0 (.gpr rt) ::
        (if amount = 0 then [] else [.shiftImm x wide .scratch0 (BitVec.ofNat 8 amount)]) ++
        (if wide then [] else [signExtend]) ++ s.write (.gpr rd) .scratch0)
  | .shiftVar op rd rt rs =>
    let (x, wide) := op.host
    items
      ([s.read .scratch0 (.gpr rt), s.read .rcx (.gpr rs), .shiftCl x wide .scratch0] ++
        (if wide then [] else [signExtend]) ++ s.write (.gpr rd) .scratch0)
  | .mulDiv op rd rs rt => items (s.mulDiv op rd rs rt)
  | .hiLo op r =>
    let (src, dst) : GuestReg × GuestReg :=
      match op with
      | .mfhi => (.hi, .gpr r)
      | .mflo => (.lo, .gpr r)
      | .mthi => (.gpr r, .hi)
      | .mtlo => (.gpr r, .lo)
    items (s.read .scratch0 src :: s.write dst .scratch0)
  | .condMove op rd rs rt =>
    items
      ([s.read .scratch0 (.gpr rt), s.read .scratch1 (.gpr rs), s.read .scratch2 (.gpr rd),
        .test true .scratch0 .scratch0,
        .cmov (if op = .movz then .e else .ne) true .scratch2 .scratch1] ++
        s.write (.gpr rd) .scratch2)
  | .load op rt base offset => s.load op rt base offset
  | .store op rt base offset => s.store op rt base offset
  | .branch cond rs rt offset likely link =>
    -- The operands are copied before the link is written, which may be one of them.
    items
      ([s.read .scratch0 (.gpr rs), s.read .scratch1 (.gpr (if cond.usesRt then rt else 0))] ++
        (if link then s.writeImm 31 (linkValue pc) else []) ++
        [.arith .cmp true .scratch0 .scratch1]) ++
      s.outcome cond.host (branchTarget pc offset) likely
  | .fpuBranch onTrue likely target =>
    .insn (.testMemImm .env (offset Layout.fcr31) Fcr31.c) ::
      s.outcome (if onTrue then .ne else .e) (branchTarget pc target) likely
  | .jump index link =>
    items
      ((if link then s.writeImm 31 (linkValue pc) else []) ++
        [setPc (jumpTarget pc (index.setWidth 32))])
  | .jumpReg rs link =>
    -- Here too the target is copied before the link is written.
    items
      (s.read .scratch0 (.gpr rs) ::
        (match link with
         | some rd => s.writeImm rd (linkValue pc)
         | none => []) ++
        [.store false .scratch0 .env (offset Layout.pc)])
  | .syscall _ => [s.fault none (some .syscall)]
  | .breakpoint _ => [s.fault none (some .breakpoint)]
  | .reserved _ => [s.fault none (some .reservedInstruction)]
  -- Helpers that only record exceptions are followed by a check of the record; those that return whether
  -- they succeeded, by a check of what they return.
  | .cop0Move .mfc0 rt rd =>
    items ([envArg, numArg 1 rd.val] ++ call .mfc0) ++ s.checkFault ++
      items (signExtend :: s.write (.gpr rt) .scratch0)
  | .cop0Move .mtc0 rt rd =>
    items ([s.read (arg 2) (.gpr rt), envArg, numArg 1 rd.val] ++ call .mtc0) ++ s.checkDone
  | .eret => items (envArg :: call .eret) ++ s.checkDone
  | .ei => items ([envArg, numArg 1 1] ++ call .setEie) ++ s.checkDone
  | .di => items ([envArg, numArg 1 0] ++ call .setEie) ++ s.checkDone
  | .fpuMove op rt fs => items (s.fpuMove op rt fs)
  | .fpuLoad ft base disp =>
    items (s.effectiveAddr base disp ++ [envArg] ++ call (.load .word)) ++ s.checkFault ++
      items [.store false .scratch0 .env (offset (Layout.fpr ft.val))]
  | .fpuStore ft base disp =>
    items
      (s.effectiveAddr base disp ++
        [.load false (arg 2) .env (offset (Layout.fpr ft.val)), envArg] ++ call (.store .word)) ++
      s.checkStore
  | .fpuArith op fd fs ft =>
    items
      ([envArg, numArg 1 op.toNat, numArg 2 fd.val, numArg 3 fs.val, numArg 4 ft.val] ++ call .fpuArith)
  | .fpuCompare cond fs ft =>
    items ([envArg, numArg 1 cond.toNat, numArg 2 fs.val, numArg 3 ft.val] ++ call .fpuCompare)
  | .mmi op rd rs rt =>
    items ([envArg, numArg 1 op.toNat, numArg 2 rd.val, numArg 3 rs.val, numArg 4 rt.val] ++ call .mmi)

/-- The first operand that the plan does not place. -/
def missing? (s : Site ρ) : Option GuestReg :=
  s.insn.insn.operands.find? (fun g => (s.step.slot? g).isNone)

end Site

end Code

end EmotionEngine
