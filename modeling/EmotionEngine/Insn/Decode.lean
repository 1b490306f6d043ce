import EmotionEngine.Insn.Basic

/-!
The instruction decoder. An instruction word carries a major opcode in its top six bits; opcodes 0,
1, 16, 17 and 28 open further tables that are selected by other fields. A word that matches no row of
the tables decodes to `Insn.reserved`, so decoding is a total function of the word.
-/

namespace EmotionEngine.Insn

/-! ## Fields -/

/-- The register field whose lowest bit is `pos`. -/
def field (w : Word) (pos : Nat) : RegNum := Fin.ofNat 32 (w.toNat / twoPow pos)

/-- Bits 21 to 25. -/
def rsOf (w : Word) : RegNum := field w 21

/-- Bits 16 to 20. -/
def rtOf (w : Word) : RegNum := field w 16

/-- Bits 11 to 15. -/
def rdOf (w : Word) : RegNum := field w 11

/-- Bits 6 to 10. -/
def saOf (w : Word) : Fin 32 := field w 6

def opcodeOf (w : Word) : Nat := w.toNat / twoPow 26

/-- The low six bits, which select a row of a function table. -/
def functOf (w : Word) : Nat := w.toNat % 64

/-- The low half, an immediate or an offset. -/
def immOf (w : Word) : Half := w.setWidth 16

/-- The trap code of a system call or a breakpoint. -/
def codeOf (w : Word) : BitVec 20 := w.extractLsb' 6 20

/-! ## Tables -/

/-- Opcode 0: register operations, selected by the function field. -/
def decodeSpecial (w : Word) : Insn :=
  let rd := rdOf w
  let rs := rsOf w
  let rt := rtOf w
  let sa := saOf w
  match functOf w with
  | 0x00 => shift .sll rd rt sa
  | 0x02 => shift .srl rd rt sa
  | 0x03 => shift .sra rd rt sa
  | 0x04 => shiftVar .sllv rd rt rs
  | 0x06 => shiftVar .srlv rd rt rs
  | 0x07 => shiftVar .srav rd rt rs
  | 0x08 => jumpReg rs none
  | 0x09 => jumpReg rs (some rd)
  | 0x0A => condMove .movz rd rs rt
  | 0x0B => condMove .movn rd rs rt
  | 0x0C => syscall (codeOf w)
  | 0x0D => breakpoint (codeOf w)
  | 0x0F => sync
  | 0x10 => hiLo .mfhi rd
  | 0x11 => hiLo .mthi rs
  | 0x12 => hiLo .mflo rd
  | 0x13 => hiLo .mtlo rs
  | 0x14 => shiftVar .dsllv rd rt rs
  | 0x16 => shiftVar .dsrlv rd rt rs
  | 0x17 => shiftVar .dsrav rd rt rs
  | 0x18 => mulDiv .mult rd rs rt
  | 0x19 => mulDiv .multu rd rs rt
  | 0x1A => mulDiv .div 0 rs rt
  | 0x1B => mulDiv .divu 0 rs rt
  | 0x20 => alu .add rd rs rt
  | 0x21 => alu .addu rd rs rt
  | 0x22 => alu .sub rd rs rt
  | 0x23 => alu .subu rd rs rt
  | 0x24 => alu .and rd rs rt
  | 0x25 => alu .or rd rs rt
  | 0x26 => alu .xor rd rs rt
  | 0x27 => alu .nor rd rs rt
  | 0x2A => alu .slt rd rs rt
  | 0x2B => alu .sltu rd rs rt
  | 0x2C => alu .dadd rd rs rt
  | 0x2D => alu .daddu rd rs rt
  | 0x2E => alu .dsub rd rs rt
  | 0x2F => alu .dsubu rd rs rt
  | 0x38 => shift .dsll rd rt sa
  | 0x3A => shift .dsrl rd rt sa
  | 0x3B => shift .dsra rd rt sa
  | 0x3C => shift .dsll32 rd rt sa
  | 0x3E => shift .dsrl32 rd rt sa
  | 0x3F => shift .dsra32 rd rt sa
  | _ => reserved w

/-- Opcode 1: branches on the sign of a register, selected by the `rt` field. -/
def decodeRegImm (w : Word) : Insn :=
  let go (cond : BranchCond) (likely link : Bool) := branch cond (rsOf w) 0 (immOf w) likely link
  match (rtOf w).val with
  | 0x00 => go .ltz false false
  | 0x01 => go .gez false false
  | 0x02 => go .ltz true false
  | 0x03 => go .gez true false
  | 0x10 => go .ltz false true
  | 0x11 => go .gez false true
  | 0x12 => go .ltz true true
  | 0x13 => go .gez true true
  | _ => reserved w

def decodeCop0 (w : Word) : Insn :=
  match (rsOf w).val with
  | 0x00 => cop0Move .mfc0 (rtOf w) (rdOf w)
  | 0x04 => cop0Move .mtc0 (rtOf w) (rdOf w)
  | 0x10 =>
    match functOf w with
    | 0x18 => eret
    | 0x38 => ei
    | 0x39 => di
    | _ => reserved w
  | _ => reserved w

/-- Single-precision arithmetic and comparison, selected by the function field. -/
def decodeSingle (w : Word) : Insn :=
  let ft := rtOf w
  let fs := rdOf w
  let fd := saOf w
  match functOf w with
  | 0x00 => fpuArith .add fd fs ft
  | 0x01 => fpuArith .sub fd fs ft
  | 0x02 => fpuArith .mul fd fs ft
  | 0x03 => fpuArith .div fd fs ft
  | 0x04 => fpuArith .sqrt fd fs ft
  | 0x05 => fpuArith .abs fd fs ft
  | 0x06 => fpuArith .mov fd fs ft
  | 0x07 => fpuArith .neg fd fs ft
  | 0x24 => fpuArith .cvtWS fd fs ft
  | 0x30 => fpuCompare .f fs ft
  | 0x32 => fpuCompare .eq fs ft
  | 0x34 => fpuCompare .lt fs ft
  | 0x36 => fpuCompare .le fs ft
  | _ => reserved w

/-- Opcode 17: the floating point unit. -/
def decodeCop1 (w : Word) : Insn :=
  let fs := rdOf w
  match (rsOf w).val with
  | 0x00 => fpuMove .mfc1 (rtOf w) fs
  | 0x02 => fpuMove .cfc1 (rtOf w) fs
  | 0x04 => fpuMove .mtc1 (rtOf w) fs
  | 0x06 => fpuMove .ctc1 (rtOf w) fs
  | 0x08 =>
    match (rtOf w).val with
    | 0 => fpuBranch false false (immOf w)
    | 1 => fpuBranch true false (immOf w)
    | 2 => fpuBranch false true (immOf w)
    | 3 => fpuBranch true true (immOf w)
    | _ => reserved w
  | 0x10 => decodeSingle w
  | 0x14 => if functOf w = 0x20 then fpuArith .cvtSW (saOf w) fs (rtOf w) else reserved w
  | _ => reserved w

/-- Opcode 28: lane operations, selected by the function and shift fields together. -/
def decodeMmi (w : Word) : Insn :=
  let go (op : MmiOp) := mmi op (rdOf w) (rsOf w) (rtOf w)
  match functOf w, (saOf w).val with
  | 0x08, 0x00 => go .paddw
  | 0x08, 0x01 => go .psubw
  | 0x08, 0x04 => go .paddh
  | 0x08, 0x05 => go .psubh
  | 0x08, 0x10 => go .paddsw
  | 0x08, 0x11 => go .psubsw
  | 0x08, 0x14 => go .paddsh
  | 0x08, 0x15 => go .psubsh
  | 0x28, 0x10 => go .padduw
  | 0x28, 0x11 => go .psubuw
  | 0x09, 0x12 => go .pand
  | 0x09, 0x13 => go .pxor
  | 0x29, 0x12 => go .por
  | 0x29, 0x13 => go .pnor
  | _, _ => reserved w

/-- The instruction that a word stands for. Cache hints and prefetches have no effect here and decode
to `nop`, as the all-zero word does. -/
def decode (w : Word) : Insn :=
  let rs := rsOf w
  let rt := rtOf w
  let imm := immOf w
  if w = 0 then nop else
  match opcodeOf w with
  | 0x00 => decodeSpecial w
  | 0x01 => decodeRegImm w
  | 0x02 => jump (w.setWidth 26) false
  | 0x03 => jump (w.setWidth 26) true
  | 0x04 => branch .eq rs rt imm false false
  | 0x05 => branch .ne rs rt imm false false
  | 0x06 => branch .lez rs 0 imm false false
  | 0x07 => branch .gtz rs 0 imm false false
  | 0x08 => aluImm .addi rt rs imm
  | 0x09 => aluImm .addiu rt rs imm
  | 0x0A => aluImm .slti rt rs imm
  | 0x0B => aluImm .sltiu rt rs imm
  | 0x0C => aluImm .andi rt rs imm
  | 0x0D => aluImm .ori rt rs imm
  | 0x0E => aluImm .xori rt rs imm
  | 0x0F => lui rt imm
  | 0x10 => decodeCop0 w
  | 0x11 => decodeCop1 w
  | 0x14 => branch .eq rs rt imm true false
  | 0x15 => branch .ne rs rt imm true false
  | 0x16 => branch .lez rs 0 imm true false
  | 0x17 => branch .gtz rs 0 imm true false
  | 0x18 => aluImm .daddi rt rs imm
  | 0x19 => aluImm .daddiu rt rs imm
  | 0x1C => decodeMmi w
  | 0x1E => load .lq rt rs imm
  | 0x1F => store .sq rt rs imm
  | 0x20 => load .lb rt rs imm
  | 0x21 => load .lh rt rs imm
  | 0x23 => load .lw rt rs imm
  | 0x24 => load .lbu rt rs imm
  | 0x25 => load .lhu rt rs imm
  | 0x27 => load .lwu rt rs imm
  | 0x28 => store .sb rt rs imm
  | 0x29 => store .sh rt rs imm
  | 0x2B => store .sw rt rs imm
  | 0x2F => nop
  | 0x31 => fpuLoad rt rs imm
  | 0x33 => nop
  | 0x37 => load .ld rt rs imm
  | 0x39 => fpuStore rt rs imm
  | 0x3F => store .sd rt rs imm
  | _ => reserved w

end EmotionEngine.Insn
