import EmotionEngine.Host.Decode
import EmotionEngine.Word

/-!
Host code as a disassembler sees it. The reader here goes by the opcode tables of the processor and not
by the forms that compiled code is made of: prefixes, opcode, operand byte, scaled index, displacement,
immediate. What an opcode has for operands stands in its table entry, as the width and the place of each.
The tables hold the integer instructions that move, compute, compare and transfer control; an opcode
outside them is refused.

`Insn.assembly?` says in the same terms what each host instruction is meant to be.
-/

namespace EmotionEngine.Host.Assembly

open CodeReader

/-! ## Instructions -/

/-- Instructions by name. -/
inductive Mnemonic where
  | add | or | adc | sbb | and | sub | xor | cmp
  | rol | ror | rcl | rcr | shl | shr | sar
  | test | not | neg | mul | imul | div | idiv | inc | dec
  | mov | movzx | movsx | movsxd
  | set (c : Cond) | cmov (c : Cond) | j (c : Cond)
  | jmp | call | push | pop | ret
  deriving DecidableEq

/-- What an address counts from. -/
inductive Base where
  | zero
  | reg (r : Reg)
  /-- The end of the instruction. -/
  | next
  deriving DecidableEq

/-- The address of a memory operand. The displacement is signed. -/
structure Address where
  base : Base
  /-- An index register and what it is multiplied by. -/
  index : Option (Reg × Nat)
  disp : Word
  deriving DecidableEq

/-- An address that is a register and a displacement. -/
def Address.at (r : Reg) (disp : Word) : Address := { base := .reg r, index := none, disp }

/-- Operands. -/
inductive Operand where
  /-- The low part of a register. -/
  | reg (w : Width) (r : Reg)
  /-- The second byte of a register, which four of them have. -/
  | high (r : Reg)
  | mem (w : Width) (a : Address)
  /-- A constant, of which an operation takes as much as it is wide. -/
  | imm (v : Dword)
  /-- A distance from the end of the instruction. -/
  | rel (v : Dword)
  deriving DecidableEq

/-- An instruction: its name and its operands, the one that is changed first. -/
structure Instr where
  mnemonic : Mnemonic
  operands : List Operand
  deriving DecidableEq

/-! ## Prefixes -/

/-- What the prefixes say. -/
structure Prefixes where
  /-- Operands of 16 bits. -/
  half : Bool := false
  /-- Whether there is a REX prefix, whatever its bits. -/
  rex : Bool := false
  /-- Operands of 64 bits. -/
  wide : Bool := false
  /-- The fourth bit of the register field. -/
  reg : Bool := false
  /-- The fourth bit of an index register. -/
  index : Bool := false
  /-- The fourth bit of the other register. -/
  rm : Bool := false
  deriving DecidableEq

/-- How an opcode gives the width of an operand. -/
inductive Size where
  | byte | half | word
  /-- As wide as the operation. -/
  | operand
  /-- As wide as what the stack holds. -/
  | stack
  /-- As wide as an address. -/
  | address
  deriving DecidableEq

namespace Prefixes

def width (p : Prefixes) : Size → Width
  | .byte => .byte
  | .half => .half
  | .word => .word
  | .operand => if p.wide then .dword else if p.half then .half else .word
  | .stack => if p.half && !p.wide then .half else .dword
  | .address => .dword

/-- The register of a number of three bits and its fourth bit. Where there is no REX prefix, the second
half of the byte registers are the second bytes of the first four. -/
def register (p : Prefixes) (w : Width) (fourth : Bool) (low : Nat) : Option Operand :=
  if w = .byte ∧ p.rex = false ∧ 4 ≤ low then (Reg.ofIndex? (low - 4)).map .high
  else (regOf fourth low).map (.reg w)

def withHalf? (p : Prefixes) (b : Byte) : Option Prefixes :=
  if b = 0x66#8 then some { p with half := true } else none

def withRex? (p : Prefixes) (b : Byte) : Option Prefixes :=
  if b >>> 4 = 4#8 then
    some { p with
      rex := true, wide := b.getLsbD 3, reg := b.getLsbD 2, index := b.getLsbD 1, rm := b.getLsbD 0 }
  else none

def more (p : Prefixes) (f : Prefixes → Byte → Option Prefixes) : CodeReader Prefixes := fun code =>
  match code with
  | .lit b :: rest =>
    match f p b with
    | some p => some (p, rest)
    | none => some (p, code)
  | _ => some (p, code)

end Prefixes

/-! ## Operand byte -/

/-- What the operand byte and the bytes that belong to it name besides the register field. -/
inductive Rm where
  | reg (low : Nat)
  | mem (a : Address)
  deriving DecidableEq

/-- An operand byte: the register field and the other operand. -/
structure OperandByte where
  field : Nat
  rm : Rm
  deriving DecidableEq

/-- The displacement by mode and number of the base register. -/
def displacement (mode low : Nat) : CodeReader Word :=
  if mode = 1 then shortWord
  else if mode = 2 ∨ low = 5 then word
  else return 0

/-- A base register. In the mode without displacement one number means that there is none. -/
def baseOr (none : Base) (p : Prefixes) (mode low : Nat) : Option Base :=
  if mode = 0 ∧ low = 5 then some none else (regOf p.rm low).map .reg

/-- The index register of a number, one of which means that there is none, and the scale. -/
def indexOf (p : Prefixes) (b : Byte) : Option (Option (Reg × Nat)) :=
  let low := b.toNat / 8 % 8
  if low = 4 ∧ p.index = false then some none
  else (regOf p.index low).map (fun r => some (r, twoPow (b.toNat / 64)))

def address (p : Prefixes) (mode low : Nat) : CodeReader Address :=
  if low = 4 then do
    let b ← byte
    let disp ← displacement mode (b.toNat % 8)
    let base ← ofOption (baseOr .zero p mode (b.toNat % 8))
    let index ← ofOption (indexOf p b)
    return { base, index, disp }
  else do
    let disp ← displacement mode low
    let base ← ofOption (baseOr .next p mode low)
    return { base, index := none, disp }

def OperandByte.read (p : Prefixes) : CodeReader OperandByte := do
  let b ← byte
  let mode := b.toNat / 64
  let field := b.toNat / 8 % 8
  let low := b.toNat % 8
  if mode = 3 then return { field, rm := .reg low }
  else do
    let a ← address p mode low
    return { field, rm := .mem a }

/-! ## Operands -/

/-- Where an opcode has an operand. -/
inductive Place where
  /-- Named by the operand byte: a register or memory. -/
  | rm (s : Size)
  /-- Named by the register field of the operand byte. -/
  | field (s : Size)
  /-- The register in the low bits of the opcode. -/
  | short (s : Size)
  /-- The first register. -/
  | acc (s : Size)
  /-- The low byte of the second register. -/
  | cl
  /-- The number one. -/
  | one
  /-- An unsigned byte. -/
  | count
  /-- A signed byte. -/
  | imm8
  /-- As wide as the operation, but no more than a signed word. -/
  | imm
  /-- As wide as the operation. -/
  | immFull
  /-- A distance of one byte. -/
  | rel8
  /-- A distance of four bytes. -/
  | rel32
  deriving DecidableEq

def half : CodeReader Half := do
  let b0 ← byte
  let b1 ← byte
  return BitVec.ofNat 16 (ofLeBytes [b0, b1])

def immediate (p : Prefixes) : CodeReader Operand :=
  if p.width .operand = .half then do
    let h ← half
    return .imm (h.signExtend 64)
  else do
    let w ← word
    return .imm (sextWord w)

/-- The operand at a place, behind an opcode of number `n` and the operand byte `o` if there is one. -/
def operand (p : Prefixes) (n : Nat) (o : Option OperandByte) : Place → CodeReader Operand
  | .rm s =>
    match o with
    | some { rm := .reg low, .. } => ofOption (p.register (p.width s) p.rm low)
    | some { rm := .mem a, .. } => return .mem (p.width s) a
    | none => refuse
  | .field s =>
    match o with
    | some o => ofOption (p.register (p.width s) p.reg o.field)
    | none => refuse
  | .short s => ofOption (p.register (p.width s) p.rm (n % 8))
  | .acc s => return .reg (p.width s) .rax
  | .cl => return .reg .byte .rcx
  | .one => return .imm 1
  | .count => do
    let b ← byte
    return .imm (b.setWidth 64)
  | .imm8 => do
    let w ← shortWord
    return .imm (sextWord w)
  | .imm => immediate p
  | .immFull =>
    if p.wide then do
      let v ← dword
      return .imm v
    else immediate p
  | .rel8 => do
    let w ← shortWord
    return .rel (sextWord w)
  | .rel32 => do
    let w ← word
    return .rel (sextWord w)

def operandsAt (p : Prefixes) (n : Nat) (o : Option OperandByte) : List Place → CodeReader (List Operand)
  | [] => return []
  | place :: places => do
    let x ← operand p n o place
    let xs ← operandsAt p n o places
    return x :: xs

/-! ## Opcodes -/

/-- What the tables say about an opcode. -/
inductive Entry where
  | bare (m : Mnemonic) (places : List Place)
  /-- An operand byte follows, and its register field may belong to the opcode. -/
  | coded (f : Nat → Option (Mnemonic × List Place))

namespace Entry

/-- An operand byte follows, and its register field is an operand or not used. -/
def whole (m : Mnemonic) (places : List Place) : Entry := coded fun _ => some (m, places)

def arithOf : Nat → Option Mnemonic
  | 0 => some .add | 1 => some .or | 2 => some .adc | 3 => some .sbb
  | 4 => some .and | 5 => some .sub | 6 => some .xor | 7 => some .cmp
  | _ => none

def shiftOf : Nat → Option Mnemonic
  | 0 => some .rol | 1 => some .ror | 2 => some .rcl | 3 => some .rcr
  | 4 => some .shl | 5 => some .shr | 7 => some .sar
  | _ => none

/-- The six opcodes of an arithmetic operation. -/
def arithForm (m : Mnemonic) : Nat → Option Entry
  | 0 => some (whole m [.rm .byte, .field .byte])
  | 1 => some (whole m [.rm .operand, .field .operand])
  | 2 => some (whole m [.field .byte, .rm .byte])
  | 3 => some (whole m [.field .operand, .rm .operand])
  | 4 => some (bare m [.acc .byte, .imm8])
  | 5 => some (bare m [.acc .operand, .imm])
  | _ => none

/-- The constant beside an operand. -/
def immFor : Size → Place
  | .byte => .imm8
  | _ => .imm

def arithGroup (s : Size) (constant : Place) : Entry :=
  coded fun n => (arithOf n).map (·, [.rm s, constant])

def shiftGroup (s : Size) (amount : Place) : Entry := coded fun n => (shiftOf n).map (·, [.rm s, amount])

def moveGroup (s : Size) : Entry :=
  coded fun n => if n = 0 then some (.mov, [.rm s, immFor s]) else none

/-- A test against a constant, and what works on one operand. -/
def unaryGroup (s : Size) : Entry := coded fun
  | 0 => some (.test, [.rm s, immFor s])
  | 2 => some (.not, [.rm s])
  | 3 => some (.neg, [.rm s])
  | 4 => some (.mul, [.rm s])
  | 5 => some (.imul, [.rm s])
  | 6 => some (.div, [.rm s])
  | 7 => some (.idiv, [.rm s])
  | _ => none

def byteGroup : Entry := coded fun
  | 0 => some (.inc, [.rm .byte])
  | 1 => some (.dec, [.rm .byte])
  | _ => none

/-- Counting up and down, and indirect transfers. -/
def callGroup : Entry := coded fun
  | 0 => some (.inc, [.rm .operand])
  | 1 => some (.dec, [.rm .operand])
  | 2 => some (.call, [.rm .address])
  | 4 => some (.jmp, [.rm .address])
  | 6 => some (.push, [.rm .stack])
  | _ => none

def plain? (n : Nat) : Option Entry :=
  if n < 0x40 then (arithOf (n / 8)).bind (fun m => arithForm m (n % 8))
  else if 0x50 ≤ n ∧ n < 0x58 then some (bare .push [.short .stack])
  else if 0x58 ≤ n ∧ n < 0x60 then some (bare .pop [.short .stack])
  else if 0x70 ≤ n ∧ n < 0x80 then Cond.all[n % 16]?.map (fun c => bare (.j c) [.rel8])
  else if 0xB0 ≤ n ∧ n < 0xB8 then some (bare .mov [.short .byte, .imm8])
  else if 0xB8 ≤ n ∧ n < 0xC0 then some (bare .mov [.short .operand, .immFull])
  else match n with
    | 0x63 => some (whole .movsxd [.field .operand, .rm .word])
    | 0x68 => some (bare .push [.imm])
    | 0x69 => some (whole .imul [.field .operand, .rm .operand, .imm])
    | 0x6A => some (bare .push [.imm8])
    | 0x6B => some (whole .imul [.field .operand, .rm .operand, .imm8])
    | 0x80 => some (arithGroup .byte .imm8)
    | 0x81 => some (arithGroup .operand .imm)
    | 0x83 => some (arithGroup .operand .imm8)
    | 0x84 => some (whole .test [.rm .byte, .field .byte])
    | 0x85 => some (whole .test [.rm .operand, .field .operand])
    | 0x88 => some (whole .mov [.rm .byte, .field .byte])
    | 0x89 => some (whole .mov [.rm .operand, .field .operand])
    | 0x8A => some (whole .mov [.field .byte, .rm .byte])
    | 0x8B => some (whole .mov [.field .operand, .rm .operand])
    | 0xA8 => some (bare .test [.acc .byte, .imm8])
    | 0xA9 => some (bare .test [.acc .operand, .imm])
    | 0xC0 => some (shiftGroup .byte .count)
    | 0xC1 => some (shiftGroup .operand .count)
    | 0xC3 => some (bare .ret [])
    | 0xC6 => some (moveGroup .byte)
    | 0xC7 => some (moveGroup .operand)
    | 0xD0 => some (shiftGroup .byte .one)
    | 0xD1 => some (shiftGroup .operand .one)
    | 0xD2 => some (shiftGroup .byte .cl)
    | 0xD3 => some (shiftGroup .operand .cl)
    | 0xE8 => some (bare .call [.rel32])
    | 0xE9 => some (bare .jmp [.rel32])
    | 0xEB => some (bare .jmp [.rel8])
    | 0xF6 => some (unaryGroup .byte)
    | 0xF7 => some (unaryGroup .operand)
    | 0xFE => some byteGroup
    | 0xFF => some callGroup
    | _ => none

def escaped? (n : Nat) : Option Entry :=
  if 0x40 ≤ n ∧ n < 0x50 then
    Cond.all[n % 16]?.map (fun c => whole (.cmov c) [.field .operand, .rm .operand])
  else if 0x80 ≤ n ∧ n < 0x90 then Cond.all[n % 16]?.map (fun c => bare (.j c) [.rel32])
  else if 0x90 ≤ n ∧ n < 0xA0 then Cond.all[n % 16]?.map (fun c => whole (.set c) [.rm .byte])
  else match n with
    | 0xAF => some (whole .imul [.field .operand, .rm .operand])
    | 0xB6 => some (whole .movzx [.field .operand, .rm .byte])
    | 0xB7 => some (whole .movzx [.field .operand, .rm .half])
    | 0xBE => some (whole .movsx [.field .operand, .rm .byte])
    | 0xBF => some (whole .movsx [.field .operand, .rm .half])
    | _ => none

/-- The number of an opcode and what the tables say about it. -/
def read : CodeReader (Nat × Entry) := do
  let b ← byte
  if b = 0x0F#8 then do
    let b ← byte
    let e ← ofOption (escaped? b.toNat)
    return (b.toNat, e)
  else do
    let e ← ofOption (plain? b.toNat)
    return (b.toNat, e)

/-- The instruction behind prefixes and opcode. -/
def instr (p : Prefixes) (n : Nat) : Entry → CodeReader Instr
  | bare m places => do
    let operands ← operandsAt p n none places
    return { mnemonic := m, operands }
  | coded f => do
    let o ← OperandByte.read p
    let (m, places) ← ofOption (f o.field)
    let operands ← operandsAt p n (some o) places
    return { mnemonic := m, operands }

end Entry

def unprefixed (p : Prefixes) : CodeReader Instr := do
  let (n, e) ← Entry.read
  e.instr p n

/-- The instruction at the front of code, and the code behind it. REX is the last prefix. -/
def decode : CodeReader Instr := do
  let p ← Prefixes.more {} Prefixes.withHalf?
  let p ← p.more Prefixes.withRex?
  unprefixed p

/-- All instructions of code that is nothing but instructions. -/
def listing (code : List CodeByte) : Option (List Instr) :=
  if code = [] then some []
  else
    match decode code with
    | none => none
    | some (i, rest) => if rest.length < code.length then (listing rest).map (i :: ·) else none
termination_by code.length

/-! ## Effect on registers -/

def Operand.value? (regs : Reg → Dword) (w : Width) : Operand → Option Dword
  | reg w' r => if w' = w then some (regs r) else none
  | imm v => some v
  | _ => none

/-- What an instruction of two operands computes, for those whose low bits depend on low bits alone. -/
def Mnemonic.result? (a b : Dword) : Mnemonic → Option Dword
  | mov => some b
  | add => some (a + b)
  | sub => some (a - b)
  | and => some (a &&& b)
  | or => some (a ||| b)
  | xor => some (a ^^^ b)
  | _ => none

/-- What a register holds after a result of some width is put into it. One of 32 bits clears the high
half; narrower ones keep a part of the register and are left out. -/
def filled? (v : Dword) : Width → Option Dword
  | .dword => some v
  | .word => some ((v.setWidth 32).setWidth 64)
  | _ => none

/-- The registers after an instruction on registers and constants. -/
def Instr.run? (regs : Reg → Dword) (i : Instr) : Option (Reg → Dword) :=
  match i.operands with
  | [.reg w dst, src] => do
    let b ← src.value? regs w
    let v ← i.mnemonic.result? (regs dst) b
    let v ← filled? v w
    return fun r => if r = dst then v else regs r
  | _ => none

/-- The instruction leaves a value in a register, whatever is in the registers before it, and keeps the
other registers. -/
def Instr.Leaves (i : Instr) (dst : Reg) (v : Dword) : Prop :=
  ∀ regs, ∃ regs', i.run? regs = some regs' ∧ regs' dst = v ∧ ∀ r, r ≠ dst → regs' r = regs r

end Assembly

/-! ## Host instructions -/

open Assembly

/-- The name of an arithmetic operation. -/
def ArithOp.mnemonic : ArithOp → Mnemonic
  | add => .add | or => .or | adc => .adc | sbb => .sbb
  | and => .and | sub => .sub | xor => .xor | cmp => .cmp

def ShiftOp.mnemonic : ShiftOp → Mnemonic
  | rol => .rol | ror => .ror | shl => .shl | shr => .shr | sar => .sar

namespace Extend

def mnemonic : Extend → Mnemonic
  | zeroByte => .movzx
  | signByte | signHalf => .movsx
  | signWord => .movsxd

def source : Extend → Width
  | zeroByte | signByte => .byte
  | signHalf => .half
  | signWord => .word

/-- How much of the destination is filled. -/
def target : Extend → Width
  | zeroByte => .word
  | signByte | signHalf | signWord => .dword

end Extend

namespace Insn

def width (wide : Bool) : Width := if wide then .dword else .word

/-- What an instruction is in assembly, if it may be asked for with any operands. The address of a helper
is no constant yet. The unsigned extension of a register has no prefix of its own, without which the low
bytes of four registers cannot be named. -/
def assembly? : Insn → Option Instr
  | arith o wide dst src => some ⟨o.mnemonic, [.reg (width wide) dst, .reg (width wide) src]⟩
  | arithImm o wide dst imm => some ⟨o.mnemonic, [.reg (width wide) dst, .imm (sextWord imm)]⟩
  | arithMemImm o base disp imm => some ⟨o.mnemonic, [.mem .word (.at base disp), .imm (sextWord imm)]⟩
  | not wide dst => some ⟨.not, [.reg (width wide) dst]⟩
  | shiftImm o wide dst amount => some ⟨o.mnemonic, [.reg (width wide) dst, .imm (amount.setWidth 64)]⟩
  | shiftCl o wide dst => some ⟨o.mnemonic, [.reg (width wide) dst, .reg .byte .rcx]⟩
  | mov wide dst src => some ⟨.mov, [.reg (width wide) dst, .reg (width wide) src]⟩
  | clear dst => some ⟨.xor, [.reg .word dst, .reg .word dst]⟩
  | movImm32 dst imm => some ⟨.mov, [.reg .word dst, .imm (sextWord imm)]⟩
  | movImmSigned dst imm => some ⟨.mov, [.reg .dword dst, .imm (sextWord imm)]⟩
  | movImm64 dst imm => some ⟨.mov, [.reg .dword dst, .imm imm]⟩
  | movHelper .. => none
  | extend .zeroByte .. => none
  | extend x dst src => some ⟨x.mnemonic, [.reg x.target dst, .reg x.source src]⟩
  | load wide dst base disp => some ⟨.mov, [.reg (width wide) dst, .mem (width wide) (.at base disp)]⟩
  | loadExtend x dst base disp => some ⟨x.mnemonic, [.reg x.target dst, .mem x.source (.at base disp)]⟩
  | store wide src base disp => some ⟨.mov, [.mem (width wide) (.at base disp), .reg (width wide) src]⟩
  | storeImm base disp imm => some ⟨.mov, [.mem .word (.at base disp), .imm (sextWord imm)]⟩
  | imul wide dst src => some ⟨.imul, [.reg (width wide) dst, .reg (width wide) src]⟩
  | setcc c dst => some ⟨.set c, [.reg .byte dst]⟩
  | cmov c wide dst src => some ⟨.cmov c, [.reg (width wide) dst, .reg (width wide) src]⟩
  -- A test does not tell its operands apart.
  | test wide a b => some ⟨.test, [.reg (width wide) b, .reg (width wide) a]⟩
  | testMemImm base disp imm => some ⟨.test, [.mem .word (.at base disp), .imm (sextWord imm)]⟩
  | push r => some ⟨.push, [.reg .dword r]⟩
  | pop r => some ⟨.pop, [.reg .dword r]⟩
  | call r => some ⟨.call, [.reg .dword r]⟩
  | ret => some ⟨.ret, []⟩
  | jcc c rel => some ⟨.j c, [.rel (sextWord rel)]⟩
  | jmp rel => some ⟨.jmp, [.rel (sextWord rel)]⟩

/-- All instructions but two have an assembly form. -/
theorem isSome_assembly? (i : Insn) :
    i.assembly?.isSome = true ↔
      (∀ dst h, i ≠ movHelper dst h) ∧ ∀ dst src, i ≠ extend .zeroByte dst src := by
  cases i with
  | movHelper dst h => simp [assembly?]
  | extend x dst src => cases x <;> simp [assembly?]
  | _ => simp [assembly?]

end Insn

end EmotionEngine.Host
