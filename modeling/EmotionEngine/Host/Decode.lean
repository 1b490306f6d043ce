import EmotionEngine.Host.Insn

/-!
Reading host instructions back from their bytes: prefix, opcode, operand byte, displacement and
immediate. The reader knows the forms that compiled code is made of and refuses all others. What it
reads need not be in the shortest form.

Main statement: reading an instruction takes at least one byte (`length_of_decode?`).
-/

namespace EmotionEngine.Host

/-- Reads something from the front of code; `none` if it is not there. -/
def CodeReader (α : Type) := List CodeByte → Option (α × List CodeByte)

namespace CodeReader

def give {α : Type} (a : α) : CodeReader α := fun code => some (a, code)

/-- Read nothing, and give a value if there is one. -/
def ofOption {α : Type} (o : Option α) : CodeReader α := fun code => o.map (·, code)

/-- Read one thing and then another. -/
def andThen {α β : Type} (r : CodeReader α) (f : α → CodeReader β) : CodeReader β := fun code =>
  match r code with
  | some (a, rest) => f a rest
  | none => none

instance : Monad CodeReader where
  pure := give
  bind := andThen

def refuse {α : Type} : CodeReader α := fun _ => none

def byte : CodeReader Byte
  | .lit b :: rest => some (b, rest)
  | _ => none

def word : CodeReader Word := do
  let b0 ← byte
  let b1 ← byte
  let b2 ← byte
  let b3 ← byte
  return BitVec.ofNat 32 (ofLeBytes [b0, b1, b2, b3])

def shortWord : CodeReader Word := do
  let b ← byte
  return b.signExtend 32

/-- A doubleword, its low byte first. -/
def dword : CodeReader Dword := do
  let low ← word
  let high ← word
  return high ++ low

def helper : CodeReader Helper
  | .addr h k :: rest =>
    if (CodeByte.addr h k :: rest).take 8 = CodeByte.ofHelper h then some (h, rest.drop 7) else none
  | _ => none

/-- A reader that gives back no more than it was given. -/
def Consumes {α : Type} (r : CodeReader α) : Prop :=
  ∀ code a rest, r code = some (a, rest) → rest.length ≤ code.length

theorem Consumes.pure {α : Type} (a : α) : Consumes (pure a : CodeReader α) := by
  rintro code b rest h
  cases h
  exact Nat.le_refl _

theorem Consumes.ofOption {α : Type} (o : Option α) : Consumes (ofOption o) := by
  intro code a rest h
  cases o with
  | none => cases h
  | some b =>
    cases h
    exact Nat.le_refl _

theorem Consumes.refuse {α : Type} : Consumes (refuse : CodeReader α) := by
  rintro code a rest h
  cases h

theorem Consumes.ite {α : Type} {c : Prop} [Decidable c] {r r' : CodeReader α} (hr : Consumes r)
    (hr' : Consumes r') : Consumes (if c then r else r') := by
  split
  · exact hr
  · exact hr'

theorem Consumes.bind {α β : Type} {r : CodeReader α} {f : α → CodeReader β} (hr : Consumes r)
    (hf : ∀ a, Consumes (f a)) : Consumes (r >>= f) := by
  intro code b rest h
  simp only [Bind.bind, andThen] at h
  split at h
  · next a mid hm => exact Nat.le_trans (hf a mid b rest h) (hr code a mid hm)
  · cases h

theorem length_of_byte {code : List CodeByte} {b : Byte} {rest : List CodeByte}
    (h : byte code = some (b, rest)) : rest.length < code.length := by
  unfold byte at h
  split at h
  · cases h
    exact Nat.lt_succ_self _
  · cases h

theorem Consumes.byte : Consumes byte := fun _ _ _ h => Nat.le_of_lt (length_of_byte h)

theorem Consumes.word : Consumes word :=
  .bind .byte fun _ => .bind .byte fun _ => .bind .byte fun _ => .bind .byte fun _ => .pure _

theorem Consumes.shortWord : Consumes shortWord := .bind .byte fun _ => .pure _

theorem Consumes.dword : Consumes dword := .bind .word fun _ => .bind .word fun _ => .pure _

theorem Consumes.helper : Consumes helper := by
  intro code h rest e
  unfold CodeReader.helper at e
  split at e
  · split at e
    · cases e
      simp only [List.length_drop, List.length_cons]
      omega
    · cases e
  · cases e

end CodeReader

open CodeReader

/-! ## Parts of an instruction -/

/-- The prefix that selects 64-bit operands and gives registers their fourth bit. -/
structure Rex where
  present : Bool := false
  wide : Bool := false
  reg : Bool := false
  rm : Bool := false
  deriving DecidableEq

/-- The prefix that a byte is, unless it is an opcode. An index register has no place in these forms. -/
def Rex.ofByte? (b : Byte) : Option Rex :=
  if b >>> 4 = 4#8 ∧ b.getLsbD 1 = false then
    some { present := true, wide := b.getLsbD 3, reg := b.getLsbD 2, rm := b.getLsbD 0 }
  else none

/-- The register with a given fourth bit and the low three. -/
def regOf (high : Bool) (low : Nat) : Option Reg := Reg.ofIndex? (low + if high then 8 else 0)

/-- What the second operand field names. -/
inductive Operand where
  | reg (r : Reg)
  | mem (base : Reg) (disp : Word)
  deriving DecidableEq

/-- The base register behind an operand byte, whose field may say that a byte of its own follows. -/
def baseOf (low : Nat) : CodeReader Nat :=
  if low = 4 then do
    let b ← byte
    if b.toNat / 8 % 8 = 4 then return b.toNat % 8 else refuse
  else return low

theorem CodeReader.Consumes.baseOf (low : Nat) : Consumes (baseOf low) :=
  .ite (.bind .byte fun _ => .ite (.pure _) .refuse) (.pure _)

/-- The displacement of a memory operand by mode. Without one, one base register means another form. -/
def dispOf (mode low : Nat) : CodeReader Word :=
  if mode = 1 then shortWord
  else if mode = 2 then word
  else if low = 5 then refuse
  else return 0

theorem CodeReader.Consumes.dispOf (mode low : Nat) : Consumes (dispOf mode low) :=
  .ite .shortWord (.ite .word (.ite .refuse (.pure _)))

/-- The operand byte and what belongs to it: the low bits of the register field, and the operand. -/
def operands (rex : Rex) : CodeReader (Nat × Operand) := do
  let b ← byte
  let mode := b.toNat / 64
  let field := b.toNat / 8 % 8
  let low := b.toNat % 8
  if mode = 3 then do
    let r ← ofOption (regOf rex.rm low)
    return (field, .reg r)
  else do
    let low ← baseOf low
    let disp ← dispOf mode low
    let base ← ofOption (regOf rex.rm low)
    return (field, .mem base disp)

theorem CodeReader.Consumes.operands (rex : Rex) : Consumes (operands rex) :=
  .bind .byte fun _ =>
    .ite (.bind (.ofOption _) fun _ => .pure _)
      (.bind (.baseOf _) fun _ => .bind (.dispOf _ _) fun _ => .bind (.ofOption _) fun _ => .pure _)

def regOperand (rex : Rex) : CodeReader (Reg × Operand) := do
  let (field, operand) ← operands rex
  let r ← ofOption (regOf rex.reg field)
  return (r, operand)

theorem CodeReader.Consumes.regOperand (rex : Rex) : Consumes (regOperand rex) :=
  .bind (.operands rex) fun _ => .bind (.ofOption _) fun _ => .pure _

/-- Whether a byte operand is the low byte of the register. Without a prefix, four encodings name
other bytes. -/
def namesLowByte (rex : Rex) (r : Reg) : Bool := rex.present || r.index < 4

/-! ## Forms -/

/-- An instruction on two registers. -/
def onRegs (rex : Rex) (make : Reg → Reg → Option Insn) : CodeReader Insn := do
  let (r, operand) ← regOperand rex
  match operand with
  | .reg rm => ofOption (make r rm)
  | .mem .. => refuse

theorem CodeReader.Consumes.onRegs (rex : Rex) (make : Reg → Reg → Option Insn) :
    Consumes (onRegs rex make) := by
  refine .bind (.regOperand rex) fun a => ?_
  obtain ⟨r, _ | _⟩ := a
  · exact .ofOption _
  · exact .refuse

/-- An instruction on a register and an operand. -/
def onOperand (rex : Rex) (reg : Reg → Reg → Option Insn) (mem : Reg → Reg → Word → Option Insn) :
    CodeReader Insn := do
  let (r, operand) ← regOperand rex
  match operand with
  | .reg rm => ofOption (reg r rm)
  | .mem base disp => ofOption (mem r base disp)

theorem CodeReader.Consumes.onOperand (rex : Rex) (reg : Reg → Reg → Option Insn)
    (mem : Reg → Reg → Word → Option Insn) : Consumes (onOperand rex reg mem) := by
  refine .bind (.regOperand rex) fun a => ?_
  obtain ⟨r, _ | _⟩ := a
  · exact .ofOption _
  · exact .ofOption _

def onImm (rex : Rex) (imm : CodeReader Word) : CodeReader Insn := do
  let (ext, operand) ← operands rex
  let v ← imm
  let op ← ofOption (ArithOp.ofCode? ext)
  match operand with
  | .reg rm => return .arithImm op rex.wide rm v
  | .mem base disp => if rex.wide then refuse else return .arithMemImm op base disp v

theorem CodeReader.Consumes.onImm (rex : Rex) {imm : CodeReader Word} (h : Consumes imm) :
    Consumes (onImm rex imm) := by
  refine .bind (.operands rex) fun a => .bind h fun _ => .bind (.ofOption _) fun _ => ?_
  obtain ⟨ext, _ | _⟩ := a
  · exact .pure _
  · exact .ite .refuse (.pure _)

def onShift (rex : Rex) (amount : CodeReader Byte) : CodeReader Insn := do
  let (ext, operand) ← operands rex
  let v ← amount
  let op ← ofOption (ShiftOp.ofCode? ext)
  match operand with
  | .reg rm => return .shiftImm op rex.wide rm v
  | .mem .. => refuse

theorem CodeReader.Consumes.onShift (rex : Rex) {amount : CodeReader Byte} (h : Consumes amount) :
    Consumes (onShift rex amount) := by
  refine .bind (.operands rex) fun a => .bind h fun _ => .bind (.ofOption _) fun _ => ?_
  obtain ⟨ext, _ | _⟩ := a
  · exact .pure _
  · exact .refuse

/-- A shift by the low byte of `rcx`. -/
def onShiftCl (rex : Rex) : CodeReader Insn := do
  let (ext, operand) ← operands rex
  let op ← ofOption (ShiftOp.ofCode? ext)
  match operand with
  | .reg rm => return .shiftCl op rex.wide rm
  | .mem .. => refuse

theorem CodeReader.Consumes.onShiftCl (rex : Rex) : Consumes (onShiftCl rex) := by
  refine .bind (.operands rex) fun a => .bind (.ofOption _) fun _ => ?_
  obtain ⟨ext, _ | _⟩ := a
  · exact .pure _
  · exact .refuse

/-- A constant, signed in a wide register or in memory. -/
def onStoreImm (rex : Rex) : CodeReader Insn := do
  let (ext, operand) ← operands rex
  let v ← word
  match ext, operand, rex.wide with
  | 0, .reg rm, true => return .movImmSigned rm v
  | 0, .mem base disp, false => return .storeImm base disp v
  | _, _, _ => refuse

theorem CodeReader.Consumes.onStoreImm (rex : Rex) : Consumes (onStoreImm rex) := by
  refine .bind (.operands rex) fun a => .bind .word fun _ => ?_
  obtain ⟨ext, operand⟩ := a
  dsimp only
  split
  · exact .pure _
  · exact .pure _
  · exact .refuse

/-- Complement of a register, or a test of memory. -/
def onUnary (rex : Rex) : CodeReader Insn := do
  let (ext, operand) ← operands rex
  match ext, operand, rex.wide with
  | 2, .reg rm, wide => return .not wide rm
  | 0, .mem base disp, false => do
    let v ← word
    return .testMemImm base disp v
  | _, _, _ => refuse

theorem CodeReader.Consumes.onUnary (rex : Rex) : Consumes (onUnary rex) := by
  refine .bind (.operands rex) fun a => ?_
  obtain ⟨ext, operand⟩ := a
  dsimp only
  split
  · exact .pure _
  · exact .bind .word fun _ => .pure _
  · exact .refuse

def onCall (rex : Rex) : CodeReader Insn := do
  let (ext, operand) ← operands rex
  match ext, operand with
  | 2, .reg rm => return .call rm
  | _, _ => refuse

theorem CodeReader.Consumes.onCall (rex : Rex) : Consumes (onCall rex) := by
  refine .bind (.operands rex) fun a => ?_
  obtain ⟨ext, operand⟩ := a
  dsimp only
  split
  · exact .pure _
  · exact .refuse

/-- A constant for a wide register: an address or a number. -/
def onWideConstant (r : Reg) : CodeReader Insn := fun code =>
  match helper code with
  | some (h, rest) => some (.movHelper r h, rest)
  | none => (do let v ← dword; return .movImm64 r v : CodeReader Insn) code

theorem CodeReader.Consumes.onWideConstant (r : Reg) : Consumes (onWideConstant r) := by
  intro code i rest e
  unfold Host.onWideConstant at e
  split at e
  · next h mid eh =>
    cases e
    exact Consumes.helper code h _ eh
  · exact Consumes.bind .dword (fun _ => .pure _) code i rest e

/-- A constant for the register that the opcode names. -/
def onConstant (rex : Rex) (low : Nat) : CodeReader Insn := do
  let r ← ofOption (regOf rex.rm low)
  if rex.wide then onWideConstant r
  else do
    let v ← word
    return .movImm32 r v

theorem CodeReader.Consumes.onConstant (rex : Rex) (low : Nat) : Consumes (onConstant rex low) :=
  .bind (.ofOption _) fun r => .ite (.onWideConstant r) (.bind .word fun _ => .pure _)

def onExtend (rex : Rex) (x : Extend) : CodeReader Insn :=
  if rex.wide = x.opcode.wide then
    onOperand rex
      (fun r rm =>
        if x = .signHalf ∨ x = .signWord ∨ namesLowByte rex rm then some (.extend x r rm) else none)
      (fun r base disp => some (.loadExtend x r base disp))
  else refuse

theorem CodeReader.Consumes.onExtend (rex : Rex) (x : Extend) : Consumes (onExtend rex x) :=
  .ite (.onOperand _ _ _) .refuse

/-- The instruction behind the escape byte. -/
def escaped (rex : Rex) (op : Nat) : CodeReader Insn :=
  if op / 16 = 4 then do
    let c ← ofOption Cond.all[op % 16]?
    onRegs rex (fun r rm => some (.cmov c rex.wide r rm))
  else if op / 16 = 8 then do
    let c ← ofOption Cond.all[op % 16]?
    let rel ← word
    return .jcc c rel
  else if op / 16 = 9 then do
    let c ← ofOption Cond.all[op % 16]?
    onRegs rex (fun r rm => if r.low3 = 0 ∧ namesLowByte rex rm then some (.setcc c rm) else none)
  else if op = 0xAF then onRegs rex (fun r rm => some (.imul rex.wide r rm))
  else if op = 0xB6 then onExtend rex .zeroByte
  else if op = 0xBE then onExtend rex .signByte
  else if op = 0xBF then onExtend rex .signHalf
  else refuse

theorem CodeReader.Consumes.escaped (rex : Rex) (op : Nat) : Consumes (escaped rex op) :=
  .ite (.bind (.ofOption _) fun _ => .onRegs _ _) <|
  .ite (.bind (.ofOption _) fun _ => .bind .word fun _ => .pure _) <|
  .ite (.bind (.ofOption _) fun _ => .onRegs _ _) <|
  .ite (.onRegs _ _) <| .ite (.onExtend _ _) <| .ite (.onExtend _ _) <| .ite (.onExtend _ _) .refuse

/-- The instruction with an opcode of one byte. -/
def plain (rex : Rex) (op : Nat) : CodeReader Insn :=
  if op < 0x40 ∧ op % 8 = 3 then
    onRegs rex (fun r rm => (ArithOp.ofCode? (op / 8)).map (Insn.arith · rex.wide r rm))
  else if op = 0x31 then
    onRegs rex (fun r rm => if r = rm ∧ rex.wide = false then some (.clear r) else none)
  else if 0x50 ≤ op ∧ op < 0x58 then ofOption ((regOf rex.rm (op - 0x50)).map Insn.push)
  else if 0x58 ≤ op ∧ op < 0x60 then ofOption ((regOf rex.rm (op - 0x58)).map Insn.pop)
  else if op = 0x63 then onExtend rex .signWord
  else if op = 0x81 then onImm rex word
  else if op = 0x83 then onImm rex shortWord
  else if op = 0x85 then onRegs rex (fun r rm => some (.test rex.wide r rm))
  else if op = 0x89 then
    onOperand rex (fun r rm => some (.mov rex.wide rm r))
      (fun r base disp => some (.store rex.wide r base disp))
  else if op = 0x8B then
    onOperand rex (fun r rm => some (.mov rex.wide r rm))
      (fun r base disp => some (.load rex.wide r base disp))
  else if 0xB8 ≤ op ∧ op < 0xC0 then onConstant rex (op - 0xB8)
  else if op = 0xC1 then onShift rex byte
  else if op = 0xC3 then return .ret
  else if op = 0xC7 then onStoreImm rex
  else if op = 0xD1 then onShift rex (return 1)
  else if op = 0xD3 then onShiftCl rex
  else if op = 0xE9 then do
    let rel ← word
    return .jmp rel
  else if op = 0xF7 then onUnary rex
  else if op = 0xFF then onCall rex
  else refuse

theorem CodeReader.Consumes.plain (rex : Rex) (op : Nat) : Consumes (plain rex op) :=
  .ite (.onRegs _ _) <| .ite (.onRegs _ _) <| .ite (.ofOption _) <| .ite (.ofOption _) <|
  .ite (.onExtend _ _) <| .ite (.onImm rex .word) <| .ite (.onImm rex .shortWord) <|
  .ite (.onRegs _ _) <| .ite (.onOperand _ _ _) <| .ite (.onOperand _ _ _) <| .ite (.onConstant _ _) <|
  .ite (.onShift rex .byte) <| .ite (.pure _) <| .ite (.onStoreImm rex) <|
  .ite (.onShift rex (.pure _)) <| .ite (.onShiftCl rex) <|
  .ite (.bind .word fun _ => .pure _) <| .ite (.onUnary rex) <| .ite (.onCall rex) .refuse

def opcode (rex : Rex) (op : Byte) : CodeReader Insn :=
  if op = 0x0F#8 then do
    let op ← byte
    escaped rex op.toNat
  else plain rex op.toNat

theorem CodeReader.Consumes.opcode (rex : Rex) (op : Byte) : Consumes (opcode rex op) :=
  .ite (.bind .byte fun _ => .escaped _ _) (.plain _ _)

/-- The instruction that starts with a given byte. -/
def startingWith (b : Byte) : CodeReader Insn :=
  match Rex.ofByte? b with
  | some rex => do
    let op ← byte
    opcode rex op
  | none => opcode {} b

theorem CodeReader.Consumes.startingWith (b : Byte) : Consumes (startingWith b) := by
  unfold Host.startingWith
  split
  · exact .bind .byte fun _ => .opcode _ _
  · exact .opcode _ _

/-- The instruction at the front of code, and the code behind it. -/
def Insn.decode? : CodeReader Insn := do
  let b ← byte
  startingWith b

theorem length_of_decode? {code rest : List CodeByte} {i : Insn}
    (h : Insn.decode? code = some (i, rest)) : rest.length < code.length := by
  simp only [Insn.decode?, bind, andThen] at h
  split at h
  · next b mid hb =>
    exact Nat.lt_of_le_of_lt (Consumes.startingWith b mid i rest h) (length_of_byte hb)
  · cases h

end EmotionEngine.Host
