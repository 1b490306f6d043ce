import EmotionEngine.Host.Call
import EmotionEngine.Host.Decode

/-!
Running host code. `Insn.step` is the meaning of one instruction; `run` reads instructions from the
front of code and runs them until one returns. Compiled code never jumps back, so what lies behind an
instruction is all that can still run, and every run ends. A run that reads what is unknown, leaves the
fields of the processor state or reaches an instruction that compiled blocks do not have is stuck, and
gives `none`.
-/

namespace EmotionEngine.Host

/-- Where control goes after an instruction. -/
inductive Control where
  | next
  /-- Over a distance from the end of the instruction. -/
  | jump (rel : Word)
  /-- Back to the caller. -/
  | ret
  deriving DecidableEq

namespace State

/-- Compute with two operands: the result, and the state with new flags. -/
def arith? (s : State) (op : ArithOp) (wide : Bool) (a b : Dword) : Option (Dword × State) := do
  let carry ← if op.usesCarry then s.flags.map Flags.carry else some false
  let (r, f) := op.apply wide carry a b
  return (r, { s with flags := some f })

/-- Compute with a register as first operand, which takes the result if there is one to keep. -/
def arithReg? (s : State) (op : ArithOp) (wide : Bool) (dst : Reg) (b : Dword) : Option State := do
  let a ← s.operand? wide dst
  let (r, s) ← s.arith? op wide a b
  return if op.keeps then s.set dst r else s

def testFlags (s : State) (wide : Bool) (a b : Dword) : State :=
  { s with flags := some (ArithOp.and.apply wide false a b).2 }

/-- Shift a register. A shift by nothing keeps the flags; after any other they are not relied on. -/
def shift? (s : State) (op : ShiftOp) (wide : Bool) (dst : Reg) (amount : Byte) : Option State := do
  let a ← s.operand? wide dst
  let k := ShiftOp.places wide amount
  let s := if k = 0 then s else { s with flags := none }
  return s.set dst (op.apply wide a k)

def holds? (s : State) (c : Cond) : Option Bool := s.flags.map c.holds

/-- Copy one operand to another register. -/
def move? (s : State) (wide : Bool) (dst src : Reg) : Option State := do
  let v ← s.operand? wide src
  return s.set dst v

end State

/-- The extension of a value that is known up to its low half. -/
def Extend.apply (x : Extend) (w : Word) : Dword :=
  match x with
  | zeroByte => (w.setWidth 8).setWidth 64
  | signByte => (w.setWidth 8).signExtend 64
  | signHalf => (w.setWidth 16).signExtend 64
  | signWord => w.signExtend 64

namespace Insn

/-- What an instruction that does not transfer control does. -/
def perform (i : Insn) (s : State) : Option State :=
  match i with
  | arith op wide dst src => do
    let b ← s.operand? wide src
    s.arithReg? op wide dst b
  | arithImm op wide dst imm => s.arithReg? op wide dst (sextWord imm)
  | arithMemImm op base disp imm => do
    let f ← s.field? false base disp
    let (r, s) ← s.arith? op false (s.value f) (sextWord imm)
    return if op.keeps then s.setField f r else s
  | not wide dst => do
    let a ← s.operand? wide dst
    return s.set dst (if wide then ~~~a else (~~~(a.setWidth 32 : Word)).setWidth 64)
  | shiftImm op wide dst amount => s.shift? op wide dst amount
  | shiftCl op wide dst => do
    let c ← s.operand? false .rcx
    s.shift? op wide dst (c.setWidth 8)
  | mov wide dst src => s.move? wide dst src
  | clear dst => some ((s.testFlags false 0 0).set dst 0)
  | movImm32 dst imm => some (s.set dst (imm.setWidth 64))
  | movImmSigned dst imm => some (s.set dst (sextWord imm))
  | movImm64 dst imm => some (s.set dst imm)
  | movHelper dst h => some (s.set dst h.address)
  | extend x dst src => do
    let w ← (s.get src).word?
    return s.set dst (x.apply w)
  | load wide dst base disp => do
    let f ← s.field? wide base disp
    return s.set dst (s.value f)
  | loadExtend x dst base disp => do
    let f ← if x = .signWord then s.field? false base disp else none
    return s.set dst (x.apply ((s.value f).setWidth 32))
  | store wide src base disp => do
    let v ← s.operand? wide src
    let f ← s.field? wide base disp
    return s.setField f v
  | storeImm base disp imm => do
    let f ← s.field? false base disp
    return s.setField f (imm.setWidth 64)
  | imul wide dst src => do
    let a ← s.operand? wide dst
    let b ← s.operand? wide src
    let r := if wide then a * b else ((a * b).setWidth 32).setWidth 64
    return { s with flags := none }.set dst r
  | setcc c dst => do
    let v ← s.operand? true dst
    let holds ← s.holds? c
    -- Only the low byte changes.
    return s.set dst (v &&& ~~~0xFF#64 ||| flag holds)
  | cmov c wide dst src => do
    -- Also when the condition fails, an operand of 32 bits clears the high half.
    let old ← s.operand? wide dst
    let new ← s.operand? wide src
    let holds ← s.holds? c
    return s.set dst (if holds then new else old)
  | test wide a b => do
    let x ← s.operand? wide a
    let y ← s.operand? wide b
    return s.testFlags wide x y
  | testMemImm base disp imm => do
    let f ← s.field? false base disp
    return s.testFlags false (s.value f) (imm.setWidth 64)
  | call r => do
    let a ← s.operand? true r
    let h ← Helper.ofAddress? a
    h.call s
  | push _ | pop _ | ret | jcc .. | jmp _ => none

/-- One instruction. -/
def step (i : Insn) (s : State) : Option (Control × State) :=
  match i with
  | ret => some (.ret, s)
  | jmp rel => some (.jump rel, s)
  | jcc c rel => (s.holds? c).map (fun holds => (if holds then .jump rel else .next, s))
  | i => (i.perform s).map (Control.next, ·)

end Insn

/-- Run code until it returns. -/
def run (code : List CodeByte) (s : State) : Option State :=
  match _h : Insn.decode? code with
  | none => none
  | some (i, rest) =>
    match i.step s with
    | none => none
    | some (.ret, s) => some s
    | some (.next, s) => run rest s
    | some (.jump rel, s) => run (rest.drop rel.toNat) s
termination_by code.length
decreasing_by
  · exact length_of_decode? _h
  · have := length_of_decode? _h
    simp only [List.length_drop]
    omega

end EmotionEngine.Host
