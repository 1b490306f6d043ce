import EmotionEngine.Cpu.Field
import EmotionEngine.Host.Flags
import EmotionEngine.Memory.Guest

/-!
The host while compiled code runs: its registers and flags, the guest, and the spill slots, which
together with the processor are what the code reaches through memory. Not everything about a register is
known at all times: a call leaves some registers and the flags with anything in them, and of a result of
32 bits only the low half is known. Code that runs without reading what is unknown runs the same
whatever is there.

Main statements: a register holds what was put there and the others what they held (`get_put`), and a
field what was stored there (`value_setField`).
-/

namespace EmotionEngine.Host

/-- What is known of a register. -/
inductive Content where
  | unknown
  /-- The low half. -/
  | word (w : Word)
  /-- All of it. -/
  | dword (v : Dword)
  deriving DecidableEq

namespace Content

def word? : Content → Option Word
  | unknown => none
  | word w => some w
  | dword v => some (v.setWidth 32)

def dword? : Content → Option Dword
  | dword v => some v
  | _ => none

/-- The operand of an instruction: all of the register, or its low half and zeros. -/
def operand? (wide : Bool) (c : Content) : Option Dword :=
  if wide then c.dword? else c.word?.map (·.setWidth 64)

end Content

/-- The state of the host. -/
structure State where
  regs : Vector Content 16
  /-- The flags, if they are known. -/
  flags : Option Flags
  /-- The address of the processor state. -/
  base : Dword
  guest : Guest
  /-- The spill slots by index. -/
  spill : Vector Dword GuestReg.count

namespace State

/-! ## Registers -/

def get (s : State) (r : Reg) : Content := s.regs.get r.place

def put (s : State) (r : Reg) (c : Content) : State :=
  { s with regs := setAt s.regs r.place c }

theorem get_put (s : State) (r r' : Reg) (c : Content) :
    (s.put r c).get r' = if r' = r then c else s.get r' := by
  simp only [get, put, get_setAt]
  by_cases h : r' = r
  · simp [h]
  · have : r'.place ≠ r.place := fun e => h (Reg.place_injective e)
    simp [h, this]

@[simp] theorem get_put_self (s : State) (r : Reg) (c : Content) : (s.put r c).get r = c := by
  simp [get_put]

/-- Put a known value into a register. -/
def set (s : State) (r : Reg) (v : Dword) : State := s.put r (.dword v)

def operand? (s : State) (wide : Bool) (r : Reg) : Option Dword := (s.get r).operand? wide

/-! ## Fields of the processor state -/

/-- The value of a field; those of 32 bits are zero-extended. -/
def value (s : State) : Field → Dword
  | .gpr r => s.guest.cpu.reg r
  | .gprHigh r => highHalf (s.guest.cpu.regQuad r)
  | .hi => s.guest.cpu.hi
  | .lo => s.guest.cpu.lo
  | .pc => s.guest.cpu.pc.setWidth 64
  | .fcr31 => s.guest.cpu.fcr31.setWidth 64
  | .fpr r => (s.guest.cpu.freg r).setWidth 64
  | .cop0 r => (s.guest.cpu.creg r).setWidth 64
  | .spill k => s.spill.get k
  | .excCode => s.guest.cpu.excCode.setWidth 64
  | .excDelaySlot => flag s.guest.cpu.excDelaySlot
  | .faultPending => flag s.guest.cpu.faultPending

def withCpu (s : State) (cpu : Cpu) : State := { s with guest := { s.guest with cpu } }

/-- Store a value in a field; those of 32 bits take its low half. The last two fields are truth values
and take any number but zero as true. -/
def setField (s : State) (f : Field) (v : Dword) : State :=
  let cpu := s.guest.cpu
  let w : Word := v.setWidth 32
  match f with
  | .gpr r => s.withCpu (cpu.putQuad r (joinHalves (highHalf (cpu.regQuad r)) v))
  | .gprHigh r => s.withCpu (cpu.putQuad r (joinHalves v (cpu.reg r)))
  | .hi => s.withCpu { cpu with hi := v }
  | .lo => s.withCpu { cpu with lo := v }
  | .pc => s.withCpu { cpu with pc := w }
  | .fcr31 => s.withCpu { cpu with fcr31 := w }
  | .fpr r => s.withCpu (cpu.setFreg r w)
  | .cop0 r => s.withCpu (cpu.setCreg r w)
  | .spill k => { s with spill := setAt s.spill k v }
  | .excCode => s.withCpu { cpu with excCode := w }
  | .excDelaySlot => s.withCpu { cpu with excDelaySlot := w != 0 }
  | .faultPending => s.withCpu { cpu with faultPending := w != 0 }

/-- What a field of 64 bits holds after a store to any field. -/
theorem value_setField (s : State) (f f' : Field) (v : Dword) (h : f'.wide = true) :
    (s.setField f v).value f' = if f' = f then v else s.value f' := by
  cases f' with
  | gpr r' =>
    cases f <;> simp [setField, value, withCpu, Cpu.reg_eq, Cpu.regQuad_putQuad] <;>
      grind [Cpu.reg_eq, Cpu.regQuad, Cpu.setFreg, Cpu.setCreg, lowHalf_joinHalves, highHalf_joinHalves]
  | gprHigh r' =>
    cases f <;> simp [setField, value, withCpu, Cpu.regQuad_putQuad] <;>
      grind [Cpu.reg_eq, Cpu.regQuad, Cpu.setFreg, Cpu.setCreg, lowHalf_joinHalves, highHalf_joinHalves]
  | hi => cases f <;> simp [setField, value, withCpu, Cpu.putQuad, Cpu.setFreg, Cpu.setCreg]
  | lo => cases f <;> simp [setField, value, withCpu, Cpu.putQuad, Cpu.setFreg, Cpu.setCreg]
  | spill k' => cases f <;> simp [setField, value, withCpu, get_setAt]
  | pc | fcr31 | fpr _ | cop0 _ | excCode | excDelaySlot | faultPending => simp [Field.wide] at h

/-! ## Memory operands -/

/-- The field that a memory operand is: all of it, neither more nor less. -/
def field? (s : State) (wide : Bool) (base : Reg) (disp : Word) : Option Field :=
  match (s.get base).dword? with
  | none => none
  | some a =>
    match Field.ofOffset? (a + sextWord disp - s.base).toNat with
    | some f => if f.wide = wide then some f else none
    | none => none

end State

end EmotionEngine.Host
