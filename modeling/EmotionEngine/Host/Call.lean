import EmotionEngine.Arith.Lanes
import EmotionEngine.Arith.MulDiv
import EmotionEngine.Cpu.Control
import EmotionEngine.Cpu.Float
import EmotionEngine.Host.CodeByte
import EmotionEngine.Host.State

/-!
Calls of helpers. A helper takes its arguments from registers, works on the guest and returns in one
register. A call preserves the registers that the convention says, and leaves the other registers and
the flags unknown.
-/

namespace EmotionEngine.Host

/-! ## Addresses -/

namespace Helper

def all : List Helper :=
  [load .byte, load .half, load .word, load .dword, load .quad,
   store .byte, store .half, store .word, store .dword, store .quad,
   div, divu, mfc0, mtc0, eret, setEie, fpuArith, fpuCompare, mmi]

/-- The address of a helper. Which address it is does not matter, as code does nothing with it but
call it; here it is the helper's place in the list. -/
def address (h : Helper) : Dword := BitVec.ofNat 64 (all.idxOf h)

def ofAddress? (a : Dword) : Option Helper := all[a.toNat]?

@[simp] theorem ofAddress?_address (h : Helper) : ofAddress? h.address = some h := by
  cases h with
  | load w => cases w <;> rfl
  | store w => cases w <;> rfl
  | div => rfl
  | divu => rfl
  | mfc0 => rfl
  | mtc0 => rfl
  | eret => rfl
  | setEie => rfl
  | fpuArith => rfl
  | fpuCompare => rfl
  | mmi => rfl

end Helper

/-! ## Arguments and results -/

/-- The register that a number names. -/
def regNum? (w : Word) : Option RegNum := if h : w.toNat < 32 then some ⟨w.toNat, h⟩ else none

namespace State

def wordArg? (s : State) (k : Fin 5) : Option Word := (s.get (arg k)).word?

def dwordArg? (s : State) (k : Fin 5) : Option Dword := (s.get (arg k)).dword?

/-- An argument that names a guest register. -/
def regArg? (s : State) (k : Fin 5) : Option RegNum := (s.wordArg? k).bind regNum?

/-- The guest, if the first argument is the address of its processor. -/
def guestArg? (s : State) : Option Guest :=
  if s.dwordArg? 0 = some s.base then some s.guest else none

/-- What a call leaves in the registers. -/
def forget (s : State) : State :=
  { s with
    flags := none
    regs := Vector.ofFn (fun i : Fin 16 =>
      if Reg.calleeSaved.any (fun r => r.place == i) then s.regs.get i else .unknown) }

theorem get_forget (s : State) (r : Reg) :
    s.forget.get r = if r ∈ Reg.calleeSaved then s.get r else .unknown := by
  have kept : Reg.calleeSaved.any (fun r' => r'.place == r.place) = decide (r ∈ Reg.calleeSaved) := by
    cases r <;> rfl
  have place : s.forget.get r =
      if Reg.calleeSaved.any (fun r' => r'.place == r.place) then s.get r else .unknown := by
    simp only [forget, get, get_ofFn]
  simp [place, kept]

/-- Return to the code with the guest and the result that a helper leaves. -/
def back (s : State) (g : Guest) (result : Content) : State :=
  { s with guest := g }.forget.put .rax result

end State

/-! ## Helpers -/

/-- Whether a privileged operation succeeded, as the number that its helper returns. -/
def done (ok : Bool) : Content := .word (BitVec.ofNat 32 ok.toNat)

def Helper.call (h : Helper) (s : State) : Option State :=
  match h with
  | load .quad => do
    let g ← s.guestArg?
    let addr ← s.wordArg? 1
    let rt ← s.regArg? 2
    match g.load .quad addr with
    | (some v, g) => return s.back { g with cpu := g.cpu.setRegQuad rt v } .unknown
    | (none, g) => return s.back g .unknown
  | load w => do
    let g ← s.guestArg?
    let addr ← s.wordArg? 1
    let (v, g) := g.load w addr
    return s.back g (.dword ((v.getD 0).setWidth 64))
  | store .quad => do
    let g ← s.guestArg?
    let addr ← s.wordArg? 1
    let rt ← s.regArg? 2
    let (status, g) := g.store .quad addr (g.cpu.regQuad rt)
    return s.back g (.word (BitVec.ofNat 32 status.toNat))
  | store w => do
    let g ← s.guestArg?
    let addr ← s.wordArg? 1
    let v ← s.dwordArg? 2
    let (status, g) := g.store w addr (v.setWidth 128)
    return s.back g (.word (BitVec.ofNat 32 status.toNat))
  | div => do
    let rs ← s.dwordArg? 0
    let rt ← s.dwordArg? 1
    return s.back s.guest (.dword (MulDivOp.div.eval rs rt).pack)
  | divu => do
    let rs ← s.dwordArg? 0
    let rt ← s.dwordArg? 1
    return s.back s.guest (.dword (MulDivOp.divu.eval rs rt).pack)
  | mfc0 => do
    let g ← s.guestArg?
    let rd ← s.regArg? 1
    let (v, cpu) := g.cpu.mfc0 rd
    return s.back { g with cpu } (.dword ((v.getD 0).setWidth 64))
  | mtc0 => do
    let g ← s.guestArg?
    let rd ← s.regArg? 1
    let v ← s.dwordArg? 2
    let (ok, cpu) := g.cpu.mtc0 rd (v.setWidth 32)
    return s.back { g with cpu } (done ok)
  | eret => do
    let g ← s.guestArg?
    let (ok, cpu) := g.cpu.eret
    return s.back { g with cpu } (done ok)
  | setEie => do
    let g ← s.guestArg?
    let enable ← s.wordArg? 1
    let (ok, cpu) := g.cpu.setEie (enable != 0)
    return s.back { g with cpu } (done ok)
  | fpuArith => do
    let g ← s.guestArg?
    let op ← (s.wordArg? 1).bind (fun w => FpuOp.ofNat? w.toNat)
    let fd ← s.regArg? 2
    let fs ← s.regArg? 3
    let ft ← s.regArg? 4
    return s.back { g with cpu := g.cpu.fpuArith op fd fs ft } .unknown
  | fpuCompare => do
    let g ← s.guestArg?
    let cond ← (s.wordArg? 1).bind (fun w => FpuCond.ofNat? w.toNat)
    let fs ← s.regArg? 2
    let ft ← s.regArg? 3
    return s.back { g with cpu := g.cpu.fpuCompare cond fs ft } .unknown
  | mmi => do
    let g ← s.guestArg?
    let op ← (s.wordArg? 1).bind (fun w => MmiOp.ofNat? w.toNat)
    let rd ← s.regArg? 2
    let rs ← s.regArg? 3
    let rt ← s.regArg? 4
    let v := op.eval (g.cpu.regQuad rs) (g.cpu.regQuad rt)
    return s.back { g with cpu := g.cpu.setRegQuad rd v } .unknown

end EmotionEngine.Host
