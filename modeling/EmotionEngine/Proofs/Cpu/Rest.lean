import EmotionEngine.Block.Run
import EmotionEngine.Proofs.Cpu.File

/-!
A processor without its guest registers. `Cpu.rest` is everything but the general registers, HI and LO;
`Cpu.whole` is all that one guest register holds, high half included. An operation is `Apart` if it does
the same over any guest registers and leaves them as they are.

Main statements: what is apart keeps every guest register (`Apart.whole`) and does the same to two guests
that differ in guest registers only (`Apart.same`); the coprocessors, loads and stores are apart
(`apart_privileged`, `load_withRegs`, `store_withRegs`).
-/

namespace EmotionEngine

namespace Cpu

/-- The processor with other general registers, HI and LO. -/
def withRegs (s : Cpu) (gpr : Vector Quad 32) (hi lo : Dword) : Cpu := { s with gpr, hi, lo }

/-- Everything but the guest registers: the program counter, both coprocessors, the outcome fields and
the pages of the running block. -/
def rest (s : Cpu) : Cpu := s.withRegs (Vector.replicate 32 0) 0 0

/-- All bits of a guest register. -/
def whole (s : Cpu) : GuestReg → Quad
  | .gpr r => s.regQuad r
  | .hi => s.hi.setWidth 128
  | .lo => s.lo.setWidth 128

theorem lowHalf_whole (s : Cpu) (x : GuestReg) : lowHalf (s.whole x) = s.file x := by
  have widened (v : Dword) : lowHalf (v.setWidth 128) = v := by
    apply BitVec.eq_of_getLsbD_eq
    intro i hi
    simp [lowHalf, hi]
  cases x with
  | gpr r => rfl
  | hi => exact widened s.hi
  | lo => exact widened s.lo

theorem withRegs_of_rest {s t : Cpu} (h : s.rest = t.rest) : s.withRegs t.gpr t.hi t.lo = t :=
  congrArg (fun c => c.withRegs t.gpr t.hi t.lo) h

@[simp] theorem rest_setReg (s : Cpu) (r : RegNum) (v : Dword) : (s.setReg r v).rest = s.rest := by
  unfold setReg
  split <;> rfl

@[simp] theorem rest_setRegQuad (s : Cpu) (r : RegNum) (v : Quad) : (s.setRegQuad r v).rest = s.rest := by
  unfold setRegQuad
  split <;> rfl

/-- A register write and a change of the program counter commute. -/
theorem setReg_pc (s : Cpu) (r : RegNum) (v : Dword) (pc : Word) :
    { s with pc := pc }.setReg r v = { s.setReg r v with pc := pc } := by
  unfold setReg
  split <;> rfl

end Cpu

namespace Guest

/-- The guest with other general registers, HI and LO. -/
def withRegs (g : Guest) (gpr : Vector Quad 32) (hi lo : Dword) : Guest :=
  { g with cpu := g.cpu.withRegs gpr hi lo }

/-- Two guests that agree in everything but the guest registers. -/
theorem withRegs_of_rest {g h : Guest} (mem : g.mem = h.mem) (rest : g.cpu.rest = h.cpu.rest) :
    g.withRegs h.cpu.gpr h.cpu.hi h.cpu.lo = h := by
  obtain ⟨s, m⟩ := g
  obtain ⟨t, m'⟩ := h
  obtain rfl : m = m' := mem
  exact congrArg (fun c => Guest.mk c m) (Cpu.withRegs_of_rest rest)

/-- An operation that does the same over any guest registers and leaves them as they are. -/
def Apart {γ : Type} (op : Guest → γ × Guest) : Prop :=
  ∀ g gpr hi lo, op (g.withRegs gpr hi lo) = ((op g).1, (op g).2.withRegs gpr hi lo)

/-- Every guest register is kept whole. -/
theorem Apart.whole {γ : Type} {op : Guest → γ × Guest} (h : Apart op) (g : Guest) :
    (op g).2.cpu.whole = g.cpu.whole := by
  have e : (op g).2.cpu = (op g).2.cpu.withRegs g.cpu.gpr g.cpu.hi g.cpu.lo :=
    congrArg (fun r => r.2.cpu) (h g g.cpu.gpr g.cpu.hi g.cpu.lo)
  rw [e]
  funext x
  cases x <;> rfl

/-- Guests that differ in guest registers only go through it alike. -/
theorem Apart.same {γ : Type} {op : Guest → γ × Guest} (h : Apart op) {g k : Guest} (mem : g.mem = k.mem)
    (rest : g.cpu.rest = k.cpu.rest) :
    (op k).1 = (op g).1 ∧ (op k).2.mem = (op g).2.mem ∧ (op k).2.cpu.rest = (op g).2.cpu.rest := by
  have e := h g k.cpu.gpr k.cpu.hi k.cpu.lo
  rw [withRegs_of_rest mem rest] at e
  rw [e]
  exact ⟨rfl, rfl, rfl⟩

/-- A change of the processor that commutes with a change of the guest registers. -/
theorem apart_cpu {γ : Type} (c : γ) {u : Cpu → Cpu}
    (hu : ∀ s gpr hi lo, u (s.withRegs gpr hi lo) = (u s).withRegs gpr hi lo) :
    Apart (fun g => (c, { g with cpu := u g.cpu })) := by
  intro g gpr hi lo
  simp only [withRegs, hu]

theorem load_withRegs (g : Guest) (w : Width) (vaddr : Word) (gpr : Vector Quad 32) (hi lo : Dword) :
    (g.withRegs gpr hi lo).load w vaddr = ((g.load w vaddr).1, (g.load w vaddr).2.withRegs gpr hi lo) := by
  unfold load
  dsimp only
  split
  · rw [show (g.withRegs gpr hi lo).mem = g.mem from rfl]
    split <;> rfl
  · rfl

theorem store_withRegs (g : Guest) (w : Width) (vaddr : Word) (v : Quad) (gpr : Vector Quad 32)
    (hi lo : Dword) :
    (g.withRegs gpr hi lo).store w vaddr v =
      ((g.store w vaddr v).1, (g.store w vaddr v).2.withRegs gpr hi lo) := by
  unfold store
  dsimp only
  split
  · rw [show (g.withRegs gpr hi lo).mem = g.mem from rfl]
    split <;> rfl
  · rfl

theorem apart_execStore (w : Width) (vaddr : Word) (v : Quad) : Apart (fun g => g.execStore w vaddr v) := by
  intro g gpr hi lo
  dsimp only [execStore]
  rw [store_withRegs]
  obtain ⟨status, k⟩ := g.store w vaddr v
  cases status <;> rfl

theorem apart_execFpuLoad (ft : RegNum) (vaddr : Word) : Apart (fun g => g.execFpuLoad ft vaddr) := by
  intro g gpr hi lo
  dsimp only [execFpuLoad]
  rw [load_withRegs]
  obtain ⟨v | v, k⟩ := g.load .word vaddr <;> rfl

theorem apart_execBranch (pc target : Word) (taken likely : Bool) :
    Apart (fun g => g.execBranch pc target taken likely) := by
  intro g gpr hi lo
  cases taken <;> cases likely <;> rfl

/-! ## Coprocessors -/

/-- A privileged operation that is apart where it is allowed. -/
theorem apart_privileged (after : Flow) (op : Cpu → Bool × Cpu)
    (h : ∀ s gpr hi lo, op (s.withRegs gpr hi lo) = ((op s).1, (op s).2.withRegs gpr hi lo)) :
    Apart (fun g => g.execPrivileged after (op g.cpu)) := by
  intro g gpr hi lo
  dsimp only
  rw [show (g.withRegs gpr hi lo).cpu = g.cpu.withRegs gpr hi lo from rfl, h]
  obtain ⟨ok, s⟩ := op g.cpu
  cases ok <;> rfl

theorem apart_mtc0 (rd : RegNum) (v : Word) : Apart (fun g => g.execPrivileged .next (g.cpu.mtc0 rd v)) := by
  refine apart_privileged .next (fun s => s.mtc0 rd v) (fun s gpr hi lo => ?_)
  unfold Cpu.mtc0
  rw [show (s.withRegs gpr hi lo).cop0Usable = s.cop0Usable from rfl]
  split
  · unfold Cpu.writeCreg
    split
    · rfl
    split
    · rfl
    split <;> rfl
  · rfl

theorem apart_eret : Apart (fun g => g.execPrivileged .redirect g.cpu.eret) := by
  refine apart_privileged .redirect Cpu.eret (fun s gpr hi lo => ?_)
  unfold Cpu.eret
  rw [show (s.withRegs gpr hi lo).cop0Usable = s.cop0Usable from rfl,
    show (s.withRegs gpr hi lo).status = s.status from rfl]
  split
  · split <;> rfl
  · rfl

theorem apart_setEie (enable : Bool) : Apart (fun g => g.execPrivileged .next (g.cpu.setEie enable)) := by
  refine apart_privileged .next (fun s => s.setEie enable) (fun s gpr hi lo => ?_)
  unfold Cpu.setEie
  rw [show (s.withRegs gpr hi lo).cop0Usable = s.cop0Usable from rfl,
    show (s.withRegs gpr hi lo).status = s.status from rfl,
    show (s.withRegs gpr hi lo).inKernelMode = s.inKernelMode from rfl]
  split
  · split <;> rfl
  · rfl

theorem apart_fpuArith (op : FpuOp) (fd fs ft : RegNum) :
    Apart (fun g => g.goOn (g.cpu.fpuArith op fd fs ft)) := by
  have commit (s : Cpu) (r : Single.Rounded) (gpr hi lo) :
      (s.withRegs gpr hi lo).commitFloat fd r = (s.commitFloat fd r).withRegs gpr hi lo := by
    cases r <;> rfl
  refine apart_cpu Flow.next (u := fun s => s.fpuArith op fd fs ft) (fun s gpr hi lo => ?_)
  cases op with
  | add | sub | mul => exact commit s _ gpr hi lo
  | div =>
    show (s.withRegs gpr hi lo).fpuDiv fd (s.freg fs) (s.freg ft) = _
    dsimp only [Cpu.fpuArith]
    unfold Cpu.fpuDiv
    split
    · rfl
    · exact commit (s.setFcr _ 0) _ gpr hi lo
  | sqrt =>
    show (s.withRegs gpr hi lo).fpuSqrt fd (s.freg ft) = _
    dsimp only [Cpu.fpuArith]
    unfold Cpu.fpuSqrt
    split <;> rfl
  | abs | neg | mov | cvtWS | cvtSW => rfl

theorem apart_fpuCompare (cond : FpuCond) (fs ft : RegNum) :
    Apart (fun g => g.goOn (g.cpu.fpuCompare cond fs ft)) := by
  refine apart_cpu Flow.next (u := fun s => s.fpuCompare cond fs ft) (fun s gpr hi lo => ?_)
  unfold Cpu.fpuCompare
  rw [show (s.withRegs gpr hi lo).freg fs = s.freg fs from rfl,
    show (s.withRegs gpr hi lo).freg ft = s.freg ft from rfl]
  split <;> rfl

theorem apart_setFpuControl (n : Nat) (v : Word) : Apart (fun g => g.goOn (g.cpu.setFpuControl n v)) := by
  refine apart_cpu Flow.next (u := fun s => s.setFpuControl n v) (fun s gpr hi lo => ?_)
  unfold Cpu.setFpuControl
  split <;> rfl

end Guest

end EmotionEngine
