import EmotionEngine.Cpu.Control
import EmotionEngine.Cpu.Float
import EmotionEngine.Insn.Uses
import EmotionEngine.Memory.Guest
import Mathlib.Logic.Function.Basic

/-!
The guest values of a processor apart from the rest of it. While a block runs, the register file in
memory may be out of date in the values that host registers hold; all else is as plain execution has it.
`Cpu.withFile` gives a processor other guest values, and `Aloof` is that an operation neither reads nor
writes them.

Main statements: a processor is its guest values and the rest (`withFile_file`), and the operations that
helpers do on the coprocessors and memory are aloof (`aloof_fpuArith`, `aloof_mtc0`, `load_withFile`,
`store_withFile`), so they keep the guest values (`file_of_aloof`).
-/

namespace EmotionEngine

namespace Cpu

def file (s : Cpu) : GuestReg → Dword
  | .gpr r => s.reg r
  | .hi => s.hi
  | .lo => s.lo

/-- The general registers with other low halves. -/
@[irreducible] def withLow (gpr : Vector Quad 32) (f : GuestReg → Dword) : Vector Quad 32 :=
  Vector.ofFn (fun r => joinHalves (highHalf (gpr.get r)) (f (.gpr r)))

theorem get_withLow (gpr : Vector Quad 32) (f : GuestReg → Dword) (r : RegNum) :
    (withLow gpr f).get r = joinHalves (highHalf (gpr.get r)) (f (.gpr r)) := by
  rw [withLow, get_ofFn]

/-- The processor with other guest values. Everything else stays, the high halves included. -/
def withFile (s : Cpu) (f : GuestReg → Dword) : Cpu :=
  { s with gpr := withLow s.gpr f, hi := f .hi, lo := f .lo }

@[simp] theorem regQuad_withFile (s : Cpu) (f : GuestReg → Dword) (r : RegNum) :
    (s.withFile f).regQuad r = joinHalves (highHalf (s.regQuad r)) (f (.gpr r)) :=
  get_withLow s.gpr f r

@[simp] theorem file_withFile (s : Cpu) (f : GuestReg → Dword) : (s.withFile f).file = f := by
  funext g
  cases g with
  | gpr r => rw [file, reg_eq, regQuad_withFile, lowHalf_joinHalves]
  | hi => rfl
  | lo => rfl

theorem ext_gpr {v w : Vector Quad 32} (h : ∀ r : RegNum, v.get r = w.get r) : v = w := by
  apply Vector.ext
  intro i hi
  exact h ⟨i, hi⟩

/-- A processor is its guest values and the rest. -/
@[simp] theorem withFile_file (s : Cpu) : s.withFile s.file = s := by
  have gpr : withLow s.gpr s.file = s.gpr := by
    apply ext_gpr
    intro r
    rw [get_withLow]
    exact joinHalves_halves (s.regQuad r)
  unfold withFile
  rw [gpr]
  rfl

/-- Two processors with the same registers are the same if the rest is. -/
theorem withFile_congr {s t : Cpu} {f : GuestReg → Dword}
    (high : ∀ r, highHalf (s.regQuad r) = highHalf (t.regQuad r))
    (rest : { s with gpr := t.gpr, hi := t.hi, lo := t.lo } = t) : s.withFile f = t.withFile f := by
  unfold withFile
  rw [← rest]
  simp only [Cpu.mk.injEq, and_true]
  apply ext_gpr
  intro r
  rw [get_withLow, get_withLow]
  have e := high r
  rw [← rest] at e
  exact congrArg (joinHalves · _) e

@[simp] theorem withFile_withFile (s : Cpu) (f f' : GuestReg → Dword) :
    (s.withFile f).withFile f' = s.withFile f' :=
  withFile_congr (fun r => by rw [regQuad_withFile, highHalf_joinHalves]) rfl

theorem withFile_setReg (s : Cpu) (r : RegNum) (v : Dword) (f : GuestReg → Dword) :
    (s.setReg r v).withFile f = s.withFile f := by
  apply withFile_congr (fun x => highHalf_setReg s r x v)
  unfold setReg putQuad
  split <;> rfl

theorem file_setReg (s : Cpu) (r : RegNum) (v : Dword) (x : GuestReg) :
    (s.setReg r v).file x = if x = .gpr r ∧ r ≠ 0 then v else s.file x := by
  cases x with
  | gpr r' => simp only [file, reg_setReg, GuestReg.gpr.injEq]
  | hi => rw [if_neg (by simp)]; unfold setReg putQuad; split <;> rfl
  | lo => rw [if_neg (by simp)]; unfold setReg putQuad; split <;> rfl

/-- A register keeps its value if it is written back. -/
theorem setReg_reg (s : Cpu) (r : RegNum) : s.setReg r (s.reg r) = s := by
  have file : (s.setReg r (s.reg r)).file = s.file := by
    funext x
    rw [file_setReg]
    split
    · next h => rw [h.1, Cpu.file]
    · rfl
  calc s.setReg r (s.reg r)
      = (s.setReg r (s.reg r)).withFile (s.setReg r (s.reg r)).file := (withFile_file _).symm
    _ = s.withFile s.file := by rw [withFile_setReg, file]
    _ = s := withFile_file s

/-! ## Operations that leave the guest values alone -/

/-- An operation that neither reads nor writes guest values. -/
def Aloof {α : Type} (op : Cpu → α × Cpu) : Prop :=
  ∀ s f, op (s.withFile f) = ((op s).1, (op s).2.withFile f)

theorem file_of_aloof {α : Type} {op : Cpu → α × Cpu} (h : Aloof op) (s : Cpu) :
    (op s).2.file = s.file := by
  have e := congrArg (fun r => r.2.file) (h s s.file)
  simpa using e

theorem cop0Usable_withFile (s : Cpu) (f : GuestReg → Dword) :
    (s.withFile f).cop0Usable = s.cop0Usable := rfl

theorem aloof_mfc0 (rd : RegNum) : Aloof (fun s => s.mfc0 rd) := by
  intro s f
  unfold mfc0
  dsimp only
  rw [cop0Usable_withFile]
  split <;> rfl

theorem writeCreg_withFile (s : Cpu) (rd : RegNum) (v : Word) (f : GuestReg → Dword) :
    (s.withFile f).writeCreg rd v = (s.writeCreg rd v).withFile f := by
  unfold writeCreg
  split
  · rfl
  split
  · rfl
  split <;> rfl

theorem aloof_mtc0 (rd : RegNum) (v : Word) : Aloof (fun s => s.mtc0 rd v) := by
  intro s f
  unfold mtc0
  dsimp only
  rw [cop0Usable_withFile, writeCreg_withFile]
  split <;> rfl

theorem aloof_eret : Aloof eret := by
  intro s f
  unfold eret
  rw [cop0Usable_withFile, show (s.withFile f).status = s.status from rfl]
  split
  · split <;> rfl
  · rfl

theorem aloof_setEie (enable : Bool) : Aloof (fun s => s.setEie enable) := by
  intro s f
  unfold setEie
  dsimp only
  rw [cop0Usable_withFile, show (s.withFile f).status = s.status from rfl,
    show (s.withFile f).inKernelMode = s.inKernelMode from rfl]
  split
  · split <;> rfl
  · rfl

theorem commitFloat_withFile (s : Cpu) (fd : RegNum) (r : Single.Rounded) (f : GuestReg → Dword) :
    (s.withFile f).commitFloat fd r = (s.commitFloat fd r).withFile f := by
  cases r <;> rfl

theorem fpuDiv_withFile (s : Cpu) (fd : RegNum) (n d : Word) (f : GuestReg → Dword) :
    (s.withFile f).fpuDiv fd n d = (s.fpuDiv fd n d).withFile f := by
  unfold fpuDiv
  split
  · rfl
  · exact commitFloat_withFile (s.setFcr (Fcr31.d ||| Fcr31.i) 0) fd _ f

theorem fpuSqrt_withFile (s : Cpu) (fd : RegNum) (t : Word) (f : GuestReg → Dword) :
    (s.withFile f).fpuSqrt fd t = (s.fpuSqrt fd t).withFile f := by
  unfold fpuSqrt
  split <;> rfl

theorem aloof_fpuArith (op : FpuOp) (fd fs ft : RegNum) : Aloof fun s => ((), s.fpuArith op fd fs ft) := by
  intro s f
  refine congrArg (Prod.mk ()) ?_
  cases op with
  | add | sub | mul => exact commitFloat_withFile s fd _ f
  | div => exact fpuDiv_withFile s fd _ _ f
  | sqrt => exact fpuSqrt_withFile s fd _ f
  | abs | mov | neg | cvtWS | cvtSW => rfl

theorem aloof_fpuCompare (cond : FpuCond) (fs ft : RegNum) : Aloof fun s => ((), s.fpuCompare cond fs ft) := by
  intro s f
  refine congrArg (Prod.mk ()) ?_
  dsimp only
  unfold fpuCompare
  rw [show (s.withFile f).freg fs = s.freg fs from rfl, show (s.withFile f).freg ft = s.freg ft from rfl]
  split <;> rfl

/-- All of a register is written in the file and in the rest. -/
theorem setRegQuad_withFile (s : Cpu) {r : RegNum} (hr : r ≠ 0) (v : Quad) (f : GuestReg → Dword) :
    (s.withFile f).setRegQuad r v =
      (s.setRegQuad r v).withFile (Function.update f (.gpr r) (lowHalf v)) := by
  unfold setRegQuad putQuad
  rw [if_neg hr, if_neg hr]
  unfold withFile
  simp only [Cpu.mk.injEq, and_true]
  refine ⟨?_, by simp, by simp⟩
  apply ext_gpr
  intro x
  rw [get_setAt, get_withLow, get_withLow, get_setAt]
  by_cases e : x = r
  · subst e
    simp
  · simp [e]

theorem file_setRegQuad (s : Cpu) (r : RegNum) (v : Quad) (x : GuestReg) :
    (s.setRegQuad r v).file x = if x = .gpr r ∧ r ≠ 0 then lowHalf v else s.file x := by
  cases x with
  | gpr r' =>
    simp only [file, reg_eq, regQuad_setRegQuad, GuestReg.gpr.injEq]
    split <;> rfl
  | hi => rw [if_neg (by simp)]; unfold setRegQuad putQuad; split <;> rfl
  | lo => rw [if_neg (by simp)]; unfold setRegQuad putQuad; split <;> rfl

end Cpu

/-! ## Guests -/

namespace Guest

/-- The guest with other guest values in its registers. -/
def withFile (g : Guest) (f : GuestReg → Dword) : Guest := { g with cpu := g.cpu.withFile f }

@[simp] theorem cpu_withFile (g : Guest) (f : GuestReg → Dword) :
    (g.withFile f).cpu = g.cpu.withFile f := rfl

@[simp] theorem mem_withFile (g : Guest) (f : GuestReg → Dword) : (g.withFile f).mem = g.mem := rfl

@[simp] theorem withFile_file (g : Guest) : g.withFile g.cpu.file = g := by
  unfold withFile
  rw [Cpu.withFile_file]

@[simp] theorem withFile_withFile (g : Guest) (f f' : GuestReg → Dword) :
    (g.withFile f).withFile f' = g.withFile f' := by
  unfold withFile
  rw [Cpu.withFile_withFile]

theorem load_withFile (g : Guest) (w : Width) (vaddr : Word) (f : GuestReg → Dword) :
    (g.withFile f).load w vaddr = ((g.load w vaddr).1, (g.load w vaddr).2.withFile f) := by
  unfold load
  dsimp only
  split
  · rw [mem_withFile]
    split <;> rfl
  · rfl

theorem store_withFile (g : Guest) (w : Width) (vaddr : Word) (v : Quad) (f : GuestReg → Dword) :
    (g.withFile f).store w vaddr v = ((g.store w vaddr v).1, (g.store w vaddr v).2.withFile f) := by
  unfold store
  dsimp only
  split
  · rw [mem_withFile]
    split <;> rfl
  · rfl

theorem file_load (g : Guest) (w : Width) (vaddr : Word) :
    (g.load w vaddr).2.cpu.file = g.cpu.file := by
  have e := congrArg (fun r => r.2.cpu.file) (load_withFile g w vaddr g.cpu.file)
  simpa using e

end Guest

end EmotionEngine
