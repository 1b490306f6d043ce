import EmotionEngine.Cpu.Control
import EmotionEngine.Cpu.Float

/-!
Which registers an operation changes. A computation writes general registers other than 0, HI, LO and the floating
point unit; there it sets only bits of the control and status register that can be written, and clears no sticky
bit (`Cpu.Computed`). An operation of system control writes control registers, and a return the program counter
too; where it is not allowed it only records that.
-/

namespace EmotionEngine

/-! ## The control and status register -/

namespace Fcr31

/-- The bits that tell what has happened since a control move cleared them. -/
def sticky : Word := si ||| sd ||| so ||| su

/-- From `v` to `w` no bit is set that cannot be written, and no sticky bit is cleared. -/
structure Grows (v w : Word) : Prop where
  within : v &&& ~~~writable = 0 → w &&& ~~~writable = 0
  keeps : ∀ i, sticky.getLsbD i = true → v.getLsbD i = true → w.getLsbD i = true

theorem grows_refl (v : Word) : Grows v v := ⟨id, fun _ _ => id⟩

theorem Grows.trans {v w x : Word} (h : Grows v w) (h' : Grows w x) : Grows v x :=
  ⟨fun inside => h'.within (h.within inside), fun i bit set => h'.keeps i bit (h.keeps i bit set)⟩

/-- Bits are cleared that are not sticky, then bits are set that can be written. -/
theorem grows_set {clear set : Word} (clears : clear &&& sticky = 0) (sets : set &&& ~~~writable = 0) (v : Word) :
    Grows v ((v &&& ~~~clear) ||| set) where
  within inside := by
    rw [BitVec.and_comm, BitVec.and_or_distrib_left, BitVec.and_comm _ set, sets, BitVec.and_comm,
      BitVec.and_assoc, BitVec.and_comm (~~~clear), ← BitVec.and_assoc, inside]
    simp
  keeps i bit set := by
    have apart : (clear.getLsbD i && sticky.getLsbD i) = false := by
      rw [← BitVec.getLsbD_and, clears]
      exact BitVec.getLsbD_zero
    rw [bit, Bool.and_true] at apart
    rw [BitVec.getLsbD_or, BitVec.getLsbD_and, BitVec.getLsbD_not, set, apart,
      decide_eq_true (BitVec.lt_of_getLsbD set)]
    rfl

end Fcr31

namespace Cpu

/-! ## Computations -/

/-- From `s` to `t` a computation was made: it has written no other registers than general ones, HI, LO and those
of the floating point unit, and of these not register 0, and cleared no sticky bit. -/
structure Computed (s t : Cpu) : Prop where
  rest : t = { s with gpr := t.gpr, hi := t.hi, lo := t.lo, fpr := t.fpr, fcr31 := t.fcr31 }
  zero : t.regQuad 0 = s.regQuad 0
  grows : Fcr31.Grows s.fcr31 t.fcr31

section
variable {s t u : Cpu}

theorem Computed.trans (h : Computed s t) (h' : Computed t u) : Computed s u where
  rest := h'.rest.trans (by rw [h.rest])
  zero := h'.zero.trans h.zero
  grows := h.grows.trans h'.grows

theorem Computed.pc (h : Computed s t) : t.pc = s.pc := by rw [h.rest]

theorem Computed.cop0 (h : Computed s t) : t.cop0 = s.cop0 := by rw [h.rest]

theorem Computed.faultPending (h : Computed s t) : t.faultPending = s.faultPending := by rw [h.rest]

end

section
variable (s : Cpu)

theorem computed_refl : Computed s s := ⟨rfl, rfl, Fcr31.grows_refl _⟩

theorem computed_setReg (r : RegNum) (v : Dword) : Computed s (s.setReg r v) := by
  unfold setReg
  by_cases zero : r = 0
  · rw [if_pos zero]
    exact s.computed_refl
  · rw [if_neg zero]
    refine ⟨rfl, ?_, Fcr31.grows_refl _⟩
    rw [regQuad_putQuad, if_neg (Ne.symm zero)]

theorem computed_setRegQuad (r : RegNum) (v : Quad) : Computed s (s.setRegQuad r v) := by
  refine ⟨?_, ?_, ?_⟩
  · unfold setRegQuad
    split <;> rfl
  · rw [regQuad_setRegQuad, if_neg]
    rintro ⟨rfl, h⟩
    exact h rfl
  · unfold setRegQuad
    split <;> exact Fcr31.grows_refl _

theorem computed_hiLo (hi lo : Dword) : Computed s { s with hi, lo } := ⟨rfl, rfl, Fcr31.grows_refl _⟩

theorem computed_setFreg (fd : RegNum) (v : Word) : Computed s (s.setFreg fd v) := ⟨rfl, rfl, Fcr31.grows_refl _⟩

theorem computed_setFcr {clear set : Word} (clears : clear &&& Fcr31.sticky = 0)
    (sets : set &&& ~~~Fcr31.writable = 0) : Computed s (s.setFcr clear set) :=
  ⟨rfl, rfl, Fcr31.grows_set clears sets s.fcr31⟩

theorem computed_commitFloat (fd : RegNum) (r : Single.Rounded) : Computed s (s.commitFloat fd r) := by
  cases r <;> exact (s.computed_setFcr (by decide) (by decide)).trans (computed_setFreg _ fd _)

theorem computed_fpuDiv (fd : RegNum) (n d : Word) : Computed s (s.fpuDiv fd n d) := by
  unfold fpuDiv
  dsimp only
  split
  · split <;> exact (s.computed_setFcr (by decide) (by decide)).trans (computed_setFreg _ fd _)
  · exact (s.computed_setFcr (by decide) (by decide)).trans (computed_commitFloat _ fd _)

theorem computed_fpuSqrt (fd : RegNum) (t : Word) : Computed s (s.fpuSqrt fd t) := by
  unfold fpuSqrt
  dsimp only
  split
  · exact (s.computed_setFcr (by decide) (by decide)).trans (computed_setFreg _ fd _)
  · split <;> exact (s.computed_setFcr (by decide) (by decide)).trans (computed_setFreg _ fd _)

theorem computed_fpuArith (op : FpuOp) (fd fs ft : RegNum) : Computed s (s.fpuArith op fd fs ft) := by
  cases op with
  | add | sub | mul => exact s.computed_commitFloat fd _
  | div => exact s.computed_fpuDiv fd _ _
  | sqrt => exact s.computed_fpuSqrt fd _
  | abs | neg => exact (s.computed_setFcr (by decide) (by decide)).trans (computed_setFreg _ fd _)
  | mov | cvtWS | cvtSW => exact s.computed_setFreg fd _

theorem computed_fpuCompare (cond : FpuCond) (fs ft : RegNum) : Computed s (s.fpuCompare cond fs ft) := by
  unfold fpuCompare
  split <;> exact s.computed_setFcr (by decide) (by decide)

/-! ## System control -/

theorem mtc0_allowed (usable : s.cop0Usable = true) (rd : RegNum) (v : Word) :
    s.mtc0 rd v = (true, { s with cop0 := (s.writeCreg rd v).cop0 }) := by
  rw [mtc0, if_pos usable]
  unfold writeCreg
  split
  · rfl
  split
  · rfl
  split <;> rfl

theorem setEie_allowed (usable : s.cop0Usable = true) (enable : Bool) :
    ∃ cop0, s.setEie enable = (true, { s with cop0 }) := by
  unfold setEie
  rw [if_pos usable]
  split <;> exact ⟨_, rfl⟩

theorem eret_allowed (usable : s.cop0Usable = true) : ∃ pc cop0, s.eret = (true, { s with pc, cop0 }) := by
  unfold eret
  rw [if_pos usable]
  split <;> exact ⟨_, _, rfl⟩

end

end Cpu

end EmotionEngine
