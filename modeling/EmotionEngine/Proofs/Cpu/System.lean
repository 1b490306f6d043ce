import EmotionEngine.Cpu.Control

/-!
The system control registers after each operation of system control. It names the registers that it writes, and
all the others read as before. Whether system control is allowed is told by Status alone.
-/

namespace EmotionEngine.Cpu

variable (s : Cpu) {r : RegNum}

theorem creg_setCreg_self (r : RegNum) (v : Word) : (s.setCreg r v).creg r = v :=
  (creg_setCreg s r r v).trans (if_pos rfl)

theorem creg_setCreg_ne {r' : RegNum} (other : r' ≠ r) (v : Word) : (s.setCreg r v).creg r' = s.creg r' :=
  (creg_setCreg s r r' v).trans (if_neg other)

/-! ## Who may use it -/

theorem inKernelMode_congr {s t : Cpu} (status : t.status = s.status) : t.inKernelMode = s.inKernelMode := by
  simp only [inKernelMode, status]

theorem cop0Usable_congr {s t : Cpu} (status : t.status = s.status) : t.cop0Usable = s.cop0Usable := by
  simp only [cop0Usable, inKernelMode_congr status, status]

theorem cop0Usable_setCreg (other : Cop0.status ≠ r) (v : Word) : (s.setCreg r v).cop0Usable = s.cop0Usable :=
  cop0Usable_congr (s.creg_setCreg_ne other v)

/-! ## Operations of system control -/

theorem mtc0_usable (usable : s.cop0Usable = true) (rd : RegNum) (v : Word) :
    s.mtc0 rd v = (true, s.writeCreg rd v) := by
  rw [mtc0, if_pos usable]

theorem creg_latchInterrupts (pending : Word) (cause : r ≠ Cop0.cause) :
    (s.latchInterrupts pending).creg r = s.creg r :=
  s.creg_setCreg_ne cause _

theorem creg_advanceCount (insns : Word) (count : r ≠ Cop0.count) (cause : r ≠ Cop0.cause) :
    (s.advanceCount insns).creg r = s.creg r := by
  unfold advanceCount
  dsimp only
  split
  · rw [creg_setCreg_ne _ cause, creg_setCreg_ne _ count]
  · rw [creg_setCreg_ne _ count]

theorem count_advanceCount (insns : Word) :
    (s.advanceCount insns).creg Cop0.count = s.creg Cop0.count + insns := by
  unfold advanceCount
  dsimp only
  split
  · rw [creg_setCreg_ne _ (by decide), creg_setCreg_self]
  · rw [creg_setCreg_self]

theorem cause_advanceCount (insns : Word) :
    (s.advanceCount insns).creg Cop0.cause =
      if s.creg Cop0.compare - s.creg Cop0.count - 1 < insns then s.creg Cop0.cause ||| Cause.ipTimer
      else s.creg Cop0.cause := by
  unfold advanceCount
  dsimp only
  rw [creg_setCreg_ne _ (show Cop0.compare ≠ Cop0.count by decide)]
  split
  · rw [creg_setCreg_self, creg_setCreg_ne _ (by decide)]
  · rw [creg_setCreg_ne _ (by decide)]

section
variable (code : ExcCode) (pc : Word) (slot : Bool)

theorem status_enterException : (s.enterException code pc slot).status = s.status ||| Status.exl :=
  creg_setCreg_self _ Cop0.status _

theorem creg_enterException (epc : r ≠ Cop0.epc) (cause : r ≠ Cop0.cause) (status : r ≠ Cop0.status) :
    (s.enterException code pc slot).creg r = s.creg r := by
  show (setCreg _ Cop0.status _).creg r = _
  rw [creg_setCreg_ne _ status]
  split
  · rw [creg_setCreg_ne _ cause, creg_setCreg_ne _ epc]
  · rw [creg_setCreg_ne _ cause]

/-- The restart address after the entry of an exception. -/
theorem epc_enterException :
    (s.enterException code pc slot).creg Cop0.epc = if (s.status &&& Status.exl) == 0 then pc else s.creg Cop0.epc := by
  show (setCreg _ Cop0.status _).creg Cop0.epc = _
  rw [creg_setCreg_ne _ (by decide)]
  split
  · rw [creg_setCreg_ne _ (by decide), creg_setCreg_self]
  · rw [creg_setCreg_ne _ (by decide)]

theorem cause_enterException :
    (s.enterException code pc slot).creg Cop0.cause =
      let c := (s.creg Cop0.cause &&& ~~~Cause.excCodeMask) ||| (code.toWord <<< 2)
      if (s.status &&& Status.exl) == 0 then if slot then c ||| Cause.bd else c &&& ~~~Cause.bd else c := by
  show (setCreg _ Cop0.status _).creg Cop0.cause = _
  rw [creg_setCreg_ne _ (by decide)]
  dsimp only
  split <;> rw [creg_setCreg_self]

end

end EmotionEngine.Cpu
