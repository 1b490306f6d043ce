import EmotionEngine.Proofs.Block.Control

/-!
What no code changes. Register 0 is zero and the identification register is read-only; of the control and status
register of the floating point unit some bits cannot be set at all, and the four sticky bits are cleared only by
a control move.

1. Of the control and status register a computation clears only cause bits and the condition bit, and sets only
   bits that can be written (`Fcr31.Grows`); what else changes it is the control move (`Guest.exec_fcr31`).
2. Each instruction, whether it completes or faults, upholds all of this (`Guest.exec_upholds`), and so does a
   block, where the sticky bits need that no control move completes in it.

Main statement: `Block.run_upholds`.
-/

namespace EmotionEngine

namespace Cpu

/-- A control move writes only what can be written. -/
theorem within_setFpuControl (s : Cpu) (n : Nat) (v : Word) (inside : s.fcr31 &&& ~~~Fcr31.writable = 0) :
    (s.setFpuControl n v).fcr31 &&& ~~~Fcr31.writable = 0 := by
  unfold setFpuControl
  split
  · show v &&& Fcr31.writable &&& ~~~Fcr31.writable = 0
    rw [BitVec.and_assoc, BitVec.and_not_self]
    exact BitVec.and_zero
  · exact inside

end Cpu

/-! ## Instructions -/

/-- The instruction is a control move to the control and status register. -/
def Insn.MovesFcr31 (i : Insn) : Prop := ∃ rt, i = .fpuMove .ctc1 rt 31

namespace Guest

theorem Does.fcr31 {g : Guest} {i : DecodedInsn} {r : Flow × Guest} (does : g.Does i r) :
    Fcr31.Grows g.cpu.fcr31 r.2.cpu.fcr31 ∨ i.insn.MovesFcr31 ∧ ∃ v, r = g.goOn (g.cpu.setFpuControl 31 v) := by
  cases does with
  | moves rt v move => exact .inr ⟨⟨rt, move⟩, v, rfl⟩
  | computes made plain => exact .inl made.grows
  | goes made pc transfers => exact .inl made.grows
  | skips made transfers => exact .inl made.grows
  | loads accessed loaded made plain => exact .inl made.grows
  | _ => exact .inl (Fcr31.grows_refl _)

/-- The instructions that have to do with the control and status register: those of the floating point unit that
compute, and the control move to it. All others leave it as it is. -/
theorem exec_fcr31 (g : Guest) (i : DecodedInsn) :
    Fcr31.Grows g.cpu.fcr31 (g.exec i).2.cpu.fcr31 ∨
      i.insn.MovesFcr31 ∧ ∃ v, g.exec i = g.goOn (g.cpu.setFpuControl 31 v) := (g.exec_does i).fcr31

end Guest

/-! ## What code upholds -/

namespace Cpu

/-- From `s` to `t` nothing changes that no code changes, and no sticky bit is cleared unless a control move was
made. -/
structure Upholds (moved : Prop) (s t : Cpu) : Prop where
  zero : t.regQuad 0 = s.regQuad 0
  prId : t.creg Cop0.prId = s.creg Cop0.prId
  within : s.fcr31 &&& ~~~Fcr31.writable = 0 → t.fcr31 &&& ~~~Fcr31.writable = 0
  sticky : ¬ moved → ∀ i, Fcr31.sticky.getLsbD i = true → s.fcr31.getLsbD i = true → t.fcr31.getLsbD i = true

section
variable {moved moved' : Prop} {s t u : Cpu}

theorem upholds_of_same (zero : t.regQuad 0 = s.regQuad 0) (prId : t.creg Cop0.prId = s.creg Cop0.prId)
    (fcr31 : t.fcr31 = s.fcr31) : Upholds moved s t :=
  ⟨zero, prId, by rw [fcr31]; exact id, by rw [fcr31]; exact fun _ _ _ => id⟩

theorem upholds_refl (s : Cpu) : Upholds moved s s := upholds_of_same rfl rfl rfl

theorem Upholds.trans (h : Upholds moved s t) (h' : Upholds moved t u) : Upholds moved s u where
  zero := h'.zero.trans h.zero
  prId := h'.prId.trans h.prId
  within inside := h'.within (h.within inside)
  sticky still i bit set := h'.sticky still i bit (h.sticky still i bit set)

theorem Upholds.mono (h : Upholds moved s t) (weaker : moved → moved') : Upholds moved' s t :=
  ⟨h.zero, h.prId, h.within, fun still => h.sticky (still ∘ weaker)⟩

end

section
variable (s : Cpu)

theorem prId_raiseUnusable : s.raiseUnusable.creg Cop0.prId = s.creg Cop0.prId :=
  s.sameButExit_raiseUnusable.control Cop0.prId (by decide) (by decide)

theorem prId_writeCreg (r : RegNum) (v : Word) : (s.writeCreg r v).creg Cop0.prId = s.creg Cop0.prId := by
  unfold writeCreg
  split
  · rfl
  · next other =>
    split
    · exact s.creg_setCreg_ne (by decide) _
    · split
      · dsimp only
        rw [creg_setCreg_ne _ (by decide), creg_setCreg_ne _ (by decide)]
      · exact s.creg_setCreg_ne (Ne.symm other) v

theorem prId_eret : s.eret.2.creg Cop0.prId = s.creg Cop0.prId := by
  unfold eret
  split
  · split <;> exact creg_setCreg_ne _ (by decide) _
  · exact s.prId_raiseUnusable

theorem prId_setEie (enable : Bool) : (s.setEie enable).2.creg Cop0.prId = s.creg Cop0.prId := by
  unfold setEie
  split
  · split
    · exact s.creg_setCreg_ne (by decide) _
    · rfl
  · exact s.prId_raiseUnusable

end

theorem lasting_prId (v : Word) : Lasting (fun s => s.creg Cop0.prId = v) fun _ => True where
  same same h := (same.control Cop0.prId (by decide) (by decide)).trans h
  writes {g i} writes _ completes h := by
    cases hi : i.insn with
    | cop0Move op rt rd =>
      cases op with
      | mfc0 => simp [hi, Insn.writesControl] at writes
      | mtc0 =>
        have usable := g.usable_of_completes writes completes
        simp only [Guest.exec, hi, Guest.execPrivileged_cpu, g.cpu.mtc0_usable usable]
        exact (g.cpu.prId_writeCreg _ _).trans h
    | eret =>
      simp only [Guest.exec, hi, Guest.execPrivileged_cpu]
      exact g.cpu.prId_eret.trans h
    | ei | di =>
      simp only [Guest.exec, hi, Guest.execPrivileged_cpu]
      exact (g.cpu.prId_setEie _).trans h
    | _ => simp [hi, Insn.writesControl] at writes

end Cpu

namespace Guest

/-- Whether it completes or faults, an instruction upholds what no code changes. A control move to the control and
status register always completes. -/
theorem exec_upholds (g : Guest) (i : DecodedInsn) :
    g.cpu.Upholds (i.insn.MovesFcr31 ∧ (g.exec i).1 = .next) (g.exec i).2.cpu := by
  have prId : (g.exec i).2.cpu.creg Cop0.prId = g.cpu.creg Cop0.prId :=
    g.exec_lasting (Cpu.lasting_prId _) (fun _ => trivial) rfl
  obtain grows | ⟨moves, v, moved⟩ := g.exec_fcr31 i
  · exact ⟨(g.exec_proceeds i).zero, prId, grows.within, fun _ => grows.keeps⟩
  · refine ⟨(g.exec_proceeds i).zero, prId, fun inside => ?_, fun still => absurd ⟨moves, by rw [moved]; rfl⟩ still⟩
    rw [moved]
    exact g.cpu.within_setFpuControl 31 v inside

theorem execAll_upholds (insns : List DecodedInsn) (g : Guest) :
    g.cpu.Upholds (∃ i ∈ g.completed insns, i.insn.MovesFcr31) (g.execAll insns).2.cpu := by
  have still {moved : Prop} {s : Cpu} {pc excCode : Word} {excDelaySlot : Bool} :
      s.Upholds moved { s with pc, excCode, excDelaySlot } := Cpu.upholds_of_same rfl rfl rfl
  induction insns generalizing g with
  | nil => exact g.cpu.upholds_refl
  | cons i rest ih =>
    have first := g.exec_upholds i
    unfold completed execAll
    generalize g.exec i = r at first ⊢
    obtain ⟨flow, after⟩ := r
    cases flow with
    | next =>
      have one : g.cpu.Upholds (∃ j ∈ i :: after.completed rest, j.insn.MovesFcr31) after.cpu :=
        first.mono fun moved => ⟨i, List.mem_cons_self, moved.1⟩
      have others : after.cpu.Upholds (∃ j ∈ i :: after.completed rest, j.insn.MovesFcr31)
          (after.execAll rest).2.cpu :=
        (ih after).mono fun moved => moved.imp fun j here => ⟨List.mem_cons_of_mem i here.1, here.2⟩
      exact one.trans others
    | fault code | skipDelaySlot => exact (first.mono fun moved => by cases moved.2).trans still
    | redirect => exact first.mono fun moved => by cases moved.2
    | codeModified =>
      dsimp only
      split
      · exact first.mono fun moved => by cases moved.2
      · exact (first.mono fun moved => by cases moved.2).trans still

theorem leave_upholds (g : Guest) (b : Block) : g.cpu.Upholds False (g.leave b).2.cpu := by
  unfold leave
  split
  · next addr branchPc _ =>
    refine Cpu.upholds_of_same rfl ?_ rfl
    exact (g.cpu.sameButExit_raiseFault .instructionBus (some addr)).control Cop0.prId (by decide) (by decide)
  · split
    · exact g.cpu.upholds_refl
    · exact Cpu.upholds_of_same rfl rfl rfl

end Guest

/-- A block upholds what no code changes, and clears no sticky bit unless a control move completes in it. -/
theorem Block.run_upholds (b : Block) (g : Guest) :
    g.cpu.Upholds (∃ i ∈ (g.enter b).completed b.insns, i.insn.MovesFcr31) (b.run g).2.cpu := by
  have entered : g.cpu.Upholds (∃ i ∈ (g.enter b).completed b.insns, i.insn.MovesFcr31) (g.enter b).cpu :=
    Cpu.upholds_of_same rfl rfl rfl
  have ran := entered.trans ((g.enter b).execAll_upholds b.insns)
  unfold run
  generalize (g.enter b).execAll b.insns = r at ran ⊢
  obtain ⟨_ | exit, after⟩ := r
  · exact ran.trans ((after.leave_upholds b).mono False.elim)
  · exact ran

end EmotionEngine
