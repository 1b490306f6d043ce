import EmotionEngine.Proofs.Block.Precise
import EmotionEngine.Proofs.Cpu.System

/-!
Blocks and system control. Who may use system control is told by Status, which only four kinds of
instructions write, each after asking whether it may (`Guest.exec_spares`, `Guest.exec_refused`); a fault
writes BadVAddr and the field CE of Cause and nothing else of system control. So a property of the control
registers that does not depend on what a fault writes, and that those four keep, is kept by a block
(`Cpu.Lasting`), where it is enough that they keep it when they complete (`Guest.completed`).

Main statement: `Block.run_lasting`.
-/

namespace EmotionEngine

/-! ## Control registers -/

namespace Cpu

/-- Two processors whose control registers differ at most in what tells of an exception: BadVAddr, and the
field CE of Cause. -/
structure SameControl (s t : Cpu) : Prop where
  control : ∀ r, r ≠ Cop0.badVAddr → r ≠ Cop0.cause → t.creg r = s.creg r
  cause : t.creg Cop0.cause &&& ~~~Cause.ceMask = s.creg Cop0.cause &&& ~~~Cause.ceMask

theorem SameButExit.sameControl {s t : Cpu} (h : SameButExit s t) : SameControl s t := ⟨h.control, h.cause⟩

theorem sameControl_of_cop0 {s t : Cpu} (cop0 : t.cop0 = s.cop0) : SameControl s t := by
  have same (r : RegNum) : t.creg r = s.creg r := congrArg (·.get r) cop0
  exact ⟨fun r _ _ => same r, by rw [same]⟩

theorem SameControl.trans {s t u : Cpu} (h : SameControl s t) (h' : SameControl t u) : SameControl s u :=
  ⟨fun r address cause => (h'.control r address cause).trans (h.control r address cause), h'.cause.trans h.cause⟩

theorem SameControl.status {s t : Cpu} (h : SameControl s t) : t.status = s.status :=
  h.control Cop0.status (by decide) (by decide)

end Cpu

/-! ## Instructions -/

namespace Guest

variable (g : Guest)

theorem execPrivileged_cpu (after : Flow) (r : Bool × Cpu) : (g.execPrivileged after r).2.cpu = r.2 := by
  obtain ⟨_ | _, cpu⟩ := r <;> rfl

/-- The instruction faults, or leaves the control registers alone. -/
def Spares (r : Flow × Guest) : Prop := (∃ code, r.1 = .fault code) ∨ r.2.cpu.cop0 = g.cpu.cop0

theorem Does.spares {g : Guest} {i : DecodedInsn} {r : Flow × Guest} (does : g.Does i r)
    (writes : i.insn.writesControl = false) : g.Spares r := by
  cases does with
  | computes made plain => exact .inr made.cop0
  | moves rt v move => exact .inr rfl
  | goes made pc transfers => exact .inr made.cop0
  | skips made transfers => exact .inr made.cop0
  | loads accessed loaded made plain => exact .inr made.cop0
  | stores accessed stored plain => exact .inr rfl
  | rewrites accessed stored => exact .inr rfl
  | traps other | misloads accessed other failed | misstores accessed other failed | refused => exact .inl ⟨_, rfl⟩
  | controls cop0 control plain => cases writes.symm.trans control
  | returns pc cop0 insn =>
    rw [insn] at writes
    cases writes

/-- An instruction that writes no control register leaves them all alone, unless it faults. -/
theorem exec_spares {i : DecodedInsn} (writes : i.insn.writesControl = false) : g.Spares (g.exec i) :=
  (g.exec_does i).spares writes

/-- A control register is written only where system control is allowed. -/
theorem usable_of_completes {i : DecodedInsn} (writes : i.insn.writesControl = true)
    (completes : ∀ code, (g.exec i).1 ≠ .fault code) : g.cpu.cop0Usable = true := by
  cases usable : g.cpu.cop0Usable with
  | true => rfl
  | false =>
    have refused := g.exec_refused (Insn.usesControl_of_writesControl writes) usable
    exact absurd (congrArg Prod.fst refused) (completes _)

end Guest

/-! ## What lasts -/

/-- The instructions that complete when they are run in order: not the one that faults, and none after the one
that ends the block. -/
def Guest.completed (g : Guest) : List DecodedInsn → List DecodedInsn
  | [] => []
  | i :: rest =>
    match g.exec i with
    | (.next, g) => i :: g.completed rest
    | (.fault _, _) => []
    | _ => [i]

/-- A property of the control registers that nothing changes in a block: neither what a fault writes, nor the
instructions that write control registers, as far as they complete and are admitted. -/
structure Cpu.Lasting (P : Cpu → Prop) (admitted : Insn → Prop) : Prop where
  same : ∀ {s t : Cpu}, SameControl s t → P s → P t
  writes : ∀ {g : Guest} {i : DecodedInsn}, i.insn.writesControl = true → admitted i.insn →
    (∀ code, (g.exec i).1 ≠ .fault code) → P g.cpu → P (g.exec i).2.cpu

/-- A change of other registers does not count. -/
theorem Cpu.Lasting.cop0 {P : Cpu → Prop} {admitted : Insn → Prop} (h : Lasting P admitted) {s t : Cpu}
    (holds : P s) (cop0 : t.cop0 = s.cop0) : P t :=
  h.same (sameControl_of_cop0 cop0) holds

/-- Where system control is not allowed, it stays as it is. -/
theorem Cpu.lasting_sameControl {s : Cpu} (refused : s.cop0Usable = false) :
    Lasting (SameControl s) fun _ => True where
  same next same := same.trans next
  writes {g i} writes _ completes same := by
    have usable := g.usable_of_completes writes completes
    rw [cop0Usable_congr same.status, refused] at usable
    cases usable

section
variable {P : Cpu → Prop} {admitted : Insn → Prop} (h : Cpu.Lasting P admitted)
include h

namespace Guest

theorem exec_lasting (g : Guest) {i : DecodedInsn}
    (admits : (∀ code, (g.exec i).1 ≠ .fault code) → admitted i.insn) (holds : P g.cpu) :
    P (g.exec i).2.cpu := by
  by_cases faults : ∃ code, (g.exec i).1 = .fault code
  · obtain ⟨code, faults⟩ := faults
    exact h.same (g.exec_precise i code faults).2.sameControl holds
  · have completes := not_exists.1 faults
    cases writes : i.insn.writesControl with
    | true => exact h.writes writes (admits completes) completes holds
    | false => exact h.cop0 holds ((g.exec_spares writes).resolve_left faults)

/-- Each instruction that completes hands on what the ones before it left. -/
theorem execAll_lasting {insns : List DecodedInsn} {g : Guest}
    (admits : ∀ i ∈ g.completed insns, admitted i.insn) (holds : P g.cpu) : P (g.execAll insns).2.cpu := by
  induction insns generalizing g with
  | nil => exact holds
  | cons i rest ih =>
    have kept : P (g.exec i).2.cpu := by
      refine g.exec_lasting h (fun completes => admits i ?_) holds
      unfold completed
      split
      · exact List.mem_cons_self
      · next code _ e => exact absurd (congrArg Prod.fst e) (completes code)
      · exact List.mem_singleton_self i
    unfold completed at admits
    unfold execAll
    generalize g.exec i = r at admits kept ⊢
    obtain ⟨flow, after⟩ := r
    cases flow with
    | next => exact ih (fun j completes => admits j (List.mem_cons_of_mem i completes)) kept
    | fault code => exact h.cop0 kept rfl
    | skipDelaySlot => exact h.cop0 kept rfl
    | redirect => exact kept
    | codeModified =>
      dsimp only
      split
      · exact kept
      · exact h.cop0 kept rfl

theorem leave_lasting (g : Guest) (b : Block) (holds : P g.cpu) : P (g.leave b).2.cpu := by
  unfold leave
  split
  · next addr branchPc _ =>
    exact h.same ((g.cpu.sameButExit_raiseFault .instructionBus (some addr)).at _ _ _).sameControl holds
  · split
    · exact holds
    · exact h.cop0 holds rfl

end Guest

/-- A block keeps what lasts, if the instructions that complete in it are admitted. -/
theorem Block.run_lasting (b : Block) (g : Guest)
    (admits : ∀ i ∈ (g.enter b).completed b.insns, admitted i.insn) (holds : P g.cpu) : P (b.run g).2.cpu := by
  have entered : P (g.enter b).cpu := h.cop0 holds rfl
  have ran := Guest.execAll_lasting h admits entered
  unfold run
  generalize (g.enter b).execAll b.insns = r at ran ⊢
  obtain ⟨_ | exit, after⟩ := r
  · exact after.leave_lasting h b ran
  · exact ran

end

end EmotionEngine
