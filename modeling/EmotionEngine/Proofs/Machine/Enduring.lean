import EmotionEngine.Proofs.Block.Control
import EmotionEngine.Proofs.Machine.Breakpoints
import EmotionEngine.Proofs.Machine.Dispatch

/-!
What a core keeps while the machine is in use.

1. A step latches the interrupt lines, runs a block, counts its instructions and takes the exception that it
   may end in. A property of the control registers that each of these keeps is kept by the step, where an
   interrupt does not come in between (`Core.step_enduring`).
2. Between the steps of a core, other cores are stepped, memory is written, and the core is sent elsewhere;
   its registers stay what they were but for the program counter. So a property that each of its steps keeps,
   it has at every step and at the end (`Machine.session_keeps`).
-/

namespace EmotionEngine

/-! ## Steps -/

/-- A property of the control registers that lasts in blocks, and that is not touched by the interrupt lines
or the count of instructions. -/
structure Cpu.Enduring (P : Cpu → Prop) (admitted : Insn → Prop) : Prop extends Cpu.Lasting P admitted where
  latch : ∀ {s : Cpu} (lines : Word), P s → P (s.latchInterrupts lines)
  count : ∀ {s : Cpu} (insns : Word), P s → P (s.advanceCount insns)

/-- Every handler is entered with the property. -/
def Cpu.Enters (P : Cpu → Prop) : Prop := ∀ s, P s → ∀ code pc slot, P (s.enterException code pc slot)

namespace Core

def completed (c : Core) (s : Shared) : List DecodedInsn :=
  if c.atBreakpoint || c.passing.cpu.interruptDeliverable then []
  else
    match c.passing.findBlock c.cpu.pc s with
    | (.ok (some r), s') =>
      (({ cpu := c.passing.cpu, mem := s'.mem } : Guest).enter r.block).completed r.block.insns
    | _ => []

theorem completed_eq {c : Core} {s s' : Shared} (searches : c.Searches) {r : Runnable}
    (found : c.passing.findBlock c.cpu.pc s = (.ok (some r), s')) :
    c.completed s =
      (({ cpu := c.passing.cpu, mem := s'.mem } : Guest).enter r.block).completed r.block.insns := by
  simp [completed, searches.free, searches.calm, found]

section
variable {P : Cpu → Prop} {admitted : Insn → Prop} (h : Cpu.Enduring P admitted) {c : Core} {s : Shared}
include h

/-- An exception is taken, if the guest does not handle it or its handler is entered with the property. -/
theorem takeException_enduring (enters : c.config.exceptionPolicy = .vector → Cpu.Enters P) (holds : P c.cpu) :
    P c.takeException.2.cpu := by
  have settled : P { c.cpu with faultPending := false } := h.cop0 holds rfl
  have takes := c.takeException_takes
  generalize c.takeException = result at takes ⊢
  cases takes with
  | unknown => exact holds
  | vectors _ policy => exact enters policy _ settled _ _ _
  | halts => exact settled

/-- A block keeps what endures, and so does the exception that it may end in. -/
theorem execute_enduring {r : Runnable} (enters : c.config.exceptionPolicy = .vector → Cpu.Enters P)
    (admits : ∀ i ∈ (({ cpu := c.cpu, mem := s.mem } : Guest).enter r.block).completed r.block.insns,
      admitted i.insn)
    (holds : P c.cpu) : P (settle (c.execute s r)).2.1.cpu := by
  have ran := r.block.run_lasting h.toLasting { cpu := c.cpu, mem := s.mem } admits holds
  have counted := h.count (BitVec.ofNat 32 r.block.icount) ran
  obtain ⟨-, core, -, -⟩ := c.execute_eq s r
  generalize c.execute s r = executed at core
  obtain ⟨exit, c', s'⟩ := executed
  obtain rfl : c' = _ := core
  cases exit with
  | exception => exact takeException_enduring h enters counted
  | _ => exact counted

/-- A step that takes no interrupt keeps what endures. -/
theorem step_enduring (enters : c.config.exceptionPolicy = .vector → Cpu.Enters P)
    (admits : ∀ i ∈ c.completed s, admitted i.insn) (calm : (c.step s).1 ≠ .ok .interrupt) (holds : P c.cpu) :
    P (c.step s).2.1.cpu := by
  have latched : P c.passing.cpu := h.latch c.lines holds
  have stepped := c.step_stepped s
  generalize c.step s = result at stepped calm ⊢
  cases stepped with
  | stops => exact holds
  | interrupts => exact absurd rfl calm
  | fails => exact latched
  | faults =>
    refine takeException_enduring h (c := c.passing.fetchFault c.cpu.pc) enters (h.same ?_ latched)
    exact ((Cpu.sameButExit_raiseFault _ .instructionBus _).at _ _ _).sameControl
  | runs searches found =>
    rw [completed_eq searches found] at admits
    exact execute_enduring h enters admits latched

end

end Core

/-! ## Sessions -/

namespace Machine

/-- The operation neither edits the registers of a core nor resets it. -/
def Op.Spares (core : Nat) : Op → Prop
  | edit i _ | reset i => i ≠ core
  | _ => True

/-- The step that an operation has a core take, if it does: the core, and what it shares at the time. -/
def call? (m : Machine) (core : Nat) : Op → Option (Core × Shared)
  | .step i => if i = core then (m.cores[core]?).map fun c => (c, m.shared) else none
  | _ => none

/-- The steps that a core takes in a session. -/
def calls (m : Machine) (core : Nat) : List Op → List (Core × Shared)
  | [] => []
  | op :: rest => (m.call? core op).toList ++ (m.apply op).2.calls core rest

/-- The core is where it was, at another program counter perhaps. -/
structure Unmoved (c c' : Core) : Prop where
  config : c'.config = c.config
  cpu : ∃ pc, c'.cpu = { c.cpu with pc }

theorem unmoved_refl (c : Core) : Unmoved c c := ⟨rfl, c.cpu.pc, rfl⟩

section
variable {m : Machine} {core : Nat} {c : Core}

theorem change_found (found : m.cores[core]? = some c) (i : Nat) (f : Core → Shared → Core × Shared) :
    (m.change i f).cores[core]? = some (if i = core then (f c m.shared).1 else c) := by
  rw [change_eq]
  by_cases same : i = core
  · subst same
    simp [found, List.getElem?_set_self (List.getElem?_eq_some_iff.1 found).1]
  · cases m.cores[i]? with
    | none => simpa [same] using found
    | some d => simpa [same, List.getElem?_set_ne same] using found

theorem call_of_found (found : m.cores[core]? = some c) {op : Op} {call : Core × Shared}
    (called : m.call? core op = some call) : call = (c, m.shared) := by
  unfold call? at called
  split at called
  · split at called
    · rw [found] at called
      exact (Option.some.inj called).symm
    · cases called
  · cases called

/-- What becomes of a core in an operation that spares it: it takes a step, or is left where it is. -/
theorem apply_found (found : m.cores[core]? = some c) {op : Op} (spares : op.Spares core) :
    ∃ c', (m.apply op).2.cores[core]? = some c' ∧
      (m.call? core op = some (c, m.shared) ∧ c' = (c.step m.shared).2.1 ∨
        m.call? core op = none ∧ Unmoved c c') := by
  have changed (i : Nat) (f : Core → Shared → Core × Shared) (idle : m.call? core op = none)
      (moved : i = core → Unmoved c (f c m.shared).1) :
      ∃ c', (m.change i f).cores[core]? = some c' ∧ (m.call? core op = some (c, m.shared) ∧
        c' = (c.step m.shared).2.1 ∨ m.call? core op = none ∧ Unmoved c c') := by
    refine ⟨_, change_found found i f, .inr ⟨idle, ?_⟩⟩
    split
    · next same => exact moved same
    · exact unmoved_refl c
  cases op with
  | step i =>
    rw [apply_step]
    by_cases same : i = core
    · subst same
      rw [found]
      refine ⟨(c.step m.shared).2.1, ?_, .inl ⟨?_, rfl⟩⟩
      · exact List.getElem?_set_self (List.getElem?_eq_some_iff.1 found).1
      · simp [call?, found]
    · refine ⟨c, ?_, .inr ⟨by simp [call?, same], unmoved_refl c⟩⟩
      cases m.cores[i]? with
      | none => exact found
      | some d => exact (List.getElem?_set_ne same).trans found
  | addBreakpoint i pc =>
    refine changed i _ rfl fun _ => ?_
    unfold Core.addBreakpoint
    split <;> exact ⟨rfl, c.cpu.pc, rfl⟩
  | setPc i pc => exact changed i _ rfl fun _ => ⟨rfl, pc, rfl⟩
  | edit i f => exact changed i _ rfl fun same => absurd same spares
  | reset i => exact changed i _ rfl fun same => absurd same spares
  | removeBreakpoint i _ | raiseLine i _ | clearLine i _ | requestStop i =>
    exact changed i _ rfl fun _ => ⟨rfl, c.cpu.pc, rfl⟩
  | call _ | invalidatePage _ | flush => exact ⟨c, found, .inr ⟨rfl, unmoved_refl c⟩⟩

/-- A property that a core keeps in each of its steps, and wherever it is sent, it has whenever it is stepped
and at the end. -/
theorem session_keeps {P : Core → Prop} (stays : ∀ {c c' : Core}, Unmoved c c' → P c → P c') {ops : List Op}
    (found : m.cores[core]? = some c) (spares : ∀ op ∈ ops, op.Spares core)
    (steps : ∀ call ∈ m.calls core ops, P call.1 → P (call.1.step call.2).2.1) (holds : P c) :
    (∀ call ∈ m.calls core ops, P call.1) ∧ ∃ c', (m.session ops).2.cores[core]? = some c' ∧ P c' := by
  induction ops generalizing m c with
  | nil => exact ⟨fun _ called => absurd called List.not_mem_nil, c, found, holds⟩
  | cons op rest ih =>
    obtain ⟨c', found', became⟩ := apply_found found (spares op List.mem_cons_self)
    have kept : P c' := by
      obtain ⟨called, rfl⟩ | ⟨-, unmoved⟩ := became
      · exact steps (c, m.shared) (by simp [calls, called]) holds
      · exact stays unmoved holds
    have later := ih found' (fun o mem => spares o (List.mem_cons_of_mem _ mem))
      (fun call mem => steps call (List.mem_append_right _ mem)) kept
    refine ⟨fun call mem => ?_, later.2⟩
    obtain now | next := List.mem_append.1 mem
    · obtain rfl := call_of_found found (Option.mem_toList.1 now)
      exact holds
    · exact later.1 call next

/-- What endures is there at every step of the core and at the end, if no interrupt comes in between and what
completes is admitted. -/
theorem session_enduring {P : Cpu → Prop} {admitted : Insn → Prop} (h : Cpu.Enduring P admitted)
    (enters : c.config.exceptionPolicy = .vector → Cpu.Enters P) {ops : List Op}
    (found : m.cores[core]? = some c) (spares : ∀ op ∈ ops, op.Spares core)
    (steps : ∀ call ∈ m.calls core ops, P call.1.cpu →
      (call.1.step call.2).1 ≠ .ok .interrupt ∧ ∀ i ∈ call.1.completed call.2, admitted i.insn)
    (holds : P c.cpu) :
    (∀ call ∈ m.calls core ops, P call.1.cpu) ∧
      ∃ c', (m.session ops).2.cores[core]? = some c' ∧ P c'.cpu := by
  have stays {d d' : Core} (unmoved : Unmoved d d') (here : d.config = c.config ∧ P d.cpu) :
      d'.config = c.config ∧ P d'.cpu := by
    obtain ⟨config, pc, cpu⟩ := unmoved
    rw [config, cpu]
    exact ⟨here.1, h.cop0 here.2 rfl⟩
  have stepped (call : Core × Shared) (called : call ∈ m.calls core ops)
      (here : call.1.config = c.config ∧ P call.1.cpu) :
      (call.1.step call.2).2.1.config = c.config ∧ P (call.1.step call.2).2.1.cpu := by
    obtain ⟨cpu, reported, after, -⟩ := call.1.step_core call.2
    obtain ⟨calm, admits⟩ := steps call called here.2
    refine ⟨by rw [after]; exact here.1, ?_⟩
    exact call.1.step_enduring h (by rwa [here.1]) admits calm here.2
  obtain ⟨each, c', found', -, last⟩ :=
    session_keeps (P := fun d => d.config = c.config ∧ P d.cpu) stays found spares stepped ⟨rfl, holds⟩
  exact ⟨fun call called => (each call called).2, c', found', last⟩

end

end Machine

end EmotionEngine
