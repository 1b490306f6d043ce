import EmotionEngine.Proofs.Machine.Enduring

/-!
An exception handler can go back to where it was called. While Status says that an exception is being handled,
the processor is in kernel mode and takes no interrupt, and a further exception of the handler's own records
neither its address nor its delay slot mark. All else that is written to Status and Cause on the way is beside
the bits that matter: the interrupt enable, the interrupt requests, the field CE and the code of the exception.
So the restart address and the mark stay until an instruction writes control registers or returns
(`Cpu.enduring_handling`); and the first return goes to that address (`Core.step_eret`).

Main statement: `Machine.handler_keeps_return`.
-/

namespace EmotionEngine

/-! ## Masks -/

theorem or_and_of_apart {v mask : Word} (apart : v &&& mask = 0) (x : Word) : (x ||| v) &&& mask = x &&& mask := by
  rw [BitVec.and_comm, BitVec.and_or_distrib_left, BitVec.and_comm mask v, apart, BitVec.and_comm]
  exact BitVec.or_zero

theorem and_and_of_within {v mask : Word} (within : v &&& mask = mask) (x : Word) :
    (x &&& v) &&& mask = x &&& mask := by
  rw [BitVec.and_assoc, within]

/-! ## Handling an exception -/

/-- The instruction does not touch what is kept for the return: it neither returns nor writes a control register
of its choice. -/
def Insn.Stays (i : Insn) : Prop := i ≠ .eret ∧ ∀ rt rd, i ≠ .cop0Move .mtc0 rt rd

namespace Cpu

/-- An exception is being handled, with what the processor keeps for the return from it. -/
structure Handling (erl epc bd : Word) (s : Cpu) : Prop where
  exl : s.status &&& Status.exl ≠ 0
  erl : s.status &&& Status.erl = erl
  epc : s.creg Cop0.epc = epc
  bd : s.creg Cop0.cause &&& Cause.bd = bd

/-- Whatever was handled before, an exception is handled after an entry. -/
theorem exl_enterException (s : Cpu) (code : ExcCode) (pc : Word) (slot : Bool) :
    (s.enterException code pc slot).status &&& Status.exl ≠ 0 := by
  intro none
  have set : Status.exl.getLsbD 1 = true := by decide
  have bit := congrArg (BitVec.getLsbD · 1) none
  simp only [status_enterException, BitVec.getLsbD_and, BitVec.getLsbD_or, set, Bool.or_true, Bool.and_true] at bit
  cases bit

section
variable {erl epc bd : Word} {s : Cpu} (h : s.Handling erl epc bd)
include h

theorem Handling.levels : s.status &&& (Status.exl ||| Status.erl) ≠ 0 := by
  intro none
  apply h.exl
  rw [← and_and_of_within (v := Status.exl ||| Status.erl) (by decide), none]
  rfl

theorem Handling.kernel : s.inKernelMode = true := by
  rw [inKernelMode, Bool.or_eq_true]
  exact .inr (bne_iff_ne.2 h.levels)

theorem Handling.usable : s.cop0Usable = true := by
  rw [cop0Usable, h.kernel, Bool.true_or]

theorem Handling.calm : s.interruptDeliverable = false := by
  have levels : (s.status &&& (Status.exl ||| Status.erl) == 0) = false := beq_eq_false_iff_ne.2 h.levels
  simp only [interruptDeliverable, levels, Bool.and_false, Bool.false_and]

theorem Handling.keep {t : Cpu} (exl : t.status &&& Status.exl = s.status &&& Status.exl)
    (erl' : t.status &&& Status.erl = s.status &&& Status.erl) (epc' : t.creg Cop0.epc = s.creg Cop0.epc)
    (bd' : t.creg Cop0.cause &&& Cause.bd = s.creg Cop0.cause &&& Cause.bd) : t.Handling erl epc bd :=
  ⟨by rw [exl]; exact h.exl, erl'.trans h.erl, epc'.trans h.epc, bd'.trans h.bd⟩

theorem Handling.sameControl {t : Cpu} (same : SameControl s t) : t.Handling erl epc bd := by
  refine h.keep (by rw [same.status]) (by rw [same.status]) (same.control _ (by decide) (by decide)) ?_
  rw [← and_and_of_within (v := ~~~Cause.ceMask) (by decide), same.cause, and_and_of_within (by decide)]

theorem Handling.latch (lines : Word) : (s.latchInterrupts lines).Handling erl epc bd := by
  have status : (s.latchInterrupts lines).status = s.status := s.creg_latchInterrupts lines (by decide)
  refine h.keep (by rw [status]) (by rw [status]) (s.creg_latchInterrupts lines (by decide)) ?_
  show (s.setCreg Cop0.cause _).creg Cop0.cause &&& Cause.bd = _
  have outside (v : Word) {mask : Word} (apart : mask &&& Cause.bd = 0) : (v &&& mask) &&& Cause.bd = 0 := by
    rw [BitVec.and_assoc, apart]
    exact BitVec.and_zero
  rw [creg_setCreg_self, or_and_of_apart (outside _ (by decide)), or_and_of_apart (outside _ (by decide)),
    and_and_of_within (by decide)]

theorem Handling.count (insns : Word) : (s.advanceCount insns).Handling erl epc bd := by
  have status : (s.advanceCount insns).status = s.status := s.creg_advanceCount insns (by decide) (by decide)
  refine h.keep (by rw [status]) (by rw [status]) (s.creg_advanceCount insns (by decide) (by decide)) ?_
  rw [cause_advanceCount]
  split
  · exact or_and_of_apart (by decide) _
  · rfl

theorem Handling.setEie (enable : Bool) : (s.setEie enable).2.Handling erl epc bd := by
  unfold Cpu.setEie
  rw [if_pos h.usable, h.kernel, Bool.true_or, if_pos rfl]
  have status (v : Word) : (s.setCreg Cop0.status v).status = v := s.creg_setCreg_self Cop0.status v
  refine h.keep ?_ ?_ (s.creg_setCreg_ne (by decide) _) (by rw [s.creg_setCreg_ne (by decide)])
  all_goals
    rw [status]
    split
    · exact or_and_of_apart (by decide) _
    · exact and_and_of_within (by decide) _

/-- A further exception is entered without a trace of where it was. -/
theorem Handling.enterException (code : ExcCode) (pc : Word) (slot : Bool) :
    (s.enterException code pc slot).Handling erl epc bd := by
  have nested : (s.status &&& Status.exl == 0) = false := beq_eq_false_iff_ne.2 h.exl
  have status := s.status_enterException code pc slot
  have none : code.toWord <<< 2 &&& Cause.bd = 0 := by cases code <;> decide
  constructor
  case exl => exact s.exl_enterException code pc slot
  case erl => rw [status, or_and_of_apart (by decide), h.erl]
  case epc =>
    rw [epc_enterException, nested]
    exact h.epc
  case bd =>
    rw [cause_enterException, nested]
    show (_ &&& _ ||| _) &&& Cause.bd = bd
    rw [or_and_of_apart none, and_and_of_within (by decide), h.bd]

end

/-- The first exception is entered with the address to go back to. -/
theorem handling_enterException {s : Cpu} (exl : s.status &&& Status.exl = 0) (erl : s.status &&& Status.erl = 0)
    (code : ExcCode) (pc : Word) (slot : Bool) :
    ∃ bd, (s.enterException code pc slot).Handling 0 pc bd := by
  refine ⟨_, s.exl_enterException code pc slot, ?_, ?_, rfl⟩
  · rw [status_enterException, or_and_of_apart (by decide), erl]
  · rw [epc_enterException, exl]
    rfl

theorem Handling.eret {s : Cpu} {epc bd : Word} (h : s.Handling 0 epc bd) :
    s.eret.1 = true ∧ s.eret.2.pc = epc ∧ s.eret.2.status &&& Status.exl = 0 := by
  have level : (s.status &&& Status.erl != 0) = false := by simp [h.erl]
  unfold Cpu.eret
  rw [if_pos h.usable, level, if_neg (by decide)]
  refine ⟨rfl, h.epc, ?_⟩
  show (setCreg _ Cop0.status _).creg Cop0.status &&& _ = _
  rw [creg_setCreg_self, BitVec.and_assoc, show ~~~Status.exl &&& Status.exl = 0 by decide]
  exact BitVec.and_zero

/-- What is kept for the return lasts as long as no instruction touches it. -/
theorem enduring_handling (erl epc bd : Word) : Enduring (Handling erl epc bd) Insn.Stays where
  same same h := h.sameControl same
  writes {g i} writes stays _ h := by
    cases hi : i.insn with
    | cop0Move op rt rd =>
      cases op with
      | mfc0 => simp [hi, Insn.writesControl] at writes
      | mtc0 => exact absurd hi (stays.2 rt rd)
    | eret => exact absurd hi stays.1
    | ei | di =>
      simp only [Guest.exec, hi, Guest.execPrivileged_cpu]
      exact h.setEie _
    | _ => simp [hi, Insn.writesControl] at writes
  latch lines h := h.latch lines
  count insns h := h.count insns

end Cpu

/-! ## The return -/

namespace Guest

variable {P : Cpu → Prop} {admitted : Insn → Prop}

theorem exec_eret {g : Guest} {i : DecodedInsn} (returns : i.insn = .eret) :
    g.exec i = g.execPrivileged .redirect g.cpu.eret := by
  simp only [exec, returns]

/-- A return that completes ends the instructions, and finds what lasts as the ones before it left it. -/
theorem execAll_eret (h : Cpu.Lasting P admitted) {insns : List DecodedInsn} {g : Guest}
    (returns : ∃ i ∈ g.completed insns, i.insn = .eret)
    (admits : ∀ i ∈ g.completed insns, i.insn ≠ .eret → admitted i.insn) (holds : P g.cpu) :
    ∃ before : Guest, P before.cpu ∧
      g.execAll insns = (some .branch, { before with cpu := before.cpu.eret.2 }) := by
  induction insns generalizing g with
  | nil => simp [completed] at returns
  | cons i rest ih =>
    by_cases eret : i.insn = .eret
    · -- It completes or faults, and ends the run either way; a fault completes nothing.
      refine ⟨g, holds, ?_⟩
      unfold completed at returns
      unfold execAll
      rw [exec_eret eret] at returns ⊢
      generalize g.cpu.eret = r at returns ⊢
      obtain ⟨_ | _, cpu⟩ := r
      · simp [execPrivileged, recordedFault] at returns
      · rfl
    · unfold completed at returns admits
      unfold execAll
      have kept (completes : i.insn ≠ .eret → admitted i.insn) : P (g.exec i).2.cpu :=
        g.exec_lasting h (fun _ => completes eret) holds
      generalize g.exec i = r at returns admits kept ⊢
      obtain ⟨flow, after⟩ := r
      cases flow with
      | next =>
        obtain ⟨j, completes, returns⟩ := returns
        obtain rfl | later := List.mem_cons.1 completes
        · exact absurd returns eret
        · exact ih ⟨j, later, returns⟩ (fun k completes => admits k (List.mem_cons_of_mem i completes))
            (kept (admits i List.mem_cons_self))
      | fault code => simp at returns
      | skipDelaySlot | redirect | codeModified => simp [eret] at returns

end Guest

/-- A step in which a return completes takes it, from a processor that has what endures. -/
theorem Core.step_eret {P : Cpu → Prop} {admitted : Insn → Prop} (h : Cpu.Enduring P admitted) {c : Core}
    {s : Shared} (returns : ∃ i ∈ c.completed s, i.insn = .eret)
    (admits : ∀ i ∈ c.completed s, i.insn ≠ .eret → admitted i.insn) (holds : P c.cpu) :
    ∃ (before : Cpu) (insns : Word), P before ∧ (c.step s).1 = .ok .continue ∧
      (c.step s).2.1.cpu = before.eret.2.advanceCount insns := by
  have latched : P c.passing.cpu := h.latch c.lines holds
  have stepped := c.step_stepped s
  generalize c.step s = result at stepped ⊢
  cases stepped with
  | stops stopped => simp [completed, stopped] at returns
  | interrupts free deliverable => simp [completed, deliverable] at returns
  | fails searches found | faults searches found =>
    simp [completed, searches.free, searches.calm, found] at returns
  | @runs r s' searches found =>
    rw [completed_eq searches found] at returns admits
    obtain ⟨before, holds', ran⟩ := Guest.execAll_eret h.toLasting returns admits (h.cop0 latched rfl)
    have ends : r.block.run { cpu := c.passing.cpu, mem := s'.mem } =
        (.branch, { before with cpu := before.cpu.eret.2 }) := by
      rw [Block.run, ran]
    obtain ⟨exit, core, -, -⟩ := c.passing.execute_eq s' r
    refine ⟨before.cpu, BitVec.ofNat 32 r.block.icount, holds', ?_⟩
    rw [ends] at exit core
    generalize c.passing.execute s' r = executed at exit core ⊢
    obtain ⟨exit', c', s''⟩ := executed
    obtain rfl : exit' = .branch := exit
    obtain rfl : c' = _ := core
    exact ⟨rfl, rfl⟩

namespace Core

theorem takeException_outcome (c : Core) : c.takeException.1 ≠ .ok .interrupt := by
  have takes := c.takeException_takes
  generalize c.takeException = result at takes ⊢
  cases takes <;> nofun

theorem settle_outcome (ran : BlockExit × Core × Shared) : (settle ran).1 ≠ .ok .interrupt := by
  obtain ⟨exit, c, s⟩ := ran
  cases exit with
  | exception => exact c.takeException_outcome
  | _ => nofun

theorem step_calm {erl epc bd : Word} {c : Core} (handling : c.cpu.Handling erl epc bd) (s : Shared) :
    (c.step s).1 ≠ .ok .interrupt := by
  have calm : c.passing.cpu.interruptDeliverable = false := (handling.latch c.lines).calm
  have stepped := c.step_stepped s
  generalize c.step s = result at stepped ⊢
  cases stepped with
  | stops | fails => nofun
  | interrupts free deliverable => cases calm.symm.trans deliverable
  | faults => exact takeException_outcome _
  | runs => exact settle_outcome _

end Core

namespace Machine

/-- A handler keeps what it goes back to. While an exception is handled, whatever code a core runs and whatever
goes on around it, as long as no return and no write of a control register completes: no step takes an
interrupt, the exception is still being handled, and the restart address and the delay slot mark are what they
were. If the exception was entered from normal execution, a return at any later point goes to the address that
it was entered with, and ends the handling. -/
theorem handler_keeps_return {m : Machine} {core : Nat} {c : Core} {ops : List Op}
    (found : m.cores[core]? = some c) (handling : c.cpu.status &&& Status.exl ≠ 0)
    (spares : ∀ op ∈ ops, op.Spares core)
    (stays : ∀ call ∈ m.calls core ops, ∀ i ∈ call.1.completed call.2,
      i.insn ≠ .eret ∧ ∀ rt rd, i.insn ≠ .cop0Move .mtc0 rt rd) :
    (∀ call ∈ m.calls core ops, (call.1.step call.2).1 ≠ .ok .interrupt) ∧
      ∃ c', (m.session ops).2.cores[core]? = some c' ∧ c'.cpu.status &&& Status.exl ≠ 0 ∧
        c'.cpu.creg Cop0.epc = c.cpu.creg Cop0.epc ∧
        c'.cpu.creg Cop0.cause &&& Cause.bd = c.cpu.creg Cop0.cause &&& Cause.bd ∧
        ∀ (s : Cpu) (code : ExcCode) (pc : Word) (slot : Bool), s.status &&& Status.exl = 0 →
          s.status &&& Status.erl = 0 → c.cpu = s.enterException code pc slot →
            (c'.cpu.eret.1 = true ∧ c'.cpu.eret.2.pc = pc ∧ c'.cpu.eret.2.status &&& Status.exl = 0) ∧
              ∀ shared : Shared, (∃ i ∈ c'.completed shared, i.insn = .eret) →
                (∀ i ∈ c'.completed shared, ∀ rt rd, i.insn ≠ .cop0Move .mtc0 rt rd) →
                  (c'.step shared).1 = .ok .continue ∧ (c'.step shared).2.1.cpu.pc = pc ∧
                    (c'.step shared).2.1.cpu.status &&& Status.exl = 0 := by
  have endures := Cpu.enduring_handling (c.cpu.status &&& Status.erl) (c.cpu.creg Cop0.epc)
    (c.cpu.creg Cop0.cause &&& Cause.bd)
  obtain ⟨each, c', found', last⟩ := session_enduring endures
    (fun _ _ h code pc slot => h.enterException code pc slot) found spares
    (fun call called h => ⟨call.1.step_calm h call.2, stays call called⟩) ⟨handling, rfl, rfl, rfl⟩
  refine ⟨fun call called => call.1.step_calm (each call called) call.2, c', found', last.exl, last.epc, last.bd, ?_⟩
  intro s code pc slot exl erl entered
  obtain ⟨bd, first⟩ := Cpu.handling_enterException exl erl code pc slot
  rw [← entered] at first
  rw [first.erl, first.epc] at last
  refine ⟨last.eret, fun shared returns unwritten => ?_⟩
  obtain ⟨before, insns, holds, outcome, after⟩ :=
    c'.step_eret (Cpu.enduring_handling 0 pc _) returns (fun i here eret => ⟨eret, unwritten i here⟩) last
  obtain ⟨-, goes, ends⟩ := holds.eret
  rw [after]
  refine ⟨outcome, (Core.advanceCount_spec _ insns).2.2.1.trans goes, ?_⟩
  rw [Cpu.status, Cpu.creg_advanceCount _ insns (by decide) (by decide)]
  exact ends

/-- User code in normal execution, with interrupts enabled. -/
def callerCpu : Cpu := Cpu.new.setCreg Cop0.status 0x10411

/-- A core that has just entered the handler of its system call, which was in a delay slot. -/
def nestedCore : Core :=
  { cpu := callerCpu.enterException .syscall 0x104 true, config := { execMode := .interpreter } }

/-- The handler's first instruction is a system call too. -/
def nestedMachine : Machine :=
  { shared := Shared.ofMemory (((Memory.empty 4096).withRam 0 4096).write .word 0x180 0xC).2 {}
    cores := [nestedCore] }

/-- An interrupt line is raised, the handler runs into its own call, and then a return is written in its place. -/
def nestedOps : List Op := [.raiseLine 0 0x400, .step 0, .call (.write .word 0x180 0x42000018)]

/-- The handler is entered again at its own instruction, and still goes back to the first call. -/
theorem handler_keeps_return_nested :
    let ran := nestedMachine.session nestedOps
    (nestedMachine.calls 0 nestedOps).map (fun call => (call.1.step call.2).1.toOption) =
        [some (.exception .syscall 0x80000180 false true)] ∧
      ∃ c', ran.2.cores[0]? = some c' ∧ c'.cpu.creg Cop0.epc = 0x104 ∧
        c'.cpu.creg Cop0.cause &&& Cause.bd = Cause.bd ∧ (c'.step ran.2.shared).1 = .ok .continue ∧
        (c'.step ran.2.shared).2.1.cpu.pc = 0x104 ∧
        (c'.step ran.2.shared).2.1.cpu.status &&& Status.exl = 0 := by
  have completed : (nestedMachine.calls 0 nestedOps).map (fun call => call.1.completed call.2) = [[]] := by
    decide +kernel
  have stays : ∀ call ∈ nestedMachine.calls 0 nestedOps, ∀ i ∈ call.1.completed call.2,
      i.insn ≠ .eret ∧ ∀ rt rd, i.insn ≠ .cop0Move .mtc0 rt rd := by
    intro call called i here
    have none := List.mem_map_of_mem (f := fun call => call.1.completed call.2) called
    rw [completed, List.mem_singleton] at none
    rw [show call.1.completed call.2 = [] from none] at here
    cases here
  have found : nestedMachine.cores[0]? = some nestedCore := rfl
  obtain ⟨-, c', found, -, epc, bd, returns⟩ := handler_keeps_return found
    (callerCpu.exl_enterException .syscall 0x104 true) (by simp [nestedOps, Op.Spares]) stays
  have last : ((nestedMachine.session nestedOps).2.cores[0]?).map
      (fun c => (c.completed (nestedMachine.session nestedOps).2.shared).map DecodedInsn.insn) = some [.eret] := by
    decide +kernel
  rw [found, Option.map_some, Option.some.injEq] at last
  have only (i : DecodedInsn) (here : i ∈ c'.completed (nestedMachine.session nestedOps).2.shared) :
      i.insn = .eret := by
    have insn := List.mem_map_of_mem (f := DecodedInsn.insn) here
    rwa [last, List.mem_singleton] at insn
  have some : ∃ i ∈ c'.completed (nestedMachine.session nestedOps).2.shared, i.insn = .eret :=
    List.mem_map.1 (by rw [last]; exact List.mem_singleton_self _)
  obtain ⟨-, goes⟩ := returns callerCpu .syscall 0x104 true (by decide +kernel) (by decide +kernel) rfl
  refine ⟨by decide +kernel, c', found, epc.trans (by decide +kernel), bd.trans (by decide +kernel), ?_⟩
  exact goes _ some fun i here rt rd => by simp [only i here]

end Machine

end EmotionEngine
