import EmotionEngine.Proofs.Machine.Ready

/-!
Translating or not makes no difference to a step. A core that is served succeeds in every step and is
served afterwards; and two cores that differ only in how they execute blocks and in the bounds of their
caches take the same step, over memories with the same marks and versions.

Main statements: `Core.step_steady` and `Core.step_alike`.
-/

namespace EmotionEngine

theorem ExcCode.ofNat?_toWord (code : ExcCode) : ofNat? code.toWord.toNat = some code := by
  cases code <;> rfl

namespace Core

/-! ## What a step keeps -/

/-- What every step of a core that is served keeps, and that it succeeds. -/
structure Steady (c : Core) (r : Except CoreError StepOutcome × Core × Shared) : Prop where
  ok : ∃ o, r.1 = .ok o
  config : r.2.1.config = c.config
  breakpoints : r.2.1.breakpoints = c.breakpoints
  zero : r.2.1.cpu.regQuad 0 = c.cpu.regQuad 0
  serves : c.Serves r.2.2

theorem enterException_zero (s : Cpu) (code : ExcCode) (pc : Word) (slot : Bool) :
    (s.enterException code pc slot).regQuad 0 = s.regQuad 0 := by
  unfold Cpu.enterException
  dsimp only
  split <;> rfl

theorem advanceCount_spec (s : Cpu) (n : Word) :
    (s.advanceCount n).regQuad 0 = s.regQuad 0 ∧ (s.advanceCount n).excCode = s.excCode ∧
      (s.advanceCount n).pc = s.pc ∧ (s.advanceCount n).excDelaySlot = s.excDelaySlot := by
  unfold Cpu.advanceCount
  dsimp only
  split <;> exact ⟨rfl, rfl, rfl, rfl⟩

/-- An exception with a known code is reported, and the guest takes it if the policy says so. -/
theorem takeException_known {c : Core} {code : ExcCode} (recorded : c.cpu.excCode = code.toWord) :
    ∃ cpu, c.takeException = (.ok (.exception code c.cpu.pc c.cpu.excDelaySlot
        (c.config.exceptionPolicy = .vector)), { c with cpu }) ∧ cpu.regQuad 0 = c.cpu.regQuad 0 := by
  unfold takeException
  rw [recorded, ExcCode.ofNat?_toWord]
  dsimp only
  split
  · next policy =>
    refine ⟨{ c.cpu with faultPending := false }.enterException code c.cpu.pc c.cpu.excDelaySlot, ?_,
      enterException_zero _ _ _ _⟩
    rw [policy]
    rfl
  · next policy =>
    refine ⟨{ c.cpu with faultPending := false }, ?_, rfl⟩
    rw [policy]
    rfl

theorem execute_serves (c : Core) {s : Shared} (h : c.Serves s) (r : Runnable) :
    c.Serves (c.execute s r).2.2 := by
  have ran := h.absorb (r.block.leads_run { cpu := c.cpu, mem := s.mem } h.fresh.sound)
  cases r with
  | uncached b => exact ran
  | cached handle => exact ran.keep (Cache.unpin_keeps ran.fresh.consistent handle.id)

/-- Executing a block changes neither the configuration nor register 0, and an exception is recorded. -/
theorem execute_known (c : Core) (s : Shared) (r : Runnable) :
    (c.execute s r).2.1.config = c.config ∧ (c.execute s r).2.1.breakpoints = c.breakpoints ∧
      (c.execute s r).2.1.cpu.regQuad 0 = c.cpu.regQuad 0 ∧
      ((c.execute s r).1 = .exception →
        ∃ code : ExcCode, (c.execute s r).2.1.cpu.excCode = code.toWord) := by
  obtain ⟨exit, core, -, -⟩ := c.execute_eq s r
  obtain ⟨zero, raised⟩ := r.block.run_spec { cpu := c.cpu, mem := s.mem }
  obtain ⟨zero', code', -⟩ := advanceCount_spec (r.block.run { cpu := c.cpu, mem := s.mem }).2.cpu
    (BitVec.ofNat 32 r.block.icount)
  rw [core, exit]
  refine ⟨rfl, rfl, zero'.trans zero, ?_⟩
  intro faulted
  obtain ⟨code, recorded⟩ := raised faulted
  exact ⟨code, code'.trans recorded⟩

theorem settle_known {exit : BlockExit} {c : Core} (s : Shared)
    (raised : exit = .exception → ∃ code : ExcCode, c.cpu.excCode = code.toWord) :
    ∃ o cpu, settle (exit, c, s) = (.ok o, { c with cpu }, s) ∧ cpu.regQuad 0 = c.cpu.regQuad 0 := by
  cases exit with
  | exception =>
    obtain ⟨code, recorded⟩ := raised rfl
    obtain ⟨cpu, taken, zero⟩ := takeException_known recorded
    dsimp only [settle]
    rw [taken]
    exact ⟨_, cpu, rfl, zero⟩
  | _ => exact ⟨_, c.cpu, rfl, rfl⟩

/-- A step of a core that is served succeeds, and the core is served afterwards. -/
theorem step_steady (c : Core) {s : Shared} (h : c.Serves s) : c.Steady (c.step s) := by
  have found := c.passing.findBlock_found c.cpu.pc h
  have stepped := c.step_stepped s
  generalize c.step s = result at stepped ⊢
  cases stepped with
  | stops => exact ⟨⟨_, rfl⟩, rfl, rfl, rfl, h⟩
  | interrupts => exact ⟨⟨_, rfl⟩, rfl, rfl, enterException_zero _ _ _ _, h⟩
  | fails _ e =>
    rw [e] at found
    cases found
  | faults _ e =>
    rw [e] at found
    cases found with
    | fault e s' failed serves log =>
      have recorded : (c.passing.fetchFault c.cpu.pc).cpu.excCode = ExcCode.instructionBus.toWord := rfl
      obtain ⟨cpu, taken, zero⟩ := takeException_known recorded
      rw [taken]
      exact ⟨⟨_, rfl⟩, rfl, rfl, zero, serves⟩
  | @runs r s' _ e =>
    rw [e] at found
    cases found with
    | block _ _ built serves log =>
      obtain ⟨config, breakpoints, zero, raised⟩ := c.passing.execute_known s' r
      obtain ⟨o, cpu, settled, zero'⟩ := settle_known (c.passing.execute s' r).2.2 raised
      rw [settled]
      exact ⟨⟨o, rfl⟩, config, breakpoints, zero'.trans zero, c.passing.execute_serves serves r⟩

/-! ## Two cores -/

/-- A core with another way to execute blocks and other bounds for its cache. -/
def retuned (c : Core) (mode : ExecMode) (limits : Cache.Limits) : Core :=
  { c with config := { c.config with execMode := mode, cache := limits } }

/-- The same result, on memories and logs that are the same, of cores that differ in how they execute
blocks. -/
structure Alike {α : Type} (mode : ExecMode) (limits : Cache.Limits) (r r' : α × Core × Shared) : Prop where
  result : r'.1 = r.1
  core : r'.2.1 = r.2.1.retuned mode limits
  mem : r'.2.2.mem = r.2.2.mem
  log : r'.2.2.log = r.2.2.log

section
variable {c : Core} {mode : ExecMode} {limits : Cache.Limits} {s s' : Shared}

theorem takeException_retuned (c : Core) (mode : ExecMode) (limits : Cache.Limits) :
    (c.retuned mode limits).takeException =
      (c.takeException.1, c.takeException.2.retuned mode limits) := by
  unfold takeException retuned
  dsimp only
  split
  · rfl
  · split <;> rfl

theorem execute_alike (mem : s'.mem = s.mem) (log : s'.log = s.log) {r r' : Runnable}
    (block : r'.block = r.block) :
    Alike mode limits (c.execute s r) ((c.retuned mode limits).execute s' r') := by
  obtain ⟨exit, core, mem', log'⟩ := c.execute_eq s r
  obtain ⟨exit₂, core₂, mem₂, log₂⟩ := (c.retuned mode limits).execute_eq s' r'
  rw [block, mem] at exit₂ core₂ mem₂ log₂
  refine ⟨exit₂.trans exit.symm, ?_, mem₂.trans mem'.symm, ?_⟩
  · rw [core₂, core]
    rfl
  · rw [log₂, log', log]
    rfl

theorem settle_alike {ran ran' : BlockExit × Core × Shared} (h : Alike mode limits ran ran') :
    Alike mode limits (settle ran) (settle ran') := by
  obtain ⟨exit, c, s⟩ := ran
  obtain ⟨exit', c', s'⟩ := ran'
  obtain ⟨same, core, mem, log⟩ := h
  dsimp only at same core mem log
  subst same core
  have taken := takeException_retuned c mode limits
  have result := congrArg Prod.fst taken
  have core := congrArg Prod.snd taken
  unfold settle
  cases exit' with
  | exception => exact ⟨result, core, mem, log⟩
  | _ => exact ⟨rfl, rfl, mem, log⟩

theorem stepBlock_alike (h : c.Serves s) (h' : c.Serves s') (mem : s'.mem = s.mem) (log : s'.log = s.log) :
    Alike mode limits (c.stepBlock s) ((c.retuned mode limits).stepBlock s') := by
  have found := c.findBlock_found c.cpu.pc h
  have found' := (c.retuned mode limits).findBlock_found c.cpu.pc (s := s') h'
  generalize result : c.findBlock c.cpu.pc s = r at found
  generalize result' : (c.retuned mode limits).findBlock c.cpu.pc s' = r' at found'
  -- Both build the same block from the same memory, or neither can.
  cases found with
  | fault e s₁ failed serves log₁ =>
    cases found' with
    | block r s₂ built _ log₂ =>
      rw [mem] at built
      cases failed.symm.trans built
    | fault e' s₂ failed' _ log₂ =>
      rw [mem] at failed'
      have same := failed.symm.trans failed'
      have taken := takeException_retuned (c.fetchFault c.cpu.pc) mode limits
      have outcome := congrArg Prod.fst taken
      have core := congrArg Prod.snd taken
      have mem' := congrArg Prod.snd same
      rw [stepBlock_of_fault result, stepBlock_of_fault result']
      exact ⟨outcome, core, mem'.symm, by rw [log₁, log₂, log]⟩
  | block r s₁ built serves log₁ =>
    cases found' with
    | fault e s₂ failed _ log₂ =>
      rw [mem] at failed
      cases built.symm.trans failed
    | block r' s₂ built' _ log₂ =>
      rw [mem] at built'
      have same := built.symm.trans built'
      rw [stepBlock_of_block result, stepBlock_of_block result']
      apply settle_alike
      apply execute_alike
      · exact (congrArg Prod.snd same).symm
      · rw [log₁, log₂, log]
      · exact (Except.ok.inj (congrArg Prod.fst same)).symm

/-- Cores that differ in how they execute blocks take the same step. -/
theorem step_alike (c : Core) (mode : ExecMode) (limits : Cache.Limits) (h : c.Serves s) (h' : c.Serves s')
    (mem : s'.mem = s.mem) (log : s'.log = s.log) :
    Alike mode limits (c.step s) ((c.retuned mode limits).step s') := by
  have passed : (c.retuned mode limits).passing = c.passing.retuned mode limits := rfl
  rw [step_eq, step_eq, passed, show (c.retuned mode limits).atBreakpoint = c.atBreakpoint from rfl]
  split
  · exact ⟨rfl, rfl, mem, log⟩
  · rw [show (c.passing.retuned mode limits).cpu = c.passing.cpu from rfl]
    split
    · exact ⟨rfl, rfl, mem, log⟩
    · exact stepBlock_alike (c := c.passing) h h' mem log

end

end Core

end EmotionEngine
