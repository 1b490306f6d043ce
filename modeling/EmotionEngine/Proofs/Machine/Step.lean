import EmotionEngine.Machine.Step

/-!
The ways a step can go. A core reports a breakpoint, or takes an interrupt, or looks for a block; then the search
fails, or there is nothing to fetch, or a block runs and is settled (`Core.Stepped`). The exception that a processor
has recorded is unknown, or handled by the guest, or only reported (`Core.Takes`).

Main statements: `Core.step_stepped` and `Core.takeException_takes`. What holds of every step is read off these.
-/

namespace EmotionEngine.Core

/-! ## Exceptions -/

/-- What becomes of the exception that the processor has recorded. -/
inductive Takes (c : Core) : Except CoreError StepOutcome × Core → Prop where
  /-- No exception has its number. -/
  | unknown (number : ExcCode.ofNat? c.cpu.excCode.toNat = none) :
      Takes c (.error (.badExceptionCode c.cpu.pc c.cpu.excCode.toNat), c)
  /-- The guest handles it. -/
  | vectors {code : ExcCode} (number : ExcCode.ofNat? c.cpu.excCode.toNat = some code)
      (policy : c.config.exceptionPolicy = .vector) :
      Takes c (.ok (.exception code c.cpu.pc c.cpu.excDelaySlot true),
        { c with cpu := { c.cpu with faultPending := false }.enterException code c.cpu.pc c.cpu.excDelaySlot })
  /-- It is reported. -/
  | halts {code : ExcCode} (number : ExcCode.ofNat? c.cpu.excCode.toNat = some code)
      (policy : c.config.exceptionPolicy = .halt) :
      Takes c (.ok (.exception code c.cpu.pc c.cpu.excDelaySlot false),
        { c with cpu := { c.cpu with faultPending := false } })

theorem takeException_takes (c : Core) : Takes c c.takeException := by
  unfold takeException
  dsimp only
  split
  · next number => exact .unknown number
  · next code number =>
    split
    · next policy => exact .vectors number policy
    · next policy => exact .halts number policy

/-! ## Blocks -/

/-- What executing a block does to the core, and what it leaves of memory and the log. -/
theorem execute_eq (c : Core) (s : Shared) (r : Runnable) :
    let ran := r.block.run { cpu := c.cpu, mem := s.mem }
    (c.execute s r).1 = ran.1 ∧
      (c.execute s r).2.1 = { c with
        cpu := ran.2.cpu.advanceCount (BitVec.ofNat 32 r.block.icount)
        executed := c.executed + 1 } ∧
      (c.execute s r).2.2.mem = { ran.2.mem with events := #[] } ∧
      (c.execute s r).2.2.log = s.log ++ ran.2.mem.events := by
  cases r <;> exact ⟨rfl, rfl, rfl, rfl⟩

def settle : BlockExit × Core × Shared → Except CoreError StepOutcome × Core × Shared
  | (.exception, c, s) => (c.takeException.1, c.takeException.2, s)
  | (_, c, s) => (.ok .continue, c, s)

@[simp] theorem settle_shared (ran : BlockExit × Core × Shared) : (settle ran).2.2 = ran.2.2 := by
  obtain ⟨exit, c, s⟩ := ran
  cases exit <;> rfl

theorem stepBlock_of_block {c : Core} {s s' : Shared} {r : Runnable}
    (found : c.findBlock c.cpu.pc s = (.ok (some r), s')) : c.stepBlock s = settle (c.execute s' r) := by
  unfold stepBlock
  dsimp only
  rw [found]
  dsimp only
  generalize c.execute s' r = ran
  obtain ⟨exit, c', s''⟩ := ran
  cases exit <;> rfl

theorem stepBlock_of_fault {c : Core} {s s' : Shared} (found : c.findBlock c.cpu.pc s = (.ok none, s')) :
    c.stepBlock s =
      ((c.fetchFault c.cpu.pc).takeException.1, (c.fetchFault c.cpu.pc).takeException.2, s') := by
  unfold stepBlock
  dsimp only
  rw [found]

/-! ## Steps -/

def atBreakpoint (c : Core) : Bool := c.breakpoints.contains c.cpu.pc && c.reported ≠ some c.cpu.pc

/-- A core that goes on, with the interrupt lines as they are now. -/
def passing (c : Core) : Core := { c with reported := none, cpu := c.cpu.latchInterrupts c.lines }

theorem step_eq (c : Core) (s : Shared) :
    c.step s =
      if c.atBreakpoint then (.ok (.breakpoint c.cpu.pc), { c with reported := some c.cpu.pc }, s)
      else if c.passing.cpu.interruptDeliverable then
        (.ok .interrupt,
          { c.passing with cpu := c.passing.cpu.enterException .interrupt c.cpu.pc false }, s)
      else c.passing.stepBlock s := rfl

/-- Neither a breakpoint nor an interrupt keeps the core from looking for a block. -/
structure Searches (c : Core) : Prop where
  free : c.atBreakpoint = false
  calm : c.passing.cpu.interruptDeliverable = false

/-- How a step goes. -/
inductive Stepped (c : Core) (s : Shared) : Except CoreError StepOutcome × Core × Shared → Prop where
  /-- A breakpoint is reported. -/
  | stops (stopped : c.atBreakpoint = true) :
      Stepped c s (.ok (.breakpoint c.cpu.pc), { c with reported := some c.cpu.pc }, s)
  /-- An interrupt is taken. -/
  | interrupts (free : c.atBreakpoint = false) (deliverable : c.passing.cpu.interruptDeliverable = true) :
      Stepped c s (.ok .interrupt,
        { c.passing with cpu := c.passing.cpu.enterException .interrupt c.cpu.pc false }, s)
  /-- The search for a block fails. -/
  | fails {e : CoreError} {s' : Shared} (searches : c.Searches)
      (found : c.passing.findBlock c.cpu.pc s = (.error e, s')) : Stepped c s (.error e, c.passing, s')
  /-- There is nothing to fetch. -/
  | faults {s' : Shared} (searches : c.Searches) (found : c.passing.findBlock c.cpu.pc s = (.ok none, s')) :
      Stepped c s ((c.passing.fetchFault c.cpu.pc).takeException.1, (c.passing.fetchFault c.cpu.pc).takeException.2, s')
  /-- A block runs. -/
  | runs {r : Runnable} {s' : Shared} (searches : c.Searches)
      (found : c.passing.findBlock c.cpu.pc s = (.ok (some r), s')) : Stepped c s (settle (c.passing.execute s' r))

theorem step_stepped (c : Core) (s : Shared) : Stepped c s (c.step s) := by
  rw [step_eq]
  split
  · next stopped => exact .stops stopped
  · next free =>
    rw [Bool.not_eq_true] at free
    split
    · next deliverable => exact .interrupts free deliverable
    · next calm =>
      rw [Bool.not_eq_true] at calm
      have searches : c.Searches := ⟨free, calm⟩
      generalize found : c.passing.findBlock c.cpu.pc s = result
      obtain ⟨e | _ | r, s'⟩ := result
      · have failed : c.passing.stepBlock s = (.error e, c.passing, s') := by
          unfold stepBlock
          dsimp only
          rw [show c.passing.findBlock c.passing.cpu.pc s = _ from found]
        rw [failed]
        exact .fails searches found
      · rw [stepBlock_of_fault (c := c.passing) found]
        exact .faults searches found
      · rw [stepBlock_of_block (c := c.passing) found]
        exact .runs searches found

end EmotionEngine.Core
