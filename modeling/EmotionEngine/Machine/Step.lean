import EmotionEngine.Block.Build
import EmotionEngine.Block.Run
import EmotionEngine.Machine.Basic

/-!
One step of a core: report a breakpoint, or take an interrupt, or execute one block and handle the
exception it may end in. A core that translates takes the block from the cache, or else builds,
translates and inserts it; a block that cannot be cached is executed without.
-/

namespace EmotionEngine

/-- What a step did. -/
inductive StepOutcome where
  /-- A block ran. -/
  | continue
  /-- A breakpoint was reached and nothing ran. -/
  | breakpoint (pc : Word)
  /-- An interrupt was taken and nothing ran. -/
  | interrupt
  /-- An exception at `pc`, or in its delay slot; `vectored` if the guest handles it. -/
  | exception (code : ExcCode) (pc : Word) (delaySlot vectored : Bool)
  deriving DecidableEq

namespace Core

/-- A block ready to execute. -/
inductive Runnable where
  /-- From the cache, where it is pinned. -/
  | cached (h : Cache.Handle)
  /-- Outside the cache. -/
  | uncached (b : Block)
  deriving DecidableEq

def Runnable.block : Runnable → Block
  | cached h => h.block
  | uncached b => b

/-- Cache a block and pin it there. `none` if it has to be built again. -/
def cacheBlock (s : Shared) (b : Block) : Except CoreError (Option Runnable) × Shared :=
  match b.translate with
  | .error e => (.error (.compile e), s)
  | .ok t =>
    match s.cache.insert b t s.mem with
    | (.ok _, cache) =>
      let (h, cache) := cache.pin b.start
      (.ok (h.map .cached), { s with cache })
    | (.error (.staleBlock ..), cache) => (.ok none, { s with cache })
    -- A block that finds no room runs all the same.
    | (.error (.capacityExceeded ..), cache) => (.ok (some (.uncached b)), { s with cache })
    | (.error e, cache) => (.error (.cache e), { s with cache })

/-- Build the block at `pc`, again up to `left` times if it cannot be cached as built. `none` if there
is nothing to fetch at `pc`. -/
def prepare (c : Core) (pc : Word) : Nat → Shared → Except CoreError (Option Runnable) × Shared
  | left, s =>
    match Block.build s.mem c.config.maxBlockInsns c.breakpoints pc with
    | (.error (.invalidAddress _), mem) => (.ok none, { s with mem })
    | (.error e, mem) => (.error (.mem e), { s with mem })
    | (.ok b, mem) =>
      let s := { s with mem }
      if c.config.execMode = .interpreter then (.ok (some (.uncached b)), s)
      else
        match cacheBlock s b with
        | (.error e, s) => (.error e, s)
        | (.ok (some r), s) => (.ok (some r), s)
        | (.ok none, s) =>
          match left with
          | 0 => (.ok (some (.uncached b)), s)
          | left + 1 => prepare c pc left s

def findBlock (c : Core) (pc : Word) (s : Shared) : Except CoreError (Option Runnable) × Shared :=
  match c.config.execMode with
  | .interpreter => c.prepare pc c.config.staleRetryLimit s
  | .jit =>
    match s.cache.pin pc with
    | (some h, cache) => (.ok (some (.cached h)), { s with cache })
    | (none, cache) => c.prepare pc c.config.staleRetryLimit { s with cache }

/-- Handle the exception that the processor has recorded, as the policy says. -/
def takeException (c : Core) : Except CoreError StepOutcome × Core :=
  let pc := c.cpu.pc
  match ExcCode.ofNat? c.cpu.excCode.toNat with
  | none => (.error (.badExceptionCode pc c.cpu.excCode.toNat), c)
  | some code =>
    let slot := c.cpu.excDelaySlot
    let cpu := { c.cpu with faultPending := false }
    match c.config.exceptionPolicy with
    | .vector =>
      (.ok (.exception code pc slot true), { c with cpu := cpu.enterException code pc slot })
    | .halt => (.ok (.exception code pc slot false), { c with cpu })

def fetchFault (c : Core) (pc : Word) : Core :=
  { c with
    cpu := { c.cpu.raiseFault .instructionBus (some pc) with excDelaySlot := false } }

def execute (c : Core) (s : Shared) (r : Runnable) : BlockExit × Core × Shared :=
  let (exit, g) := r.block.run { cpu := c.cpu, mem := s.mem }
  -- The cache hears of overwritten code while the block is still pinned.
  let s := { s with mem := g.mem }.absorb
  let s :=
    match r with
    | .cached h => { s with cache := s.cache.unpin h.id }
    | .uncached _ => s
  (exit,
    { c with
      cpu := g.cpu.advanceCount (BitVec.ofNat 32 r.block.icount)
      executed := c.executed + 1 },
    s)

/-- Execute the block at the program counter. -/
def stepBlock (c : Core) (s : Shared) : Except CoreError StepOutcome × Core × Shared :=
  let pc := c.cpu.pc
  match c.findBlock pc s with
  | (.error e, s) => (.error e, c, s)
  | (.ok none, s) =>
    let (outcome, c) := (c.fetchFault pc).takeException
    (outcome, c, s)
  | (.ok (some r), s) =>
    match c.execute s r with
    | (.exception, c, s) =>
      let (outcome, c) := c.takeException
      (outcome, c, s)
    | (_, c, s) => (.ok .continue, c, s)

def step (c : Core) (s : Shared) : Except CoreError StepOutcome × Core × Shared :=
  let pc := c.cpu.pc
  if c.breakpoints.contains pc && c.reported ≠ some pc then
    (.ok (.breakpoint pc), { c with reported := some pc }, s)
  else
    -- A breakpoint that was reported is passed once; the next time it is reported again.
    let c := { c with reported := none, cpu := c.cpu.latchInterrupts c.lines }
    if c.cpu.interruptDeliverable then
      (.ok .interrupt, { c with cpu := c.cpu.enterException .interrupt pc false }, s)
    else c.stepBlock s

end Core

end EmotionEngine
