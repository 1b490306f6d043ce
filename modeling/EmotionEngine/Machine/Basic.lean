import EmotionEngine.Cache.Insert
import EmotionEngine.Cpu.Control

/-!
Machines: cores that share one memory and one translation cache. A core has its processor and what the
outside can change between blocks: breakpoints, interrupt lines and a request to stop.
-/

namespace EmotionEngine

/-- What a core does with an exception of the guest. -/
inductive ExceptionPolicy where
  /-- Enter the guest's handler. -/
  | vector
  /-- Stop and report it. -/
  | halt
  deriving DecidableEq

/-- How blocks are executed. -/
inductive ExecMode where
  /-- Translated, from the cache. -/
  | jit
  /-- One instruction after another, without the cache. -/
  | interpreter
  deriving DecidableEq

namespace Core

/-- How a core is configured. -/
structure Config where
  /-- The most instructions a block may have, its delay slot aside. -/
  maxBlockInsns : Nat := 512
  cache : Cache.Limits := {}
  exceptionPolicy : ExceptionPolicy := .vector
  execMode : ExecMode := .jit
  /-- How often a block that changed while it was translated is built again. -/
  staleRetryLimit : Nat := 4
  deriving DecidableEq

end Core

/-- A core. -/
structure Core where
  cpu : Cpu
  config : Core.Config
  breakpoints : List Word := []
  /-- The breakpoint reported last; the next step runs through it. -/
  reported : Option Word := none
  stopRequested : Bool := false
  /-- The interrupt lines that are raised, as bits of Cause. -/
  lines : Word := 0
  /-- How many blocks the core has executed. -/
  executed : Nat := 0

/-- What cores share. -/
structure Shared where
  mem : Memory
  cache : Cache
  /-- What memory has told so far. -/
  log : Array Event := #[]

namespace Shared

/-- Take in what memory tells: the cache drops what was overwritten, and the log keeps all. -/
def absorb (s : Shared) : Shared :=
  let (events, mem) := s.mem.takeEvents
  { mem, cache := s.cache.notice events, log := s.log ++ events }

def ofMemory (mem : Memory) (limits : Cache.Limits) : Shared := { mem, cache := Cache.ofLimits limits }

end Shared

/-- A machine. -/
structure Machine where
  shared : Shared
  cores : List Core

namespace Core

def ofConfig (config : Config) : Core := { cpu := Cpu.new, config }

/-- Go on at an address, where a breakpoint is reported again. -/
def setPc (c : Core) (pc : Word) : Core :=
  { c with cpu := { c.cpu with pc }, reported := none }

/-- Add a breakpoint. Blocks end before breakpoints, so blocks made before are dropped. -/
def addBreakpoint (c : Core) (s : Shared) (pc : Word) : Core × Shared :=
  if c.breakpoints.contains pc then (c, s)
  else ({ c with breakpoints := c.breakpoints ++ [pc] }, { s with cache := s.cache.flush })

def removeBreakpoint (c : Core) (pc : Word) : Core :=
  { c with breakpoints := c.breakpoints.filter (· ≠ pc) }

/-- The bit in Cause of an interrupt line. The lines are 2 to 7; others up to 23 have no bit, and there
are no more. -/
def lineBit? (line : Nat) : Option Word :=
  if line < 24 then some ((1#32 <<< (8 + line)) &&& Cause.ipMask) else none

def raiseLine (c : Core) (bit : Word) : Core := { c with lines := c.lines ||| bit }

def clearLine (c : Core) (bit : Word) : Core := { c with lines := c.lines &&& ~~~bit }

/-- Ask the core to stop at its next block. -/
def requestStop (c : Core) : Core := { c with stopRequested := true }

/-- Power-on reset. Every cached block is dropped. -/
def reset (c : Core) (s : Shared) : Core × Shared :=
  ({ c with cpu := c.cpu.reset, reported := none, stopRequested := false },
    { s with cache := s.cache.flush })

end Core

end EmotionEngine
