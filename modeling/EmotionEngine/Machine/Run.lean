import EmotionEngine.Machine.Step

/-!
Running a core: steps until it is asked to stop, reaches a breakpoint, halts on an exception or has used
up its budget of steps. `Machine` runs each of its cores on what they share.
-/

namespace EmotionEngine

/-- Why a run ended. -/
inductive RunExit where
  | stopped
  | breakpoint (pc : Word)
  /-- An exception that the policy does not pass on to the guest. -/
  | guestException (code : ExcCode) (pc : Word) (delaySlot : Bool)
  /-- The budget of steps is used up. -/
  | blockLimit
  deriving DecidableEq

namespace Core

/-- Run for at most `n` steps. A request to stop is seen before each step and after the last. -/
def runBlocks (c : Core) (s : Shared) (n : Nat) : Except CoreError RunExit × Core × Shared :=
  if c.stopRequested then (.ok .stopped, { c with stopRequested := false }, s)
  else
    match n with
    | 0 => (.ok .blockLimit, c, s)
    | n + 1 =>
      match c.step s with
      | (.error e, c, s) => (.error e, c, s)
      | (.ok (.breakpoint pc), c, s) => (.ok (.breakpoint pc), c, s)
      | (.ok (.exception code pc slot false), c, s) => (.ok (.guestException code pc slot), c, s)
      | (.ok _, c, s) => runBlocks c s n

/-- More steps than any run takes: the range of a 64-bit counter of steps. -/
def unlimited : Nat := twoPow 64

def run (c : Core) (s : Shared) : Except CoreError RunExit × Core × Shared := c.runBlocks s unlimited

end Core

namespace Machine

/-- `n` cores of one configuration over a memory. -/
def ofMemory (mem : Memory) (config : Core.Config) (n : Nat) : Machine :=
  { shared := Shared.ofMemory mem config.cache, cores := List.replicate n (Core.ofConfig config) }

def onCore {α : Type} (m : Machine) (i : Nat) (act : Core → Shared → α × Core × Shared) :
    Option (α × Machine) :=
  (m.cores[i]?).map (fun c =>
    let (a, c, shared) := act c m.shared
    (a, { shared, cores := m.cores.set i c }))

def step (m : Machine) (i : Nat) : Option (Except CoreError StepOutcome × Machine) :=
  m.onCore i Core.step

end Machine

end EmotionEngine
