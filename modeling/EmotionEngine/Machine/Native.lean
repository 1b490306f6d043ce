import EmotionEngine.Code.OfBlock
import EmotionEngine.Machine.Run

/-!
A step as the host takes it: a cached block is executed by entering the code that the arena holds for it,
not by running the block. The code returns a number, which is an exit or is not. Code that the host cannot
go on with, or that returns nothing of use, has no step at all.
-/

namespace EmotionEngine

/-- What the host has when it enters code: the address of the processor state, and what is left in the spill slots. -/
structure Frame where
  base : Dword
  spill : Vector Dword GuestReg.count

namespace Core

/-- Enter the code of a cached block: the number that it returns, and the guest that it leaves. -/
def enterCode (c : Core) (f : Frame) (s : Shared) (h : Cache.Handle) : Option (Word × Guest) := do
  let e ← s.cache.blocks[h.id]?
  let entered := Code.start f.base f.spill (Guest.enter { cpu := c.cpu, mem := s.mem } h.block)
  let host ← Host.run (s.cache.arena.read e.offset e.size) entered
  let raw ← (host.get .rax).word?
  pure (raw, host.guest)

/-- Execute a block, if it is a cached one by its code, and give up its pin. -/
def executeNative (c : Core) (f : Frame) (s : Shared) :
    Runnable → Option (Except CoreError BlockExit × Core × Shared)
  | .uncached b =>
    let (exit, ran) := c.execute s (.uncached b)
    some (.ok exit, ran)
  | .cached h =>
    (c.enterCode f s h).map fun (raw, g) =>
      -- The pin is given up even if the exit is not known.
      let s := { s with mem := g.mem }.absorb
      let s := { s with cache := s.cache.unpin h.id }
      match BlockExit.ofNat? raw.toNat with
      | none => (.error (.badExit h.block.start raw.toNat), { c with cpu := g.cpu }, s)
      | some exit =>
        (.ok exit,
          { c with
            cpu := g.cpu.advanceCount (BitVec.ofNat 32 h.block.icount)
            executed := c.executed + 1 },
          s)

/-- Execute the block at the program counter. -/
def stepBlockNative (c : Core) (f : Frame) (s : Shared) :
    Option (Except CoreError StepOutcome × Core × Shared) :=
  let pc := c.cpu.pc
  match c.findBlock pc s with
  | (.error e, s) => some (.error e, c, s)
  | (.ok none, s) =>
    let (outcome, c) := (c.fetchFault pc).takeException
    some (outcome, c, s)
  | (.ok (some r), s) =>
    (c.executeNative f s r).map fun
      | (.error e, c, s) => (.error e, c, s)
      | (.ok .exception, c, s) =>
        let (outcome, c) := c.takeException
        (outcome, c, s)
      | (.ok _, c, s) => (.ok .continue, c, s)

def stepNative (c : Core) (f : Frame) (s : Shared) : Option (Except CoreError StepOutcome × Core × Shared) :=
  let pc := c.cpu.pc
  if c.breakpoints.contains pc && c.reported ≠ some pc then
    some (.ok (.breakpoint pc), { c with reported := some pc }, s)
  else
    let c := { c with reported := none, cpu := c.cpu.latchInterrupts c.lines }
    if c.cpu.interruptDeliverable then
      some (.ok .interrupt, { c with cpu := c.cpu.enterException .interrupt pc false }, s)
    else c.stepBlockNative f s

end Core

end EmotionEngine
