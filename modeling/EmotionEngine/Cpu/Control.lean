import EmotionEngine.Cpu.Basic

/-!
The system control coprocessor: who may use it, its register moves, the return from an exception,
exception entry, interrupt delivery and the timer.

Every privileged operation first checks that the coprocessor is usable; if it is not, the operation
records an exception and changes nothing else.
-/

namespace EmotionEngine.Cpu

def vectorGeneral : Word := 0x180#32

def vectorInterrupt : Word := 0x200#32

/-- Whether system control instructions are allowed. -/
def cop0Usable (s : Cpu) : Bool := s.inKernelMode || (s.status &&& Status.cu0) != 0

/-- Record that system control was not allowed. -/
def raiseUnusable (s : Cpu) : Cpu :=
  (s.setCreg Cop0.cause (s.creg Cop0.cause &&& ~~~Cause.ceMask)).raiseFault .coprocessorUnusable none

/-- Read a control register; `none` after recording an exception. -/
def mfc0 (s : Cpu) (rd : RegNum) : Option Word × Cpu :=
  if s.cop0Usable then (some (s.creg rd), s) else (none, s.raiseUnusable)

/-- The control registers after a permitted write. The identification is read-only, only the software
requests of Cause can be written, and a write to Compare withdraws the timer's request. -/
def writeCreg (s : Cpu) (rd : RegNum) (v : Word) : Cpu :=
  if rd = Cop0.prId then s
  else if rd = Cop0.cause then
    s.setCreg Cop0.cause
      ((s.creg Cop0.cause &&& ~~~Cause.softwareMask) ||| (v &&& Cause.softwareMask))
  else if rd = Cop0.compare then
    let s := s.setCreg Cop0.compare v
    s.setCreg Cop0.cause (s.creg Cop0.cause &&& ~~~Cause.ipTimer)
  else s.setCreg rd v

/-- Write a control register; `false` after recording an exception. -/
def mtc0 (s : Cpu) (rd : RegNum) (v : Word) : Bool × Cpu :=
  if s.cop0Usable then (true, s.writeCreg rd v) else (false, s.raiseUnusable)

/-- Return from the error level, or else from the exception level. -/
def eret (s : Cpu) : Bool × Cpu :=
  if s.cop0Usable then
    if (s.status &&& Status.erl) != 0 then
      (true, { s with pc := s.creg Cop0.errorEpc }.setCreg Cop0.status (s.status &&& ~~~Status.erl))
    else
      (true, { s with pc := s.creg Cop0.epc }.setCreg Cop0.status (s.status &&& ~~~Status.exl))
  else (false, s.raiseUnusable)

/-- Set or clear the interrupt enable. Outside kernel mode it takes effect only where Status lets user
code do so, and is otherwise ignored. -/
def setEie (s : Cpu) (enable : Bool) : Bool × Cpu :=
  if s.cop0Usable then
    if s.inKernelMode || (s.status &&& Status.edi) != 0 then
      (true, s.setCreg Cop0.status
        (if enable then s.status ||| Status.eie else s.status &&& ~~~Status.eie))
    else (true, s)
  else (false, s.raiseUnusable)

/-- Copy the external lines into Cause. A timer request stays until Compare is written. -/
def latchInterrupts (s : Cpu) (pending : Word) : Cpu :=
  let c := s.creg Cop0.cause
  s.setCreg Cop0.cause
    ((c &&& ~~~Cause.ipMask) ||| (pending &&& Cause.ipMask) ||| (c &&& Cause.ipTimer))

/-- Count the executed instructions, and request a timer interrupt when Count passes Compare. -/
def advanceCount (s : Cpu) (insns : Word) : Cpu :=
  let before := s.creg Cop0.count
  let s := s.setCreg Cop0.count (before + insns)
  -- The distance from Count to Compare, where none is a whole round.
  if s.creg Cop0.compare - before - 1 < insns then
    s.setCreg Cop0.cause (s.creg Cop0.cause ||| Cause.ipTimer)
  else s

/-- Whether an interrupt can be taken now. -/
def interruptDeliverable (s : Cpu) : Bool :=
  let st := s.status
  (st &&& Status.ie) != 0 && (st &&& Status.eie) != 0 &&
    (st &&& (Status.exl ||| Status.erl)) == 0 &&
    (st &&& Status.imMask &&& s.creg Cop0.cause &&& Cause.ipMask) != 0

def exceptionVector (st : Word) (code : ExcCode) : Word :=
  (if (st &&& Status.bev) != 0 then 0xBFC00200#32 else 0x80000000#32) +
    (if code = .interrupt then vectorInterrupt else vectorGeneral)

/-- Enter the handler of `code`. The restart address and the delay slot mark are recorded only when no
exception is being handled already. -/
def enterException (s : Cpu) (code : ExcCode) (pc : Word) (delaySlot : Bool) : Cpu :=
  let st := s.status
  let c := (s.creg Cop0.cause &&& ~~~Cause.excCodeMask) ||| (code.toWord <<< 2)
  let s :=
    if (st &&& Status.exl) == 0 then
      (s.setCreg Cop0.epc pc).setCreg Cop0.cause
        (if delaySlot then c ||| Cause.bd else c &&& ~~~Cause.bd)
    else s.setCreg Cop0.cause c
  { s.setCreg Cop0.status (st ||| Status.exl) with pc := exceptionVector st code }

end EmotionEngine.Cpu
