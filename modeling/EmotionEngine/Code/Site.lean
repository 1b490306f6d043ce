import EmotionEngine.Block.Basic
import EmotionEngine.Code.Basic
import EmotionEngine.Cpu.Basic
import EmotionEngine.Plan.Basic

/-!
What the code of every instruction is made of: moves of a plan, reads and writes of guest values, calls
of helpers, and the three ways out of a block before its end. An instruction is translated at a `Site`,
which is the instruction with its step of the plan.
-/

namespace EmotionEngine.Code

open Host (Reg Cond Helper Names arg)

/-- The displacement of a byte offset in the processor state. -/
def offset (n : Nat) : Word := BitVec.ofNat 32 n

def loadState (dst : Reg) (n : Nat) : Host.Insn := .load true dst .env (offset n)

def storeState (src : Reg) (n : Nat) : Host.Insn := .store true src .env (offset n)

/-- Store a constant word in the processor state. -/
def setState (n : Nat) (w : Word) : Host.Insn := .storeImm .env (offset n) w

variable {ρ : Type} [Names ρ]

/-- The code of a move. A move between two places in memory goes through a scratch register. -/
def ofMove : Move ρ → List Host.Insn
  | .loadHome g s => [loadState (Names.reg s) g.home]
  | .reload g s => [loadState (Names.reg s) g.spill]
  | .spill g s => [storeState (Names.reg s) g.spill]
  | .writeBack g s => [storeState (Names.reg s) g.home]
  | .spillToHome g => [loadState .scratch0 g.spill, storeState .scratch0 g.home]

def ofMoves (ms : List (Move ρ)) : List Host.Insn := ms.flatMap ofMove

/-- Store the next program counter. -/
def setPc (pc : Word) : Host.Insn := setState Layout.pc pc

def exit (e : BlockExit) : List Host.Insn :=
  [.movImm32 .scratch0 (BitVec.ofNat 32 e.toNat), .ret]

def call (h : Helper) : List Host.Insn := [.movHelper .scratch0 h, .call .scratch0]

/-- Pass the processor state as the first argument. -/
def envArg : Host.Insn := .mov true (arg 0) .env

def numArg (k : Fin 5) (n : Nat) : Host.Insn := .movImm32 (arg k) (BitVec.ofNat 32 n)

/-- Sign-extend the low half of the first scratch register. -/
def signExtend : Host.Insn := .extend .signWord .scratch0 .scratch0

/-- An instruction and its step of the plan. -/
structure Site (ρ : Type := Host.Slot) where
  insn : DecodedInsn
  step : Step ρ

namespace Site

/-! ## Guest values -/

/-- The host register of an operand. Code is made only where the plan places every operand. -/
def host (s : Site ρ) (g : GuestReg) : Reg :=
  match s.step.slot? g with
  | some k => Names.reg k
  | none => .scratch0

/-- Copy a guest value to a host register. Register 0 reads as zero, and that changes the flags. -/
def read (s : Site ρ) (dst : Reg) (g : GuestReg) : Host.Insn :=
  if g = .gpr 0 then .clear dst else .mov true dst (s.host g)

/-- Copy a host register to a guest value. Writes to register 0 are dropped. -/
def write (s : Site ρ) (g : GuestReg) (src : Reg) : List Host.Insn :=
  if g = .gpr 0 then [] else [.mov true (s.host g) src]

/-- Put a constant into a general register. -/
def writeImm (s : Site ρ) (r : RegNum) (v : Dword) : List Host.Insn :=
  if r = 0 then [] else [.movImm true (s.host (.gpr r)) v]

/-! ## Ways out -/

/-- Leave with an exception, with the registers as they were before the instruction. Helpers record the
exception themselves; otherwise its code is given. -/
def fault (s : Site ρ) (cond : Option Cond) (code : Option ExcCode) : Item :=
  let slot := s.insn.inDelaySlot
  .leave cond
    (ofMoves s.step.flushPre ++
     (code.map (fun c => setState Layout.excCode c.toWord)).toList ++
     [setPc (if slot then s.insn.addr - 4 else s.insn.addr),
      setState Layout.excDelaySlot (if slot then 1 else 0)] ++
     exit .exception)

/-- Leave behind the delay slot of a likely branch that is not taken. -/
def skipSlot (s : Site ρ) (cond : Cond) : Item :=
  .leave (some cond)
    (ofMoves s.step.flushPost ++ [setPc (s.insn.addr + 8)] ++ exit .fallthrough)

/-- Leave after a store that invalidated the block. In a delay slot the branch has stored the next
program counter already. -/
def modified (s : Site ρ) (cond : Cond) : Item :=
  .leave (some cond)
    (ofMoves s.step.flushPost ++
     (if s.insn.inDelaySlot then [] else [setPc (s.insn.addr + 4)]) ++ exit .codeModified)

/-- Leave if the last helper recorded an exception. -/
def checkFault (s : Site ρ) : List Item :=
  [.insn (.arithMemImm .cmp .env (offset Layout.faultPending) 0), s.fault (some .ne) none]

/-- Leave if the last helper returned zero, having recorded an exception. -/
def checkDone (s : Site ρ) : List Item :=
  [.insn (.test false .scratch0 .scratch0), s.fault (some .e) none]

/-- Leave as the status says that a store returned. -/
def checkStore (s : Site ρ) : List Item :=
  [.insn (.arithImm .cmp false .scratch0 1), s.fault (some .e) none,
   .insn (.arithImm .cmp false .scratch0 2), s.modified .e]

end Site

end EmotionEngine.Code
