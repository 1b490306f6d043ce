import EmotionEngine.Host.Reg
import EmotionEngine.Insn.Disasm
import EmotionEngine.Insn.Uses

/-!
Register plans. A guest value has up to three copies while a block runs: its home in the register file,
one of the host registers, and a spill slot of its own. A plan says, for each instruction of a block,
which moves go before and after it, where its operands are, and which moves make every home current
when the block has to be left there. The allocator hands out slots; code can be made from plans that name any host
registers.
-/

namespace EmotionEngine

open Host (Names Slot)

/-- A copy of one guest value from one place to another. -/
inductive Move (ρ : Type := Slot) where
  /-- From home to a host register. -/
  | loadHome (guest : GuestReg) (host : ρ)
  /-- From the spill slot to a host register. -/
  | reload (guest : GuestReg) (host : ρ)
  /-- From a host register to the spill slot. -/
  | spill (guest : GuestReg) (host : ρ)
  /-- From a host register to home. -/
  | writeBack (guest : GuestReg) (host : ρ)
  /-- From the spill slot to home. -/
  | spillToHome (guest : GuestReg)
  deriving DecidableEq

namespace Move

variable {ρ : Type}

/-- The move in words; the destination stands first. -/
def text [Names ρ] : Move ρ → String
  | loadHome g s => "load " ++ (Names.reg s).name ++ " <- " ++ g.name
  | reload g s => "reload " ++ (Names.reg s).name ++ " <- spill[" ++ g.name ++ "]"
  | spill g s => "spill spill[" ++ g.name ++ "] <- " ++ (Names.reg s).name
  | writeBack g s => "writeback " ++ g.name ++ " <- " ++ (Names.reg s).name
  | spillToHome g => "writeback " ++ g.name ++ " <- spill[" ++ g.name ++ "]"

/-- Whether the move sends a value to its spill slot. -/
def isSpill : Move ρ → Bool
  | spill .. => true
  | _ => false

end Move

/-- The plan of one instruction. -/
structure Step (ρ : Type := Slot) where
  /-- Moves made before the instruction. -/
  before : List (Move ρ) := []
  /-- Where the values are that the instruction reads or writes in host registers. -/
  operands : List (GuestReg × ρ) := []
  /-- Moves that make every home current as of before the instruction's writes. -/
  flushPre : List (Move ρ) := []
  /-- Moves that make every home current as of after the instruction's writes. -/
  flushPost : List (Move ρ) := []
  /-- Moves made after the instruction, for the values that nothing needs any more. -/
  after : List (Move ρ) := []
  deriving DecidableEq

def Step.slot? {ρ : Type} (s : Step ρ) (g : GuestReg) : Option ρ := s.operands.lookup g

/-- The first and the last instruction that refer to a guest value. -/
structure Interval where
  guest : GuestReg
  first : Nat
  last : Nat
  deriving DecidableEq

/-- The plan of a block. -/
structure Plan (ρ : Type := Slot) where
  /-- One step for each instruction. -/
  steps : List (Step ρ) := []
  /-- The intervals of all values the block refers to, by their first instruction. -/
  intervals : List Interval := []
  /-- Moves made when the block has run to its end. -/
  exitFlush : List (Move ρ) := []
  deriving DecidableEq

namespace Plan

/-- How often a value is sent to its spill slot. -/
def spillCount {ρ : Type} (p : Plan ρ) : Nat :=
  ((p.steps.flatMap Step.before).filter Move.isSpill).length

/-- The plan that gives `n` instructions nothing. -/
def blank (n : Nat) : Plan := { steps := List.replicate n {} }

end Plan

end EmotionEngine
