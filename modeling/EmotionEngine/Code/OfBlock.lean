import EmotionEngine.Block.Run
import EmotionEngine.Code.OfInsn
import EmotionEngine.Host.Run
import EmotionEngine.Plan.Allocate

/-!
The code of a block: for each instruction the moves before it, its code and the moves after it, then
the end of the block. `translate` makes the plan too.

The host enters the code with the address of the processor state in its base register and nothing else
known, and takes the number of an exit from it.
-/

namespace EmotionEngine

open Host (CodeByte Content Names Reg State)

namespace Code

variable {ρ : Type} [Names ρ]

def sites (b : Block) (p : Plan ρ) : List (Site ρ) :=
  List.zipWith (fun insn step => { insn, step }) b.insns p.steps

def Site.body (s : Site ρ) : List Item :=
  items (ofMoves s.step.before) ++ s.code ++ items (ofMoves s.step.after)

/-- Whether the last instruction of a block returns from an exception, which stores the next program
counter itself. -/
def endsInEret (b : Block) : Bool := (b.insns.getLast?.map DecodedInsn.insn) == some .eret

def ending (b : Block) : List Host.Insn :=
  match b.terminator with
  | .fetchFault addr branchPc =>
    -- The exception of the instruction that could not be fetched, at its branch if it is a delay slot.
    [setState (Layout.cop0 Cop0.badVAddr.val) addr,
     setState Layout.excCode ExcCode.instructionBus.toWord,
     setState Layout.faultPending 1,
     setState Layout.excDelaySlot (if branchPc.isSome then 1 else 0),
     setPc (branchPc.getD addr)] ++ exit .exception
  | t =>
    -- The instruction that transferred control has stored the next program counter.
    if b.branchIndex.isSome || endsInEret b then exit .branch
    else setPc b.fallthrough :: exit (if t = .system then .interrupt else .fallthrough)

/-- All of a block's code before it is laid out. -/
def body (b : Block) (p : Plan ρ) : List Item :=
  (sites b p).flatMap Site.body ++ items (ofMoves p.exitFlush ++ ending b)

/-- The first operand in a block that its plan does not place, and where it is needed. -/
def missing? (b : Block) (p : Plan ρ) : Option CompileError :=
  (sites b p).findSome? (fun s => s.missing?.map (fun g => ⟨s.insn.addr, .unassigned g⟩))

/-- The code of a block under a plan, which must have a step for each instruction and place every
operand. -/
def ofBlock (b : Block) (p : Plan ρ) : Except CompileError (List CodeByte) :=
  if p.steps.length ≠ b.insns.length then .error ⟨b.start, .planMismatch⟩
  else
    match missing? b p with
    | some e => .error e
    | none => .ok (assemble (body b p))

/-- How a block is entered: save the registers that must survive, take the state and the code from the
arguments, and restore the registers behind the call. -/
def entry : List CodeByte :=
  encode
    (Reg.calleeSaved.map .push ++ [.mov true .env (Host.arg 0), .call (Host.arg 1)] ++
      Reg.calleeSaved.reverse.map .pop ++ [.ret])

end Code

/-- A translated block. -/
structure Translation where
  code : List CodeByte
  /-- How many values go to their spill slots. -/
  spills : Nat
  /-- The guest registers that the block may change. -/
  clobbers : RegSet
  deriving DecidableEq

/-- Translate a block. -/
def Block.translate (b : Block) : Except CompileError Translation :=
  match Plan.ofBlock b with
  | .error e => .error e
  | .ok p =>
    match Code.ofBlock b p with
    | .error e => .error e
    | .ok code => .ok { code, spills := p.spillCount, clobbers := b.clobbers }

/-! ## Running the code -/

namespace Code

/-- The host on entry: only the base register is known. -/
def start (base : Dword) (spill : Vector Dword GuestReg.count) (g : Guest) : State :=
  let s : State := { regs := Vector.replicate 16 .unknown, flags := none, base, guest := g, spill }
  s.set .env base

def exit? (s : State) : Option BlockExit :=
  (s.get .rax).word?.bind (fun w => BlockExit.ofNat? w.toNat)

/-- Run code for a guest: the exit that it returned, and what it left. -/
def run? (code : List CodeByte) (s : State) : Option (BlockExit × State) :=
  (Host.run code s).bind (fun s => (exit? s).map (·, s))

end Code

def Translation.run? (t : Translation) (b : Block) (g : Guest) : Option (BlockExit × Guest) :=
  (Code.run? t.code (Code.start 0 (Vector.replicate _ 0) (g.enter b))).map
    (fun r => (r.1, r.2.guest))

end EmotionEngine
