import EmotionEngine.Insn.Describe

/-!
Basic blocks: straight runs of guest instructions that are translated and executed as a unit. Control
enters a block only at its start. A block remembers the pages it was decoded from with their versions,
so that it can be told whether it is still current.
-/

namespace EmotionEngine

/-- An instruction at its place in a block. -/
structure DecodedInsn where
  addr : Word
  word : Word
  insn : Insn
  /-- Whether it follows a branch and executes before the branch takes effect. -/
  inDelaySlot : Bool
  deriving DecidableEq

/-- How a block ends. -/
inductive Terminator where
  /-- An unconditional jump. -/
  | jump
  /-- A conditional branch. -/
  | branch
  /-- A linking branch or jump. -/
  | call
  /-- A jump to the return address, or a return from an exception. -/
  | ret
  /-- A system call, a breakpoint or a word that is no instruction. -/
  | trap
  /-- The interrupt state may have changed. -/
  | system
  /-- The next instruction starts a new page. -/
  | pageEnd
  /-- The instruction limit, or an address to stop before. -/
  | limit
  /-- `addr` could not be fetched; when it was a delay slot, the block was cut before its branch. -/
  | fetchFault (addr : Word) (branchPc : Option Word)
  deriving DecidableEq

namespace Terminator

def describe : Terminator → String
  | jump => "Jump"
  | branch => "Branch"
  | call => "Call"
  | ret => "Return"
  | trap => "Trap"
  | system => "System"
  | pageEnd => "PageEnd"
  | limit => "Limit"
  | fetchFault addr branchPc =>
    Text.record "FetchFault"
      [("addr", toString addr.toNat),
       ("branch_pc", describeOption (branchPc.map (fun b => toString b.toNat)))]

/-- The terminator as it stands in the heading of a block. -/
def label : Terminator → String
  | jump => "jump"
  | branch => "branch"
  | call => "call"
  | ret => "return"
  | trap => "trap"
  | system => "system"
  | pageEnd => "page-end"
  | limit => "limit"
  | fetchFault addr none => "fetch-fault @" ++ Text.addr addr.toNat
  | fetchFault addr (some b) =>
    "fetch-fault @" ++ Text.addr addr.toNat ++ " (delay slot of " ++ Text.addr b.toNat ++ ")"

end Terminator

/-- A page with the version it had when it was marked. -/
structure PageSnapshot where
  page : Nat
  version : Word
  deriving DecidableEq

/-- A basic block. -/
structure Block where
  start : Word
  /-- The address after the last instruction. -/
  stop : Word
  insns : List DecodedInsn
  terminator : Terminator
  /-- The pages it was decoded from, in the order in which they were reached. -/
  pages : List PageSnapshot
  deriving DecidableEq

namespace Block

/-- How many instructions the block has. -/
def icount (b : Block) : Nat := b.insns.length

/-- The index of the branch that owns the trailing delay slot. -/
def branchIndex (b : Block) : Option Nat :=
  match b.insns.getLast? with
  | some last => if last.inDelaySlot && 2 ≤ b.insns.length then some (b.insns.length - 2) else none
  | none => none

def firstPage (b : Block) : Nat := (b.pages.head?.map PageSnapshot.page).getD 0

def lastPage (b : Block) : Nat := (b.pages.getLast?.map PageSnapshot.page).getD 0

/-- Where execution goes on when the block runs off its end. -/
def fallthrough (b : Block) : Word := b.stop

/-- The guest registers that some instruction of the block may change. -/
def clobbers (b : Block) : RegSet :=
  b.insns.foldl (fun s i => i.insn.uses.changes.foldl RegSet.insert s) .empty

/-- Where control can go when the block ends, as far as the block itself tells: the target of its
branch, and the address after it unless control never gets there. -/
def successors (b : Block) : List Word :=
  let taken :=
    match b.branchIndex.bind (b.insns[·]?) with
    | some i => (i.insn.staticTarget i.addr).toList
    | none => []
  match b.terminator with
  | .jump | .ret | .fetchFault .. => taken
  | _ => taken ++ [b.stop]

/-- The block's listing: a heading and a line for each instruction; one in a delay slot is indented. -/
def listing (b : Block) : String :=
  "---- block " ++ Text.addr b.start.toNat ++ ".." ++ Text.addr b.stop.toNat ++ " (" ++
    toString b.icount ++ " insns, " ++ b.terminator.label ++ ")\n" ++
  String.join (b.insns.map (fun i =>
    "  " ++ Text.hexPad 8 i.addr.toNat ++ ": " ++ Text.hexPad 8 i.word.toNat ++ "  " ++
      (if i.inDelaySlot then " " else "") ++ i.insn.disasm i.addr ++ "\n"))

end Block

/-- Why a block handed control back. The next program counter is in the processor. -/
inductive BlockExit where
  | fallthrough
  | branch
  /-- A synchronous exception, described by the processor's outcome fields. -/
  | exception
  /-- The interrupt state may have changed. -/
  | interrupt
  /-- A store invalidated the running block. -/
  | codeModified
  deriving DecidableEq

namespace BlockExit

/-- The number that compiled code returns. -/
def toNat : BlockExit → Nat
  | fallthrough => 0
  | branch => 1
  | exception => 2
  | interrupt => 3
  | codeModified => 4

def ofNat? : Nat → Option BlockExit
  | 0 => some fallthrough
  | 1 => some branch
  | 2 => some exception
  | 3 => some interrupt
  | 4 => some codeModified
  | _ => none

@[simp] theorem ofNat?_toNat (e : BlockExit) : ofNat? e.toNat = some e := by
  cases e <;> rfl

def name : BlockExit → String
  | fallthrough => "Fallthrough"
  | branch => "Branch"
  | exception => "Exception"
  | interrupt => "Interrupt"
  | codeModified => "CodeModified"

end BlockExit

end EmotionEngine
