import EmotionEngine.Insn.Uses
import EmotionEngine.Memory.Basic

/-!
What can go wrong above memory: translating a block, caching it, running a core. Each error is a cause;
`message` puts it into words.
-/

namespace EmotionEngine

/-- Why a block could not be translated. -/
inductive CompileCause where
  /-- The register plan does not have one step for each instruction. -/
  | planMismatch
  /-- The plan gives a guest register no host register where one is needed. -/
  | unassigned (reg : GuestReg)
  /-- Every host register is needed by the instruction itself. -/
  | exhausted (reg : GuestReg)
  /-- A reason in words. -/
  | other (reason : String)
  deriving DecidableEq

/-- The cause in words. -/
def CompileCause.message : CompileCause → String
  | planMismatch => "allocation does not match block length"
  | unassigned g => g.name ++ " has no host register"
  | exhausted g => "no host register left for " ++ g.name
  | other reason => reason

/-- A failed translation, at an instruction or at the start of its block. -/
structure CompileError where
  pc : Word
  cause : CompileCause
  deriving DecidableEq

/-- The error in words. -/
def CompileError.message (e : CompileError) : String :=
  "compilation of block at " ++ Text.addr e.pc.toNat ++ " failed: " ++ e.cause.message

/-- Why the translation cache refused. -/
inductive CacheError where
  /-- Every block that could make room is pinned. -/
  | capacityExceeded (needed pinned : Nat)
  /-- A page changed between the decoding of a block and its insertion. -/
  | staleBlock (pc : Word) (page : Nat)
  /-- The indices disagree. -/
  | corrupted (what : String)
  deriving DecidableEq

/-- The error in words. -/
def CacheError.message : CacheError → String
  | capacityExceeded needed pinned =>
    "translation cache full: " ++ Text.size needed ++ " code bytes requested, " ++
      toString pinned ++ " blocks pinned"
  | staleBlock pc page =>
    "block at " ++ Text.addr pc.toNat ++ " is stale: page " ++ Text.size page ++
      " changed while it was compiled"
  | corrupted what => "translation cache corrupted: " ++ what

def CacheError.kind : CacheError → String
  | capacityExceeded .. => "CapacityExceeded"
  | staleBlock .. => "StaleBlock"
  | corrupted _ => "Corrupted"

/-- Why a core stopped. -/
inductive CoreError where
  | mem (e : MemError)
  | compile (e : CompileError)
  | cache (e : CacheError)
  | badExit (pc : Word) (raw : Nat)
  | badExceptionCode (pc : Word) (code : Nat)
  deriving DecidableEq

/-- The error in words. -/
def CoreError.message : CoreError → String
  | mem e => e.message
  | compile e => e.message
  | cache e => e.message
  | badExit pc raw =>
    "block at " ++ Text.addr pc.toNat ++ " returned unknown exit code " ++ toString raw
  | badExceptionCode pc code =>
    "exception exit at " ++ Text.addr pc.toNat ++ " carries unknown code " ++ toString code

def CoreError.kind : CoreError → String
  | mem e => e.kind
  | compile _ => "CompileError"
  | cache e => e.kind
  | badExit .. => "BadExit"
  | badExceptionCode .. => "BadExceptionCode"

end EmotionEngine
