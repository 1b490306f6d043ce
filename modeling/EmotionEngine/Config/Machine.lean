import EmotionEngine.Machine.Basic
import EmotionEngine.Memory.Map
import EmotionEngine.Toml.Document

/-!
The configuration of a machine, and how it is read from a document. A group of settings is a table of
settings by name, or an array of them in their order; what is left out has its default, and a name that
is no setting is refused.
-/

namespace EmotionEngine

/-- How a machine is configured. -/
structure MachineConfig where
  core : Core.Config := {}
  memory : Memory.Config := {}
  deriving DecidableEq

namespace MachineConfig

open Toml (Value Entries)

/-- The values of a group of settings, in the order of their names. -/
def settings? (names : List String) : Value → Option (List (Option Value))
  | .table _ es =>
    if es.all (fun e => names.contains e.1) then some (names.map (fun n => es.lookup n)) else none
  | .array xs => some ((List.range names.length).map (xs[·]?))
  | _ => none

/-- A setting, or its default if it is left out. -/
def setting {α : Type} (read : Value → Option α) (default : α) : Option Value → Option α
  | none => some default
  | some v => read v

def number? (bound : Nat) : Value → Option Nat
  | .int i => if 0 ≤ i ∧ i < bound then some i.toNat else none
  | _ => none

def word? : Value → Option Nat := number? (twoPow 32)

def size? : Value → Option Nat := number? (twoPow 64)

/-- Whether a value has no parts, though it could. -/
def isEmpty : Value → Bool
  | .array [] => true
  | .table _ [] => true
  | .tables [] => true
  | _ => false

/-- One of several choices: its name, or a table that holds nothing but its name. -/
def choice? {α : Type} (choices : List (String × α)) : Value → Option α
  | .text s => choices.lookup s
  | .table _ [(s, v)] => if isEmpty v then choices.lookup s else none
  | _ => none

def cache? (v : Value) : Option Cache.Limits :=
  let d : Cache.Limits := {}
  match settings? ["max_blocks", "max_code_bytes"] v with
  | some [blocks, bytes] => do
    let maxBlocks ← setting size? d.maxBlocks blocks
    let maxCodeBytes ← setting size? d.maxCodeBytes bytes
    return { maxBlocks, maxCodeBytes }
  | _ => none

def policies : List (String × ExceptionPolicy) := [("vector", .vector), ("halt", .halt)]

def modes : List (String × ExecMode) := [("jit", .jit), ("interpreter", .interpreter)]

def core? (v : Value) : Option Core.Config :=
  let d : Core.Config := {}
  match settings? ["max_block_insns", "cache", "exception_policy", "exec_mode", "stale_retry_limit"] v with
  | some [insns, cache, policy, mode, retries] => do
    let maxBlockInsns ← setting word? d.maxBlockInsns insns
    let cache ← setting cache? d.cache cache
    let exceptionPolicy ← setting (choice? policies) d.exceptionPolicy policy
    let execMode ← setting (choice? modes) d.execMode mode
    let staleRetryLimit ← setting word? d.staleRetryLimit retries
    return { maxBlockInsns, cache, exceptionPolicy, execMode, staleRetryLimit }
  | _ => none

def memory? (v : Value) : Option Memory.Config :=
  let d : Memory.Config := {}
  match settings? ["ram_base", "ram_size", "rom_reserve"] v with
  | some [base, size, reserve] => do
    let ramBase ← setting word? d.ramBase base
    let ramSize ← setting word? d.ramSize size
    let romReserve ← setting word? d.romReserve reserve
    return { ramBase, ramSize, romReserve }
  | _ => none

/-- The configuration that a document gives. -/
def ofEntries? (es : Entries) : Option MachineConfig :=
  match settings? ["core", "memory"] (.table .header es) with
  | some [core, memory] => do
    let core ← setting core? {} core
    let memory ← setting memory? {} memory
    return { core, memory }
  | _ => none

/-- The configuration that a text gives. -/
def read? (s : String) : Option MachineConfig := (Toml.read? s).bind ofEntries?

end MachineConfig

end EmotionEngine
