import EmotionEngine.Cpu.Basic
import EmotionEngine.Error

/-!
How the tools fail, and how they report it: what could not be done, and below it why, if that is known.
-/

namespace EmotionEngine.Tool

/-- Why a tool failed. -/
inductive Failure where
  /-- Something could not be done with a file, and why. -/
  | file (doing name why : String)
  /-- A file does not hold a configuration. -/
  | config (name : String)
  /-- Memory cannot be laid out as configured. -/
  | memory (e : MemError)
  /-- The image cannot be written at an address. -/
  | image (load : Word) (e : MemError)
  | core (e : CoreError)
  /-- The guest raised an exception that nothing handles. -/
  | exception (code : ExcCode) (pc : Word) (delaySlot : Bool)
  deriving DecidableEq

namespace Failure

def message : Failure → String
  | file doing name _ => doing ++ " " ++ name
  | config name => "parsing " ++ name
  | memory e => e.message
  | image load _ => "image does not fit at " ++ Text.addr load.toNat
  | core e => e.message
  | exception code pc slot =>
    "unhandled " ++ code.mnemonic ++ " exception at " ++ Text.addr pc.toNat ++ " (delay slot: " ++
      (if slot then "true" else "false") ++ ")"

def cause? : Failure → Option String
  | file _ _ why => some why
  | image _ e => some e.message
  | _ => none

def report (f : Failure) : String :=
  "Error: " ++ f.message ++ "\n" ++
    (match f.cause? with
     | some why => "\nCaused by:\n    " ++ why ++ "\n"
     | none => "")

end Failure

end EmotionEngine.Tool
