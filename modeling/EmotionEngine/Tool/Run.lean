import EmotionEngine.Config.Machine
import EmotionEngine.Machine.Run
import EmotionEngine.Tool.Args
import EmotionEngine.Tool.Failure

/-!
The tool `ee-run`: put an image into memory, run it on one core with a serial console, and print the
registers and why the run ended.
-/

namespace EmotionEngine.Tool.Run

/-- What the tool is asked to do. -/
structure Args where
  image : String
  config : Option String
  /-- Where the image goes in RAM. -/
  load : Word
  /-- Where execution starts, if not at the start of the image. -/
  entry : Option Word
  /-- Whether the image is the boot ROM, where execution starts after reset. -/
  rom : Bool
  mode : Option ExecMode
  /-- Whether exceptions go to the guest. -/
  vector : Bool
  maxBlocks : Option Nat
  breakpoints : List Word
  deriving DecidableEq

/-- Where images go unless told otherwise. -/
def defaultLoad : Word := 0x00100000#32

def specs : List OptionSpec :=
  [{ long := "config" }, { long := "load" }, { long := "entry" },
   { long := "rom", takesValue := false }, { long := "mode" }, { long := "vector", takesValue := false },
   { long := "max-blocks" }, { long := "breakpoint", repeatable := true }]

def mode? (s : String) : Option ExecMode := [("jit", .jit), ("interp", .interpreter)].lookup s

/-- Read the arguments; `none` if they make no sense. -/
def Args.parse? (args : List String) : Option Args := do
  let c ← CommandLine.parse? specs args
  let config ← c.read? "config" file?
  let load ← c.read? "load" address?
  let entry ← c.read? "entry" address?
  let mode ← c.read? "mode" mode?
  let maxBlocks ← c.read? "max-blocks" count?
  let breakpoints ← (c.values "breakpoint").mapM address?
  let rom := c.has "rom"
  if rom && (load.isSome || entry.isSome) then none
  match c.others with
  | [file] =>
    let image ← file? file
    return { image, config, load := load.getD defaultLoad, entry, rom, mode,
             vector := c.has "vector", maxBlocks, breakpoints }
  | _ => none

/-- What the tool prints: what the guest wrote to its console, then text; or a failure after that. -/
structure Output where
  console : List Byte := []
  text : String := ""
  failure : Option Failure := none

def Output.status (o : Output) : Nat := if o.failure.isSome then 1 else 0

/-! ## Setting up -/

def console : Device := ⟨0⟩

/-- The offset of the console's transmit register. -/
def consoleTx : Nat := 0

/-- The offset of the console's status register. -/
def consoleStatus : Nat := 4

/-- The status register always reports an empty transmitter; other registers read as zero. -/
def consoleBoard : Board where
  reply _ now :=
    match now.call with
    | .read _ offset _ => { value := if offset = consoleStatus then 0x2000 else 0 }
    | .write .. => {}

def consoleBase : Nat := 0x1000F180

def consoleSize : Nat := 0x10

def romBase : Nat := 0x1FC00000

/-- The configuration to run with. Without a file, exceptions end the run unless they go to the guest. -/
def configure (args : Args) (text : Option String) : Except Failure MachineConfig :=
  let read : Except Failure MachineConfig :=
    match text with
    | none => .ok {}
    | some s =>
      match MachineConfig.read? s with
      | some c => .ok c
      | none => .error (.config (args.config.getD ""))
  read.map (fun c =>
    -- Bare images stop at their first exception.
    let policy :=
      if args.vector then .vector
      else if text.isNone then .halt
      else c.core.exceptionPolicy
    { c with core := { c.core with
      exceptionPolicy := policy, execMode := args.mode.getD c.core.execMode } })

def consoleOutput (events : Array Event) : List Byte :=
  events.toList.filterMap (fun e =>
    match e with
    | .deviceWrite device offset _ v =>
      if device = console ∧ offset = consoleTx then some (v.setWidth 8) else none
    | _ => none)

def memory (c : Memory.Config) : Except MemError Memory :=
  match Memory.ofConfig c consoleBoard with
  | .error e => .error e
  | .ok m => m.mapDevice consoleBase consoleSize console

/-- Put the image into memory; gives the address where execution starts. -/
def loadImage (args : Args) (m : Memory) (image : List Byte) : Except Failure Word × Memory :=
  if args.rom then
    match m.mapRom romBase image with
    | .ok m => (.ok resetPc, m)
    | .error e => (.error (.memory e), m)
  else
    match m.writeBytes args.load image with
    | (.ok _, m) => (.ok (args.entry.getD args.load), m)
    | (.error e, m) => (.error (.image args.load e), m)

/-! ## Printing -/

def registerText (cpu : Cpu) (r : RegNum) : String :=
  Text.padLeft 4 ' ' (gprName r) ++ " = " ++ Text.hexPad 16 (highHalf (cpu.regQuad r)).toNat ++ "_" ++
    Text.hexPad 16 (cpu.reg r).toNat

/-- All registers, two general registers on a line. -/
def registersText (cpu : Cpu) : String :=
  "pc  = " ++ Text.addr cpu.pc.toNat ++ "\n" ++
  String.join ((List.finRange 32).map (fun r =>
    registerText cpu r ++ (if r.val % 2 = 1 then "\n" else "   "))) ++
  "  hi = " ++ Text.hexPad 16 cpu.hi.toNat ++ "     lo = " ++ Text.hexPad 16 cpu.lo.toNat ++ "\n"

/-- Why the run ended, or what nothing handled. -/
def exitText : RunExit → String × Option Failure
  | .guestException .breakpoint pc _ => ("break at " ++ Text.addr pc.toNat ++ "\n", none)
  | .guestException code pc slot => ("", some (.exception code pc slot))
  | .breakpoint pc => ("breakpoint at " ++ Text.addr pc.toNat ++ "\n", none)
  | .blockLimit => ("block limit reached\n", none)
  | .stopped => ("stopped\n", none)

/-! ## The tool -/

def start (config : Core.Config) (mem : Memory) (entry : Word) (breakpoints : List Word) : Core × Shared :=
  breakpoints.foldl (fun p b => p.1.addBreakpoint p.2 b)
    ((Core.ofConfig config).setPc entry, (Shared.ofMemory mem config.cache).absorb)

def execute (args : Args) (config : Option String) (image : List Byte) : Output :=
  match configure args config with
  | .error f => { failure := some f }
  | .ok c =>
    match memory c.memory with
    | .error e => { failure := some (.memory e) }
    | .ok m =>
      match loadImage args m image with
      | (.error f, m) => { console := consoleOutput m.events, failure := some f }
      | (.ok entry, m) =>
        let (core, shared) := start c.core m entry args.breakpoints
        match core.runBlocks shared (args.maxBlocks.getD Core.unlimited) with
        | (.error e, _, shared) =>
          { console := consoleOutput shared.log, failure := some (.core e) }
        | (.ok exit, core, shared) =>
          let (why, failure) := exitText exit
          { console := consoleOutput shared.log, text := registersText core.cpu ++ why, failure }

end EmotionEngine.Tool.Run
