import EmotionEngine.Block.Build
import EmotionEngine.Code.OfBlock
import EmotionEngine.Memory.Map
import EmotionEngine.Tool.Args
import EmotionEngine.Tool.Failure

/-!
The tool `ee-blockdump`: find the blocks of an image without running it, and print each with its plan
and the size of its code. The search goes from the first block to where each block found can go on,
nearest first, and stays inside the image.
-/

namespace EmotionEngine.Tool.BlockDump

/-- What the tool is asked to do. -/
structure Args where
  image : String
  load : Word
  /-- The first block, if it is not the start of the image. -/
  start : Option Word
  /-- How many blocks to print. -/
  count : Nat
  maxInsns : Nat
  /-- Whether to print plans. -/
  plans : Bool
  /-- Whether to print code. -/
  hex : Bool
  output : Option String
  deriving DecidableEq

def specs : List OptionSpec :=
  [{ long := "load" }, { long := "start" }, { long := "count" }, { long := "max-insns" },
   { long := "regalloc", takesValue := false }, { long := "hex", takesValue := false },
   { long := "output", short := some 'o' }]

/-- Read the arguments; `none` if they make no sense. -/
def Args.parse? (args : List String) : Option Args := do
  let c ← CommandLine.parse? specs args
  let load ← c.read? "load" address?
  let start ← c.read? "start" address?
  let count ← c.read? "count" count?
  let maxInsns ← c.read? "max-insns" limit?
  let output ← c.read? "output" file?
  match c.others with
  | [file] =>
    let image ← file? file
    return { image, load := load.getD 0x00100000#32, start, count := count.getD 64,
             maxInsns := maxInsns.getD 512, plans := c.has "regalloc", hex := c.has "hex", output }
  | _ => none

/-! ## Printing -/

/-- A byte of code. One that is not known before the code is placed has no digits. -/
def byteText (b : Host.CodeByte) : String :=
  match b.value? with
  | some v => Text.hexPad 2 v.toNat
  | none => "??"

/-- Code in lines of sixteen bytes from an offset on; `fuel` bounds their number. -/
def hexLines : Nat → Nat → List Host.CodeByte → String
  | 0, _, _ => ""
  | fuel + 1, offset, code =>
    if code.isEmpty then ""
    else
      "    " ++ Text.hexPad 4 offset ++ ":" ++
        String.join ((code.take 16).map (fun b => " " ++ byteText b)) ++ "\n" ++
        hexLines fuel (offset + 16) (code.drop 16)

def blockText (args : Args) (b : Block) (p : Plan) (t : Translation) : String :=
  b.listing ++ (if args.plans then p.listing b else "") ++
    "  host: " ++ toString t.code.length ++ " bytes, " ++ toString t.spills ++ " spills\n" ++
    "  clobbers: " ++ t.clobbers.describe ++ "\n" ++
    (if args.hex then hexLines t.code.length 0 t.code else "") ++ "\n"

/-! ## Searching -/

/-- What has been found so far. -/
structure Search where
  mem : Memory
  seen : List Word := []
  text : String := ""
  blocks : Nat := 0
  guestBytes : Nat := 0
  hostBytes : Nat := 0

def Search.summary (s : Search) : String :=
  toString s.blocks ++ " blocks, " ++ toString s.guestBytes ++ " guest bytes, " ++
    toString s.hostBytes ++ " host bytes\n"

/-- Look at an address: the search after it, with the addresses to look at next if a block was found. -/
def Search.visit (s : Search) (args : Args) (pc : Word) : Except CompileError (Search × Option (List Word)) :=
  match Block.build s.mem args.maxInsns [] pc with
  | (.error e, mem) =>
    .ok ({ s with mem, text := s.text ++ "---- " ++ Text.addr pc.toNat ++ ": " ++ e.message ++ "\n" }, none)
  | (.ok b, mem) =>
    match Plan.ofBlock b, b.translate with
    | .error e, _ => .error e
    | _, .error e => .error e
    | .ok p, .ok t =>
      .ok
        ({ s with
           mem
           text := s.text ++ blockText args b p t
           blocks := s.blocks + 1
           guestBytes := s.guestBytes + (b.stop - b.start).toNat
           hostBytes := s.hostBytes + t.code.length },
         some b.successors)

/-- Look at addresses in turn, until there are none left or `left` blocks have been found. -/
def search (args : Args) (stop : Word) (left : Nat) (s : Search) : List Word → Except CompileError Search
  | [] => .ok s
  | pc :: queue =>
    match left with
    | 0 => .ok s
    | left + 1 =>
      -- An address counts as seen also when it lies outside the image.
      if s.seen.contains pc || pc < args.load || stop ≤ pc then
        search args stop (left + 1) { s with seen := pc :: s.seen } queue
      else
        match { s with seen := pc :: s.seen }.visit args pc with
        | .error e => .error e
        | .ok (s, none) => search args stop (left + 1) s queue
        | .ok (s, some next) => search args stop left s (queue ++ next)
  termination_by queue => (left, queue.length)

/-! ## The tool -/

/-- What the tool writes, to its output file if it has one; or a failure. -/
def execute (args : Args) (image : List Byte) : Except Failure String :=
  match Memory.ofConfig {} with
  | .error e => .error (.memory e)
  | .ok m =>
    match m.writeBytes args.load image with
    | (.error e, _) => .error (.image args.load e)
    | (.ok _, mem) =>
      let stop := args.load + BitVec.ofNat 32 image.length
      match search args stop args.count { mem } [args.start.getD args.load] with
      | .error e => .error (.core (.compile e))
      | .ok s => .ok (s.text ++ s.summary)

end EmotionEngine.Tool.BlockDump
