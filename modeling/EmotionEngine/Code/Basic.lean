import EmotionEngine.Host.Insn

/-!
Code before it is laid out. The code of a block is a body with jumps out of it; each jump leads to a
path of its own, which ends the block. `assemble` puts the paths after the body, in the order of their
jumps, and so knows every distance. Distances count from the jump, so the code runs wherever it lies.
-/

namespace EmotionEngine.Code

open Host (CodeByte Cond)

/-- A piece of the body. -/
inductive Item where
  | insn (i : Host.Insn)
  /-- Leave along `path`, if the condition holds or there is none. -/
  | leave (cond : Option Cond) (path : List Host.Insn)
  deriving DecidableEq

def encode (is : List Host.Insn) : List CodeByte := is.flatMap Host.Insn.encode

namespace Item

def jump (cond : Option Cond) (rel : Word) : Host.Insn :=
  match cond with
  | some c => .jcc c rel
  | none => .jmp rel

/-- How many bytes the piece takes in the body. -/
def size : Item → Nat
  | insn i => i.size
  | leave cond _ => (jump cond 0).size

/-- The path that the piece leads out along. -/
def path : Item → List Host.Insn
  | insn _ => []
  | leave _ path => path

end Item

/-- How many bytes the body takes. -/
def bodySize (items : List Item) : Nat := items.foldr (fun i n => i.size + n) 0

/-- The instructions of a body, where the rest of it starts at `pos` and the first of its paths at
`out`. -/
def link : Nat → Nat → List Item → List Host.Insn
  | _, _, [] => []
  | pos, out, .insn i :: rest => i :: link (pos + i.size) out rest
  | pos, out, item@(.leave cond path) :: rest =>
    -- The distance counts from the end of the jump.
    let next := pos + item.size
    Item.jump cond (BitVec.ofNat 32 out - BitVec.ofNat 32 next) ::
      link next (out + (encode path).length) rest

/-- The code of a body and its paths. -/
def assemble (items : List Item) : List CodeByte :=
  encode (link 0 (bodySize items) items) ++ encode (items.flatMap Item.path)

end EmotionEngine.Code
