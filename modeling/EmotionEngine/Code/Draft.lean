import EmotionEngine.Code.OfBlock

/-!
Layout in one pass. `assemble` knows the whole body before it puts down the first jump; here the bytes of a block
are appended to what a buffer holds as the body is gone through, and jumps are made before it is known where they
lead. A jump out of the body gets a label of its own and a displacement of zero. Behind the body its paths are put
down, each of them where its label is from then on. At last the displacements are patched.
-/

namespace EmotionEngine.Code

open Host (CodeByte Cond Names)

/-- A place that jumps lead to. -/
structure Label where
  /-- The offset of the place, once it is known. -/
  place : Option Nat := none
  /-- The offsets of the displacements that wait for it. -/
  uses : List Nat := []
  deriving DecidableEq

/-- How the layout of a block fails. -/
inductive EmitError where
  | compile (e : CompileError)
  /-- There is no label of that number. -/
  | noLabel (number : Nat)
  /-- A displacement at that offset is not inside the code. -/
  | outside (offset : Nat)
  deriving DecidableEq

/-- The translation of a block that starts at `start` fails, since nothing was put down at a label. -/
def EmitError.unplaced (start : Word) (number : Nat) : EmitError :=
  .compile ⟨start, .other ("label " ++ toString number ++ " used but never placed")⟩

/-- A block while it is laid out. -/
structure Draft where
  /-- All that is in the buffer. -/
  code : List CodeByte
  /-- The labels, by their numbers. -/
  labels : List Label := []
  /-- The paths that are still to be put down, with the numbers of their labels. -/
  paths : List (List Host.Insn × Nat) := []
  deriving DecidableEq

namespace Draft

def write (d : Draft) (is : List Host.Insn) : Draft := { d with code := d.code ++ encode is }

def change (d : Draft) (number : Nat) (f : Label → Label) : Except EmitError Draft :=
  match d.labels[number]? with
  | none => .error (.noLabel number)
  | some l => .ok { d with labels := d.labels.set number (f l) }

/-- Make a label for a path that is put down later, and give its number. -/
def detour (d : Draft) (path : List Host.Insn) : Nat × Draft :=
  (d.labels.length,
    { d with labels := d.labels ++ [{}], paths := d.paths ++ [(path, d.labels.length)] })

/-- Jump to a label, if a condition holds or there is none. The displacement is the end of the jump. -/
def jumpTo (d : Draft) (cond : Option Cond) (number : Nat) : Except EmitError Draft :=
  let d := d.write [Item.jump cond 0]
  d.change number fun l => { l with uses := l.uses ++ [d.code.length - 4] }

def item (d : Draft) : Item → Except EmitError Draft
  | .insn i => .ok (d.write [i])
  | .leave cond path =>
    let (number, d) := d.detour path
    d.jumpTo cond number

def body (d : Draft) : List Item → Except EmitError Draft
  | [] => .ok d
  | i :: rest =>
    match d.item i with
    | .error e => .error e
    | .ok d => d.body rest

def place (d : Draft) (path : List Host.Insn) (number : Nat) : Except EmitError Draft :=
  match d.change number fun l => { l with place := some d.code.length } with
  | .error e => .error e
  | .ok d => .ok (d.write path)

/-- Put paths down one after another. -/
def placeAll (d : Draft) : List (List Host.Insn × Nat) → Except EmitError Draft
  | [] => .ok d
  | (path, number) :: rest =>
    match d.place path number with
    | .error e => .error e
    | .ok d => d.placeAll rest

end Draft

/-- Everything that is put down before a displacement is patched. -/
def draft (before : List CodeByte) (body : List Item) : Except EmitError Draft :=
  match ({ code := before } : Draft).body body with
  | .error e => .error e
  | .ok d => { d with paths := [] }.placeAll d.paths

/-- What is to be patched for a label. A label without a place must not be in use. -/
def Label.patches (start : Word) (number : Nat) (l : Label) : Except EmitError (List (Nat × Word)) :=
  match l.place with
  | some place =>
    -- A displacement counts from its own end.
    .ok (l.uses.map fun use => (use, BitVec.ofInt 32 ((place : Int) - (use + 4))))
  | none => if l.uses.isEmpty then .ok [] else .error (.unplaced start number)

def patches (start : Word) : Nat → List Label → Except EmitError (List (Nat × Word))
  | _, [] => .ok []
  | number, l :: rest =>
    match l.patches start number, patches start (number + 1) rest with
    | .error e, _ => .error e
    | .ok _, .error e => .error e
    | .ok first, .ok later => .ok (first ++ later)

def patchAll (code : List CodeByte) : List (Nat × Word) → Except EmitError (List CodeByte)
  | [] => .ok code
  | (offset, w) :: rest =>
    match CodeByte.patchWord? code offset w with
    | none => .error (.outside offset)
    | some code => patchAll code rest

/-- Patch the displacements. All labels are looked at before the first of them is patched. -/
def Draft.resolve (d : Draft) (start : Word) : Except EmitError (List CodeByte) :=
  match patches start 0 d.labels with
  | .error e => .error e
  | .ok ps => patchAll d.code ps

/-- Lay a body out behind what a buffer holds. -/
def layOut (start : Word) (before : List CodeByte) (body : List Item) : Except EmitError (List CodeByte) :=
  match draft before body with
  | .error e => .error e
  | .ok d => d.resolve start

/-- Append the code of a block under a plan to a buffer. -/
def emit {ρ : Type} [Names ρ] (before : List CodeByte) (b : Block) (p : Plan ρ) : Except EmitError (List CodeByte) :=
  if p.steps.length ≠ b.insns.length then .error (.compile ⟨b.start, .planMismatch⟩)
  else
    match missing? b p with
    | some e => .error (.compile e)
    | none => layOut b.start before (body b p)

end EmotionEngine.Code
