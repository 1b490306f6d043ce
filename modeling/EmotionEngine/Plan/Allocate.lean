import EmotionEngine.Block.Basic
import EmotionEngine.Error
import EmotionEngine.Plan.Basic

/-!
Making a plan. Instructions are taken in order. A value gets a host register when an instruction first
needs it there and keeps it until its last use in the block; when all registers are taken, the value
whose register was used longest ago gives way. A value whose home is stale goes to its spill slot then,
and home when it is overwritten or no longer needed. Nothing stays in a register beyond the block.
-/

namespace EmotionEngine.Plan

open Host (Slot)

/-- Where the current copy of a value is. -/
inductive Place where
  | home
  | slot (s : Slot)
  | spill
  deriving DecidableEq

/-- A value: where it is, and whether its home is stale. -/
structure Value where
  place : Place := .home
  dirty : Bool := false
  deriving DecidableEq

instance : Inhabited Value := ⟨{}⟩

/-- What the allocator knows between two instructions. -/
structure State where
  values : Vector Value GuestReg.count
  /-- The last instruction that used each host register. -/
  lastUse : Vector Nat 5

namespace State

/-- At the start of a block every value is at home. -/
def start : State := { values := Vector.replicate _ {}, lastUse := Vector.replicate _ 0 }

def value (st : State) (g : GuestReg) : Value :=
  have := g.index_lt
  st.values[g.index]

def setValue (st : State) (g : GuestReg) (v : Value) : State :=
  { st with values := st.values.set g.index v g.index_lt }

@[simp] theorem value_start (g : GuestReg) : start.value g = {} := by
  simp [value, start]

@[simp] theorem value_setValue_self (st : State) (g : GuestReg) (v : Value) :
    (st.setValue g v).value g = v := by
  simp [value, setValue]

theorem value_setValue_of_ne (st : State) {g h : GuestReg} (v : Value) (hne : g ≠ h) :
    (st.setValue g v).value h = st.value h := by
  have hi : g.index ≠ h.index := fun e => hne (GuestReg.index_injective e)
  simp [value, setValue, hi]

/-- Note that an instruction uses a host register. -/
def touch (st : State) (now : Nat) (s : Slot) : State := { st with lastUse := setAt st.lastUse s now }

/-- The value that a host register holds. -/
def holder? (st : State) (s : Slot) : Option GuestReg :=
  GuestReg.all.find? (fun g => (st.value g).place == .slot s)

/-- The moves that bring every stale home up to date. -/
def flush (st : State) : List Move :=
  GuestReg.all.filterMap (fun g =>
    match st.value g with
    | { place := .slot s, dirty := true } => some (.writeBack g s)
    | { place := .spill, dirty := true } => some (.spillToHome g)
    | _ => none)

/-! ## Choosing a host register -/

/-- Of two registers the one used longer ago; the first if there is no difference. -/
def older (st : State) (a b : Slot) : Slot := if st.lastUse.get b < st.lastUse.get a then b else a

/-- The register used longest ago whose value may be moved out. -/
def victim? (st : State) (pinned : List GuestReg) : Option Slot :=
  let movable (s : Slot) : Bool :=
    match st.holder? s with
    | some g => !pinned.contains g
    | none => false
  match Slot.all.filter movable with
  | [] => none
  | s :: rest => some (rest.foldl st.older s)

/-- Move the value out of a host register: to its spill slot if its home is stale. -/
def evict (st : State) (s : Slot) : List Move × State :=
  match st.holder? s with
  | none => ([], st)
  | some g =>
    if (st.value g).dirty then ([.spill g s], st.setValue g { place := .spill, dirty := true })
    else ([], st.setValue g { place := .home, dirty := false })

/-- A host register for a new value, and the moves that free it. Values of `pinned` stay. -/
def claim? (st : State) (pinned : List GuestReg) : Option (Slot × List Move × State) :=
  match Slot.all.find? (fun s => (st.holder? s).isNone) with
  | some s => some (s, [], st)
  | none => (st.victim? pinned).map (fun s => (s, st.evict s))

/-! ## Instructions -/

/-- Make the home of a value current, for a helper that reads it there. -/
def bringHome (st : State) (g : GuestReg) : List Move × State :=
  match st.value g with
  | { place := .slot s, dirty := true } =>
    ([.writeBack g s], st.setValue g { place := .slot s, dirty := false })
  | { place := .spill, dirty := true } =>
    ([.spillToHome g], st.setValue g { place := .home, dirty := false })
  | _ => ([], st)

/-- The moves that fetch a value into a host register. One that is overwritten unread is not fetched,
but a spilled copy must still reach home, in case the instruction faults. -/
def fetch (v : Value) (g : GuestReg) (s : Slot) (read : Bool) : List Move :=
  match v.place, read with
  | .home, true => [.loadHome g s]
  | .spill, true => [.reload g s]
  | .spill, false => if v.dirty then [.spillToHome g] else []
  | _, _ => []

/-- Put an operand into a host register; `none` if none can be freed. -/
def place? (st : State) (now : Nat) (u : Uses) (operands : List GuestReg) (g : GuestReg) :
    Option (List Move × Slot × State) :=
  match (st.value g).place with
  | .slot s => some ([], s, st.touch now s)
  | p =>
    match st.claim? operands with
    | none => none
    | some (s, moves, st) =>
      let v := st.value g
      let read := u.reads.contains g
      -- A spilled copy that is overwritten unread has just gone home.
      let dirty := v.dirty && !(p == .spill && !read)
      some (moves ++ fetch v g s read, s,
        (st.setValue g { place := .slot s, dirty }).touch now s)

/-- Put operands into host registers one after another. -/
def placeAll (st : State) (now : Nat) (u : Uses) (operands : List GuestReg) :
    List GuestReg → Except GuestReg (List Move × List (GuestReg × Slot) × State)
  | [] => .ok ([], [], st)
  | g :: rest =>
    match st.place? now u operands g with
    | none => .error g
    | some (moves, s, st) =>
      match placeAll st now u operands rest with
      | .error g => .error g
      | .ok (more, places, st) => .ok (moves ++ more, (g, s) :: places, st)

/-- The value's home is its only copy from now on. -/
def discard (st : State) (g : GuestReg) : State := st.setValue g {}

/-- Give up a value's host register and spill slot, writing it home first if its home is stale. -/
def release (st : State) (g : GuestReg) : List Move × State :=
  let moves :=
    match st.value g with
    | { place := .slot s, dirty := true } => [.writeBack g s]
    | { place := .spill, dirty := true } => [.spillToHome g]
    | _ => []
  (moves, st.discard g)

/-- Apply a change that makes moves to each of several values. -/
def forEach (change : State → GuestReg → List Move × State) (st : State) :
    List GuestReg → List Move × State
  | [] => ([], st)
  | g :: rest =>
    let (moves, st) := change st g
    let (more, st) := forEach change st rest
    (moves ++ more, st)

/-- The values an instruction has in host registers: what it reads, then what else it writes. -/
def native (u : Uses) : List GuestReg :=
  u.reads ++ u.writes.filter (fun g => !u.reads.contains g)

/-- Mark a value's home as stale. -/
def soil (st : State) (g : GuestReg) : State := st.setValue g { st.value g with dirty := true }

/-- The plan of the instruction number `now` with uses `u`, when instructions with uses `later`
follow. -/
def step (st : State) (now : Nat) (u : Uses) (later : List Uses) : Except GuestReg (Step × State) :=
  let (homing, st) := forEach bringHome st u.envReads
  match st.placeAll now u (native u) (native u) with
  | .error g => .error g
  | .ok (moves, operands, st) =>
    -- Helpers write at home, and what they write has no other copy.
    let written := u.envWrites.foldl discard (u.writes.foldl soil st)
    -- A value that no later instruction refers to goes home at once.
    let dead := u.all.filter (fun g => later.all (fun v => !v.all.contains g))
    let (after, next) := forEach release written dead
    .ok
      ({ before := homing ++ moves
         operands
         flushPre := st.flush
         flushPost := written.flush
         after },
       next)

/-- The steps of instructions from number `now` on, and the state after them. -/
def steps (st : State) (now : Nat) : List DecodedInsn → Except CompileError (List Step × State)
  | [] => .ok ([], st)
  | i :: rest =>
    match st.step now i.insn.uses (rest.map (fun j => j.insn.uses)) with
    | .error g => .error ⟨i.addr, .exhausted g⟩
    | .ok (s, st) =>
      match steps st (now + 1) rest with
      | .error e => .error e
      | .ok (ss, st) => .ok (s :: ss, st)

end State

/-! ## Intervals -/

/-- The interval of a value in a block, if the block refers to it. -/
def interval? (uses : List Uses) (g : GuestReg) : Option Interval :=
  let refs := (uses.zipIdx.filter (fun p => p.1.all.contains g)).map Prod.snd
  match refs.head?, refs.getLast? with
  | some first, some last => some { guest := g, first, last }
  | _, _ => none

/-- All intervals, by first instruction and then by value. -/
def intervalsOf (uses : List Uses) : List Interval :=
  (GuestReg.all.filterMap (interval? uses)).mergeSort (fun a b => a.first ≤ b.first)

def ofBlock (b : Block) : Except CompileError Plan :=
  match State.start.steps 0 b.insns with
  | .error e => .error e
  | .ok (steps, st) =>
    .ok { steps, intervals := intervalsOf (b.insns.map (fun i => i.insn.uses)), exitFlush := st.flush }

/-! ## Text -/

/-- A plan as text: each instruction with its moves and operands, then the moves on leaving. -/
def listing (p : Plan) (b : Block) : String :=
  let move (m : Move) : String := "      " ++ m.text ++ "\n"
  let operand (o : GuestReg × Slot) : String := o.1.name ++ "=" ++ o.2.reg.name
  let line (i : DecodedInsn) (s : Step) : String :=
    "  " ++ Text.hexPad 8 i.addr.toNat ++ ": " ++ i.insn.disasm i.addr ++ "\n" ++
    String.join (s.before.map move) ++
    (if s.operands.isEmpty then ""
      else "      [" ++ " ".intercalate (s.operands.map operand) ++ "]\n") ++
    String.join (s.after.map move)
  String.join (List.zipWith line b.insns p.steps) ++
    String.join (p.exitFlush.map (fun m => "  exit: " ++ m.text ++ "\n"))

end EmotionEngine.Plan
