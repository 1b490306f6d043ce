import EmotionEngine.Host.CodeByte
import Std.Data.ExtTreeMap

/-!
The code arena: the memory that translated blocks lie in. Allocations are multiples of 16 bytes. The free
part is a list of ranges by offset; an allocation takes the start of the first range that is long enough,
and a range given back is joined with the free ranges right before and right after it.
-/

namespace EmotionEngine

open Host (CodeByte)

/-- A run of free bytes. -/
structure FreeRange where
  start : Nat
  size : Nat
  deriving DecidableEq

/-- The code arena. -/
structure Arena where
  capacity : Nat
  /-- Free ranges by offset. -/
  free : List FreeRange
  /-- Bytes handed out, counted in whole allocation units. -/
  used : Nat
  /-- What was written where; all else is zero. -/
  cells : Std.ExtTreeMap Nat CodeByte

namespace Arena

/-- The unit of allocation, and the alignment of every allocation. -/
def unit : Nat := 16

def granule : Nat := 4096

/-- The bytes that an allocation of `len` bytes takes. -/
def footprint (len : Nat) : Nat := (max len 1 + (unit - 1)) / unit * unit

theorem le_footprint (len : Nat) : len ≤ footprint len := by
  unfold footprint unit
  omega

theorem footprint_pos (len : Nat) : 0 < footprint len := by
  unfold footprint unit
  omega

/-- An arena of at least `size` bytes, all free. -/
def ofSize (size : Nat) : Arena :=
  let capacity := (max size 1 + (granule - 1)) / granule * granule
  { capacity, free := [{ start := 0, size := capacity }], used := 0, cells := ∅ }

def freeBytes (a : Arena) : Nat := a.free.foldr (fun r n => r.size + n) 0

/-! ## Ranges -/

/-- Take `need` bytes from the start of the first range that has as many. -/
def takeFirst (need : Nat) : List FreeRange → Option (Nat × List FreeRange)
  | [] => none
  | r :: rest =>
    if need ≤ r.size then
      some (r.start,
        if need < r.size then { start := r.start + need, size := r.size - need } :: rest else rest)
    else (takeFirst need rest).map (fun p => (p.1, r :: p.2))

/-- Put a range at its place; it replaces one with the same start. -/
def putRange (new : FreeRange) : List FreeRange → List FreeRange
  | [] => [new]
  | r :: rest =>
    if new.start < r.start then new :: r :: rest
    else if new.start = r.start then new :: rest
    else r :: putRange new rest

/-- The ranges without the one that starts at an offset. -/
def dropRange (start : Nat) (ranges : List FreeRange) : List FreeRange :=
  ranges.filter (fun r => r.start ≠ start)

def rangeBefore? (start : Nat) (ranges : List FreeRange) : Option FreeRange :=
  (ranges.filter (fun r => r.start < start)).getLast?

/-- Give back a range, joined with the range that ends where it starts. -/
def joinBefore (new : FreeRange) (ranges : List FreeRange) : FreeRange × List FreeRange :=
  match rangeBefore? new.start ranges with
  | some p =>
    if p.start + p.size = new.start then
      ({ start := p.start, size := new.size + p.size }, dropRange p.start ranges)
    else (new, ranges)
  | none => (new, ranges)

/-- Join a range that ends at `stop` with the range that starts there. -/
def joinAfter (stop : Nat) (new : FreeRange) (ranges : List FreeRange) : FreeRange × List FreeRange :=
  match ranges.find? (fun r => r.start = stop) with
  | some n => ({ new with size := new.size + n.size }, dropRange stop ranges)
  | none => (new, ranges)

def giveBack (range : FreeRange) (ranges : List FreeRange) : List FreeRange :=
  let (new, ranges) := joinBefore range ranges
  let (new, ranges) := joinAfter (range.start + range.size) new ranges
  putRange new ranges

/-! ## Operations -/

def writeCells (cells : Std.ExtTreeMap Nat CodeByte) (pos : Nat) :
    List CodeByte → Std.ExtTreeMap Nat CodeByte
  | [] => cells
  | b :: rest => writeCells (cells.insert pos b) (pos + 1) rest

/-- Copy code into the first free range that is long enough; gives its offset. -/
def alloc? (a : Arena) (code : List CodeByte) : Option (Nat × Arena) :=
  let need := footprint code.length
  (takeFirst need a.free).map (fun p =>
    (p.1, { a with free := p.2, used := a.used + need, cells := writeCells a.cells p.1 code }))

/-- Give back the allocation of `len` bytes at an offset. -/
def release (a : Arena) (start len : Nat) : Arena :=
  { a with
    free := giveBack { start, size := footprint len } a.free
    used := a.used - footprint len }

/-- `release`, refused when fewer bytes are handed out than would come back. -/
def release? (a : Arena) (start len : Nat) : Option Arena :=
  if footprint len ≤ a.used then some (a.release start len) else none

def reset (a : Arena) : Arena := { a with free := [{ start := 0, size := a.capacity }], used := 0 }

def read (a : Arena) (start len : Nat) : List CodeByte :=
  (List.range len).map (fun i => a.cells.getD (start + i) default)

/-- `read`, refused beyond the end of the arena. -/
def read? (a : Arena) (start len : Nat) : Option (List CodeByte) :=
  if start + len ≤ a.capacity then some (a.read start len) else none

end Arena

end EmotionEngine
