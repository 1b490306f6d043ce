import EmotionEngine.Cache.Arena
import EmotionEngine.Code.OfBlock
import EmotionEngine.Error
import EmotionEngine.Memory.Basic

/-!
The translation cache: translated blocks by guest address. Each block has an identity that is never
given out again, and is found by its start, by the pages it was decoded from, and by when it was last
used. A block that is pinned while it runs is never evicted; if it is removed all the same, its code is
kept aside until the last pin goes.
-/

namespace EmotionEngine

/-- The identity of a cached block. -/
abbrev BlockId := Nat

namespace Cache

/-- The bounds of a cache. -/
structure Limits where
  maxBlocks : Nat := 16384
  maxCodeBytes : Nat := 16 * 1024 * 1024
  deriving DecidableEq

/-- A block in the cache. -/
structure Entry where
  block : Block
  /-- Where its code lies in the arena. -/
  offset : Nat
  /-- How many bytes its code has. -/
  size : Nat
  spills : Nat
  clobbers : RegSet
  /-- When it was last looked up, pinned or inserted. -/
  lastUse : Nat
  /-- How often it is pinned. The count wraps. -/
  pins : Word
  deriving DecidableEq

/-- The code of a block that was removed while pinned. -/
structure Retired where
  offset : Nat
  size : Nat
  pins : Word
  deriving DecidableEq

/-- What a cache has done so far. -/
structure Counts where
  hits : Nat := 0
  misses : Nat := 0
  inserts : Nat := 0
  invalidations : Nat := 0
  evictions : Nat := 0
  deriving DecidableEq

end Cache

open Cache in
/-- A translation cache. -/
structure Cache where
  arena : Arena
  maxBlocks : Nat
  maxCodeBytes : Nat
  /-- The identity of the next block. -/
  nextId : Nat
  /-- The time: every use of a block has its own. -/
  tick : Nat
  blocks : Std.ExtTreeMap BlockId Entry
  /-- The block that starts at each address. -/
  byAddr : Std.ExtTreeMap Nat BlockId
  /-- The blocks that were decoded from each page. -/
  byPage : Std.ExtTreeMap Nat (List BlockId)
  /-- Blocks by the time of their last use. -/
  byUse : Std.ExtTreeMap Nat BlockId
  retired : Std.ExtTreeMap BlockId Retired
  counts : Counts

namespace Cache

/-- A cached block as its users see it. -/
structure Handle where
  id : BlockId
  block : Block
  deriving DecidableEq

/-- An empty cache. There is always room for one block. -/
def ofLimits (l : Limits) : Cache :=
  { arena := Arena.ofSize l.maxCodeBytes
    maxBlocks := max l.maxBlocks 1
    maxCodeBytes := l.maxCodeBytes
    nextId := 0
    tick := 0
    blocks := ∅
    byAddr := ∅
    byPage := ∅
    byUse := ∅
    retired := ∅
    counts := {} }

/-! ## Looking things up -/

/-- The entry of the block that starts at an address. -/
def entryAt? (c : Cache) (pc : Word) : Option Entry := c.byAddr[pc.toNat]?.bind (c.blocks[·]?)

/-- The code of the block that starts at an address. -/
def codeAt? (c : Cache) (pc : Word) : Option (List Host.CodeByte) :=
  (c.entryAt? pc).map (fun e => c.arena.read e.offset e.size)

def size (c : Cache) : Nat := c.blocks.size

def pinned (c : Cache) : Nat := (c.blocks.toList.filter (fun p => 0 < p.2.pins)).length

/-- Find the block that starts at an address, which is thereby used, and pin it if asked to. -/
def find (c : Cache) (pc : Word) (pin : Bool) : Option Handle × Cache :=
  match c.byAddr[pc.toNat]? with
  | none => (none, { c with counts := { c.counts with misses := c.counts.misses + 1 } })
  | some id =>
    let now := c.tick + 1
    match c.blocks[id]? with
    | none => (none, { c with tick := now })
    | some e =>
      (some { id, block := e.block },
        { c with
          tick := now
          blocks := c.blocks.insert id { e with lastUse := now, pins := if pin then e.pins + 1 else e.pins }
          byUse := (c.byUse.erase e.lastUse).insert now id
          counts := { c.counts with hits := c.counts.hits + 1 } })

/-- Find the block that starts at an address. -/
def lookup (c : Cache) (pc : Word) : Option Handle × Cache := c.find pc false

/-- Find and pin the block that starts at an address. -/
def pin (c : Cache) (pc : Word) : Option Handle × Cache := c.find pc true

def fewer (pins : Word) : Word := if pins = 0 then 0 else pins - 1

theorem fewer_toNat (pins : Word) : (fewer pins).toNat = pins.toNat - 1 := by
  unfold fewer
  split
  · next none => rw [none]; rfl
  · next some => exact BitVec.toNat_sub_of_le (by bv_omega)

/-- Take back one pin. The code of a removed block is given back with its last pin. -/
def unpin (c : Cache) (id : BlockId) : Cache :=
  match c.blocks[id]? with
  | some e => { c with blocks := c.blocks.insert id { e with pins := fewer e.pins } }
  | none =>
    match c.retired[id]? with
    | none => c
    | some r =>
      if fewer r.pins = 0 then
        { c with retired := c.retired.erase id, arena := c.arena.release r.offset r.size }
      else { c with retired := c.retired.insert id { r with pins := fewer r.pins } }

/-! ## Removing blocks -/

/-- The page index without a block; a page without blocks is not listed. -/
def unlistPage (byPage : Std.ExtTreeMap Nat (List BlockId)) (id : BlockId) (page : Nat) :
    Std.ExtTreeMap Nat (List BlockId) :=
  match byPage[page]? with
  | none => byPage
  | some ids =>
    let rest := ids.filter (· ≠ id)
    if rest.isEmpty then byPage.erase page else byPage.insert page rest

/-- Remove a block from every index. Its code is given back, or kept aside while it is pinned. -/
def remove (c : Cache) (id : BlockId) : Cache :=
  match c.blocks[id]? with
  | none => c
  | some e =>
    let start := e.block.start.toNat
    -- The address is given up only where it is this block's.
    let c := { c with
      blocks := c.blocks.erase id
      byAddr := if c.byAddr[start]? = some id then c.byAddr.erase start else c.byAddr
      byPage := (e.block.pages.map PageSnapshot.page).foldl (fun m p => unlistPage m id p) c.byPage
      byUse := c.byUse.erase e.lastUse }
    if 0 < e.pins then
      { c with retired := c.retired.insert id { offset := e.offset, size := e.size, pins := e.pins } }
    else { c with arena := c.arena.release e.offset e.size }

def invalidated (c : Cache) (n : Nat) : Cache :=
  { c with counts := { c.counts with invalidations := c.counts.invalidations + n } }

/-- Remove every block decoded from a page; gives their number. -/
def invalidatePage (c : Cache) (page : Nat) : Nat × Cache :=
  let ids := c.byPage.getD page []
  (ids.length, (ids.foldl remove c).invalidated ids.length)

def flush (c : Cache) : Cache :=
  let ids := c.blocks.keys
  (ids.foldl remove c).invalidated ids.length

/-- Remove what the notices of memory say is no longer current. -/
def notice (c : Cache) (events : Array Event) : Cache :=
  events.foldl
    (fun c e =>
      match e with
      | .codeWritten page => (c.invalidatePage page).2
      | _ => c) c

end Cache

end EmotionEngine
