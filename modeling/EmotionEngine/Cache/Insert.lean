import EmotionEngine.Cache.Check

/-!
Inserting blocks. A block is refused if one of its pages was written since it was decoded. Otherwise it
replaces the block at the same address, and blocks that are not pinned give way to it, the one used
longest ago first: until it is within the bounds of the cache, and then until a free range of the arena is long
enough for it.
-/

namespace EmotionEngine.Cache

/-- The first page of a block that is no longer as the block was decoded from it. -/
def stalePage? (b : Block) (mem : Memory) : Option Nat :=
  (b.pages.find? (fun p => mem.pageVersion p.page ≠ p.version || !mem.isCodePage p.page)).map
    PageSnapshot.page

/-- The blocks that may give way, the one used longest ago first. -/
def evictable (c : Cache) : List BlockId :=
  (c.byUse.toList.map Prod.snd).filter
    (fun id => match c.blocks[id]? with
      | some e => e.pins = 0
      | none => false)

def evict (c : Cache) (id : BlockId) : Cache :=
  let c := c.remove id
  { c with counts := { c.counts with evictions := c.counts.evictions + 1 } }

/-- Whether a block whose code takes `need` bytes is within the bounds. -/
def hasRoom (c : Cache) (need : Nat) : Bool :=
  c.blocks.size < c.maxBlocks && c.arena.used + need ≤ c.maxCodeBytes

/-- Evict blocks of a list until `need` bytes are within the bounds; gives those that are left of the list. -/
def makeRoom (c : Cache) (need : Nat) : List BlockId → Option (List BlockId) × Cache
  | [] => (if c.hasRoom need then some [] else none, c)
  | id :: rest => if c.hasRoom need then (some (id :: rest), c) else (c.evict id).makeRoom need rest

/-- Place code in the arena, evicting blocks of a list until some free range is long enough. -/
def place (c : Cache) (code : List Host.CodeByte) : List BlockId → Option Nat × Cache
  | [] =>
    match c.arena.alloc? code with
    | some (offset, arena) => (some offset, { c with arena })
    | none => (none, c)
  | id :: rest =>
    match c.arena.alloc? code with
    | some (offset, arena) => (some offset, { c with arena })
    | none => (c.evict id).place code rest

def enter (c : Cache) (b : Block) (t : Translation) (offset : Nat) : Handle × Cache :=
  let id := c.nextId
  let now := c.tick + 1
  let entry : Entry :=
    { block := b, offset, size := t.code.length, spills := t.spills, clobbers := t.clobbers,
      lastUse := now, pins := 0 }
  ({ id, block := b },
    { c with
      nextId := id + 1
      tick := now
      blocks := c.blocks.insert id entry
      byAddr := c.byAddr.insert b.start.toNat id
      byPage := b.pages.foldl (fun m p => m.insert p.page (m.getD p.page [] ++ [id])) c.byPage
      byUse := c.byUse.insert now id
      counts := { c.counts with inserts := c.counts.inserts + 1 } })

def insertNew (c : Cache) (b : Block) (t : Translation) : Except CacheError Handle × Cache :=
  let need := Arena.footprint t.code.length
  -- Code that would not even fit an empty cache evicts nothing.
  if c.maxCodeBytes < need then (.error (.capacityExceeded need 0), c)
  else
    match c.makeRoom need c.evictable with
    | (none, c) => (.error (.capacityExceeded need c.pinned), c)
    | (some rest, c) =>
      -- Fragmentation can defeat the bounds.
      match c.place t.code rest with
      | (none, c) => (.error (.capacityExceeded need c.pinned), c)
      | (some offset, c) =>
        let (h, c) := c.enter b t offset
        (.ok h, c)

def insert (c : Cache) (b : Block) (t : Translation) (mem : Memory) : Except CacheError Handle × Cache :=
  match stalePage? b mem with
  | some page => (.error (.staleBlock b.start page), c)
  | none =>
    let c :=
      match c.byAddr[b.start.toNat]? with
      | some old => c.remove old
      | none => c
    match c.insertNew b t with
    | (.error e, c) => (.error e, c)
    | (.ok h, c) =>
      match c.check with
      | .ok () => (.ok h, c)
      | .error e => (.error e, c)

end EmotionEngine.Cache
