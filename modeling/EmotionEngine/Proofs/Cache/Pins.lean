import EmotionEngine.Proofs.Cache.Traffic

/-!
Pinned code. Clients pin blocks and give the pins back, while others insert, invalidate and flush. A
`Ledger` is what an observer of the clients writes down: the pins that are out, and where the code of each
block was placed.

Main statement: `pinned_kept`. As long as a block is pinned its code is untouched and its own, and making
room does not choose it; once it is unindexed and unpinned, its range has gone back to the arena, once.
-/

namespace EmotionEngine.Cache

open Host (CodeByte)

/-! ## Ledgers -/

theorem apply_insert (c : Cache) (b : Block) (t : Translation) (mem : Memory) :
    (c.apply (.insert b t mem)).2 = (c.insert b t mem).2 := by
  dsimp only [apply]
  generalize c.insert b t mem = r
  obtain ⟨e | handle, c'⟩ := r <;> rfl

/-- What an observer of the clients writes down. -/
structure Ledger where
  /-- The pins on each block that are out. -/
  pins : BlockId → Nat := fun _ => 0
  /-- How many of them were ever out at a time. -/
  most : BlockId → Nat := fun _ => 0
  /-- The code that each block was inserted with, and where it was placed. -/
  placed : BlockId → Option (Nat × List CodeByte) := fun _ => none

namespace Ledger

/-- A pin is out once a handle was given, until it is taken back. A block that an insertion brings in has
the next identity. -/
def after (k : Ledger) (c : Cache) : Op → Ledger
  | .pin pc =>
    match (c.pin pc).1 with
    | some h =>
      { k with
        pins := Function.update k.pins h.id (k.pins h.id + 1)
        most := Function.update k.most h.id (max (k.most h.id) (k.pins h.id + 1)) }
    | none => k
  | .unpin id => { k with pins := Function.update k.pins id (k.pins id - 1) }
  | .insert b t mem =>
    match (c.insert b t mem).2.blocks[c.nextId]? with
    | some e => { k with placed := Function.update k.placed c.nextId (some (e.offset, t.code)) }
    | none => k
  | _ => k

end Ledger

/-- Clients act on a new cache, each taking back only pins that are out. -/
inductive Reached (l : Limits) : Ledger → Cache → Prop where
  | new : Reached l {} (ofLimits l)
  | act {k : Ledger} {c : Cache} (h : Reached l k c) (op : Op) (matched : ∀ id, op = .unpin id → 0 < k.pins id) :
    Reached l (k.after c op) (c.apply op).2

/-- The ledger, the log and the cache tell the same story. The counts of the cache never run ahead of the
ledger, and fall behind only once a count has wrapped. -/
structure Audited (l : Limits) (k : Ledger) (log : List Traffic) (c : Cache) : Prop where
  holding : c.Holding
  run : Traffic.Run (ofLimits l).book log c.book
  most : ∀ id, k.pins id ≤ k.most id
  behind : ∀ id, c.pinsOf id ≤ k.pins id
  pins : ∀ id, k.most id < twoPow 32 → k.pins id = c.pinsOf id
  issued : ∀ id, (k.placed id).isSome ↔ id < c.nextId
  takes : ∀ id, log.countP (Traffic.takesFor id) = if (k.placed id).isSome then 1 else 0
  code : ∀ {id : BlockId} {offset size : Nat}, c.range? id = some (offset, size) →
    ∃ code, k.placed id = some (offset, code) ∧ code.length = size ∧ c.arena.read offset size = code

namespace Audited

variable {l : Limits} {k : Ledger} {log log' : List Traffic} {c c' : Cache}

theorem start (l : Limits) : Audited l {} [] (ofLimits l) where
  holding := holding_ofLimits l
  run := .nil
  most _ := Nat.le_refl 0
  behind id := by simp [pinsOf, ofLimits]
  pins id _ := by simp [pinsOf, ofLimits]
  issued id := by simp [ofLimits]
  takes id := by simp
  code range := by simp [range?, ofLimits] at range

/-- Ranges are given back; the pins may be others. -/
theorem gives (h : Audited l k log c) (gives : Gives c log' c') {pins' most' : BlockId → Nat}
    (most : ∀ id, pins' id ≤ most' id) (behind : ∀ id, c'.pinsOf id ≤ pins' id)
    (same : ∀ id, most' id < twoPow 32 → pins' id = c'.pinsOf id) :
    Audited l { k with pins := pins', most := most' } (log ++ log') c' where
  holding := gives.holding
  run := h.run.append gives.run
  most := most
  behind := behind
  pins := same
  issued id := by
    rw [gives.nextId]
    exact h.issued id
  takes id := by
    rw [List.countP_append, gives.takes]
    exact h.takes id
  code range := by
    obtain ⟨code, placed, length, read⟩ := h.code (gives.within range)
    refine ⟨code, placed, length, ?_⟩
    rw [← read]
    unfold Arena.read
    rw [gives.cells]

theorem drops (h : Audited l k log c) (drops : Drops c log' c') : Audited l k (log ++ log') c' :=
  h.gives drops.toGives h.most (fun id => by rw [drops.pins]; exact h.behind id)
    fun id bound => (h.pins id bound).trans (drops.pins id).symm

theorem enter (h : Audited l k log c) (b : Block) (t : Translation) {offset : Nat} {arena : Arena}
    (placed : c.arena.alloc? t.code = some (offset, arena)) :
    Audited l { k with placed := Function.update k.placed c.nextId (some (offset, t.code)) }
      (log ++ [.take c.nextId offset t.code]) ({ c with arena }.enter b t offset).2 := by
  obtain ⟨holding, range, pins⟩ := enter_takes h.holding b t placed
  have unplaced : k.placed c.nextId = none := by
    rw [← Option.not_isSome_iff_eq_none, h.issued]
    exact Nat.lt_irrefl _
  refine ⟨holding, ?run, h.most, fun id => by rw [pins]; exact h.behind id,
    fun id bound => (h.pins id bound).trans (pins id).symm, ?issued, ?takes, ?code⟩
  case run =>
    refine h.run.append ?_
    unfold book
    rw [range]
    exact run_take h.holding placed
  case issued =>
    intro id
    have later : ({ c with arena }.enter b t offset).2.nextId = c.nextId + 1 := rfl
    rw [later]
    by_cases own : id = c.nextId
    · simp [own]
    · simp only [Function.update_of_ne own, h.issued]
      exact ⟨fun lt => Nat.lt_succ_of_lt lt, fun lt => Nat.lt_of_le_of_ne (Nat.le_of_lt_succ lt) own⟩
  case takes =>
    intro id
    rw [List.countP_append, h.takes]
    by_cases own : id = c.nextId
    · subst own
      simp [unplaced, Traffic.takesFor]
    · simp [own, Ne.symm own, Traffic.takesFor]
  case code =>
    intro id offset' size found
    rw [range] at found
    show ∃ code, _ ∧ _ ∧ arena.read offset' size = code
    by_cases own : id = c.nextId
    · rw [own, Function.update_self] at found
      cases found
      exact ⟨t.code, by simp [own], rfl, (h.holding.stock.alloc_read placed).1⟩
    · rw [Function.update_of_ne own] at found
      obtain ⟨code, known, length, read⟩ := h.code found
      refine ⟨code, by simp [own, known], length, ?_⟩
      rw [h.holding.alloc_read found placed, read]

theorem act (h : Audited l k log c) (op : Op) :
    ∃ log', Audited l (k.after c op) (log ++ log') (c.apply op).2 := by
  cases op with
  | lookup pc =>
    obtain ⟨gives, pins⟩ := find_gives h.holding pc false
    have same (id : BlockId) : (c.find pc false).2.pinsOf id = c.pinsOf id := by rw [pins, if_neg (by simp)]
    refine ⟨[], h.gives gives h.most (fun id => ?_) fun id bound => ?_⟩
    · rw [same]
      exact h.behind id
    · rw [same]
      exact h.pins id bound
  | pin pc =>
    obtain ⟨gives, pins⟩ := find_gives h.holding pc true
    dsimp only [Ledger.after]
    split
    · next handle found =>
      have now (id : BlockId) : (c.find pc true).2.pinsOf id =
          if id = handle.id then (c.pinsOf id + 1) % twoPow 32 else c.pinsOf id := by
        rw [pins, show (c.find pc true).1 = some handle from found]
        simp [eq_comm]
      refine ⟨[], h.gives gives (fun id => ?_) (fun id => ?_) fun id bound => ?_⟩
      · by_cases own : id = handle.id
        · subst own
          rw [Function.update_self, Function.update_self]
          exact Nat.le_max_right _ _
        · rw [Function.update_of_ne own, Function.update_of_ne own]
          exact h.most id
      · have behind := h.behind id
        rw [now]
        by_cases own : id = handle.id
        · subst own
          rw [if_pos rfl, Function.update_self]
          exact Nat.le_trans (Nat.mod_le _ _) (Nat.succ_le_succ behind)
        · rwa [if_neg own, Function.update_of_ne own]
      · rw [now]
        by_cases own : id = handle.id
        · subst own
          rw [Function.update_self, Nat.max_lt] at bound
          rw [if_pos rfl, Function.update_self, ← h.pins _ bound.1, Nat.mod_eq_of_lt bound.2]
        · rw [Function.update_of_ne own] at bound
          rw [if_neg own, Function.update_of_ne own, h.pins id bound]
    · next missed =>
      have same (id : BlockId) : (c.find pc true).2.pinsOf id = c.pinsOf id := by
        rw [pins, show (c.find pc true).1 = none from missed, if_neg (by simp)]
      refine ⟨[], h.gives gives h.most (fun id => ?_) fun id bound => ?_⟩
      · rw [same]
        exact h.behind id
      · rw [same]
        exact h.pins id bound
  | unpin id =>
    obtain ⟨⟨log', gives⟩, pins⟩ := unpin_gives h.holding id
    refine ⟨log', h.gives gives (fun a => ?_) (fun a => ?_) fun a bound => ?_⟩
    · have most := h.most a
      by_cases own : a = id
      · subst own
        rw [Function.update_self]
        omega
      · rwa [Function.update_of_ne own]
    · have behind := h.behind a
      rw [pins]
      by_cases own : a = id
      · subst own
        rw [if_pos rfl, Function.update_self]
        omega
      · rwa [if_neg own, Function.update_of_ne own]
    · have same := h.pins a bound
      rw [pins]
      by_cases own : a = id
      · subst own
        rw [if_pos rfl, Function.update_self, same]
      · rwa [if_neg own, Function.update_of_ne own]
  | insert b t mem =>
    rw [apply_insert]
    obtain ⟨log', c', drops, stopped | ⟨offset, arena, placed, entered⟩⟩ := insert_cases h.holding b t mem
    · have absent : c'.blocks[c.nextId]? = none := (drops.holding.fresh (Nat.le_of_eq drops.nextId)).1
      dsimp only [Ledger.after]
      rw [stopped, absent]
      exact ⟨log', h.drops drops⟩
    · have came : ({ c' with arena }.enter b t offset).2.blocks[c'.nextId]? = some (c'.newEntry b t offset) := by
        show (c'.blocks.insert c'.nextId _)[c'.nextId]? = _
        rw [getElem?_insert, if_pos rfl]
        rfl
      dsimp only [Ledger.after]
      rw [entered, ← drops.nextId, came]
      exact ⟨log' ++ _, List.append_assoc log log' _ ▸ (h.drops drops).enter b t placed⟩
  | invalidatePage page =>
    obtain ⟨log', drops⟩ := removeAll_drops h.holding (c.byPage.getD page [])
    exact ⟨log', h.drops (drops.counts _)⟩
  | flush =>
    obtain ⟨log', drops⟩ := removeAll_drops h.holding c.blocks.keys
    exact ⟨log', h.drops (drops.counts _)⟩

end Audited

theorem Reached.audited {l : Limits} {k : Ledger} {c : Cache} (h : Reached l k c) : ∃ log, Audited l k log c := by
  induction h with
  | new => exact ⟨[], .start l⟩
  | act _ op _ ih =>
    obtain ⟨log, audited⟩ := ih
    obtain ⟨log', later⟩ := audited.act op
    exact ⟨log ++ log', later⟩

/-! ## Pinned code -/

/-- Making room evicts none but the blocks it may choose from. -/
theorem placeEvicting_blocks {c : Cache} {id : BlockId} {ids : List BlockId} (code : List CodeByte)
    (spared : id ∉ ids) : (c.placeEvicting code ids).2.blocks[id]? = c.blocks[id]? := by
  induction ids generalizing c with
  | nil =>
    unfold placeEvicting
    obtain absent | ⟨offset, arena, placed, -⟩ := c.place?_cases code
    · rw [absent]
    · rw [placed]
  | cons a ids ih =>
    rw [List.mem_cons, not_or] at spared
    unfold placeEvicting
    obtain absent | ⟨offset, arena, placed, -⟩ := c.place?_cases code
    · rw [absent]
      dsimp only
      rw [ih spared.2]
      show (c.remove a).blocks[id]? = _
      rw [getElem?_remove_blocks, if_neg spared.1]
    · rw [placed]

theorem not_mem_evictable {c : Cache} {id : BlockId} (pinned : 0 < c.pinsOf id) : id ∉ c.evictable := by
  unfold evictable
  rw [List.mem_filter]
  rintro ⟨-, free⟩
  unfold pinsOf at pinned
  split at free
  · next e held =>
    rw [held] at pinned
    rw [decide_eq_true_eq] at free
    dsimp only at pinned
    rw [free] at pinned
    cases pinned
  · cases free

/-- Making room gives out no identity. -/
theorem placeEvicting_nextId (c : Cache) (code : List CodeByte) (ids : List BlockId) :
    (c.placeEvicting code ids).2.nextId = c.nextId := by
  obtain ⟨victims, c', evicted, full | ⟨offset, arena, placed, -⟩⟩ := c.placeEvicting_cases code ids
  · rw [full, ← evicted]
    exact (c.evictAll_settles victims).nextId
  · rw [placed, ← evicted]
    exact (c.evictAll_settles victims).nextId

theorem insertNew_keeps_pinned {c : Cache} {id : BlockId} {e : Entry} (old : id < c.nextId)
    (held : c.blocks[id]? = some e) (pinned : 0 < e.pins) (b : Block) (t : Translation) :
    (c.insertNew b t).2.blocks[id]? = some e := by
  have spared : id ∉ c.evictable := not_mem_evictable (by unfold pinsOf; rw [held]; exact BitVec.lt_def.1 pinned)
  have kept := placeEvicting_blocks (c := c) t.code spared
  have nextId := c.placeEvicting_nextId t.code c.evictable
  rw [insertNew_eq]
  split
  · exact held
  · generalize c.placeEvicting t.code c.evictable = r at kept nextId ⊢
    obtain ⟨offset | offset, c'⟩ := r
    · exact kept.trans held
    · show (c'.blocks.insert c'.nextId _)[id]? = some e
      have other : id ≠ c'.nextId := by
        rw [show c'.nextId = c.nextId from nextId]
        exact Nat.ne_of_lt old
      rw [getElem?_insert, if_neg other]
      exact kept.trans held

/-- Inserting a block keeps every pinned block indexed that it does not replace. -/
theorem insert_keeps_pinned {c : Cache} (h : c.Holding) {id : BlockId} {e : Entry}
    (held : c.blocks[id]? = some e) (pinned : 0 < e.pins) {b : Block}
    (elsewhere : c.byAddr[b.start.toNat]? ≠ some id) (t : Translation) (mem : Memory) :
    (c.insert b t mem).2.blocks[id]? = some e := by
  have old := h.lt_nextId held
  unfold insert
  split
  · exact held
  · have finish {c' : Cache} (old : id < c'.nextId) (held : c'.blocks[id]? = some e) :
        (c'.insertChecked b t).2.blocks[id]? = some e := by
      rw [insertChecked_snd]
      exact insertNew_keeps_pinned old held pinned b t
    cases found : c.byAddr[b.start.toNat]? with
    | none => exact finish old held
    | some a =>
      have other : id ≠ a := fun same => elsewhere (same ▸ found)
      refine finish (by rw [remove_nextId]; exact old) ?_
      rw [getElem?_remove_blocks, if_neg other, held]

theorem apart_of_hits {start start' size size' : Nat} (positive : 0 < size) (positive' : 0 < size')
    (once : ∀ x, Arena.hits start size x + Arena.hits start' size' x ≤ 1) :
    start + size ≤ start' ∨ start' + size' ≤ start := by
  have common := once (max start start')
  unfold Arena.hits at common
  split at common <;> split at common <;> omega

/-- The code of a block is where it was placed, as it was inserted, and nobody else's; nor can it be chosen
to make room. -/
structure Kept (c : Cache) (id : BlockId) (offset : Nat) (code : List CodeByte) : Prop where
  range : c.range? id = some (offset, code.length)
  bytes : c.arena.read offset code.length = code
  /-- No byte of it is free. -/
  taken : ∀ x, offset ≤ x → x < offset + Arena.footprint code.length → Arena.cover x c.arena.free = 0
  /-- No other block has a byte of it. -/
  alone : ∀ (other : BlockId) (start size : Nat), other ≠ id → c.range? other = some (start, size) →
    offset + Arena.footprint code.length ≤ start ∨ start + Arena.footprint size ≤ offset
  /-- The next allocation, whatever it is for, has no byte of it. -/
  apart : ∀ (code' : List CodeByte) (start : Nat) (arena : Arena), c.arena.alloc? code' = some (start, arena) →
    offset + Arena.footprint code.length ≤ start ∨ start + Arena.footprint code'.length ≤ offset
  spared : id ∉ c.evictable
  /-- As long as it is indexed, no insertion takes it out but one at its own address. -/
  stays : ∀ (e : Entry) (b : Block) (t : Translation) (mem : Memory), c.blocks[id]? = some e →
    c.byAddr[b.start.toNat]? ≠ some id → (c.insert b t mem).2.blocks[id]? = some e

theorem Audited.kept {l : Limits} {k : Ledger} {log : List Traffic} {c : Cache} (h : Audited l k log c)
    {id : BlockId} (bound : k.most id < twoPow 32) (pinned : 0 < k.pins id) :
    ∃ offset code, k.placed id = some (offset, code) ∧ Kept c id offset code := by
  rw [h.pins id bound] at pinned
  cases range : c.range? id with
  | none =>
    rw [pinsOf_of_range?_eq_none range] at pinned
    cases pinned
  | some p =>
    obtain ⟨offset, size⟩ := p
    obtain ⟨code, placed, rfl, read⟩ := h.code range
    refine ⟨offset, code, placed, range, read, ?taken, ?alone, ?apart, not_mem_evictable pinned, ?stays⟩
    case taken =>
      intro x lower upper
      have own : Arena.hits offset (Arena.footprint code.length) x = 1 := if_pos ⟨lower, upper⟩
      have := h.holding.hits_add_cover_le range x
      omega
    case alone =>
      intro other start size ne range'
      exact apart_of_hits (Arena.footprint_pos _) (Arena.footprint_pos _)
        (h.holding.hits_add_hits_le range range' ne)
    case apart =>
      intro code' start arena placed'
      exact apart_of_hits (Arena.footprint_pos _) (Arena.footprint_pos _)
        (h.holding.hits_add_alloc_le range placed')
    case stays =>
      intro e b t mem held elsewhere
      have now : c.pinsOf id = e.pins.toNat := by
        unfold pinsOf
        rw [held]
      exact insert_keeps_pinned h.holding held (BitVec.lt_def.2 (by rw [← now]; exact pinned)) elsewhere t mem

/-- A block that has neither an entry nor pins has no range. -/
theorem Audited.range?_eq_none_iff {l : Limits} {k : Ledger} {log : List Traffic} {c : Cache}
    (h : Audited l k log c) {id : BlockId} (bound : k.most id < twoPow 32) :
    c.range? id = none ↔ c.blocks[id]? = none ∧ k.pins id = 0 := by
  rw [h.pins id bound]
  constructor
  · intro range
    refine ⟨?_, pinsOf_of_range?_eq_none range⟩
    cases held : c.blocks[id]? with
    | none => rfl
    | some e =>
      rw [range?_of_held held] at range
      cases range
  · exact fun ⟨absent, unpinned⟩ => h.holding.range?_eq_none absent unpinned

/-- How often a range went back: once if the block has none any more, and else never. -/
theorem Audited.returned {l : Limits} {k : Ledger} {log : List Traffic} {c : Cache} (h : Audited l k log c)
    (id : BlockId) :
    log.countP (Traffic.givesFor id) = if (k.placed id).isSome ∧ c.range? id = none then 1 else 0 := by
  have balance := h.run.balance id
  have nothing : Traffic.owned (ofLimits l).book id = 0 := by simp [Traffic.owned, book, range?, ofLimits]
  rw [h.takes, nothing, Nat.add_zero] at balance
  cases range : c.range? id with
  | none =>
    have gone : Traffic.owned c.book id = 0 := by simp [Traffic.owned, book, range]
    rw [gone] at balance
    simpa using balance.symm
  | some p =>
    obtain ⟨code, placed, -⟩ := h.code range
    have owns : Traffic.owned c.book id = 1 := by simp [Traffic.owned, book, range]
    rw [owns, placed] at balance
    simpa using balance

/-- The bound matters: where the count is at its limit, one pin more makes it zero, and the block may be
evicted. -/
theorem find_wraps {c : Cache} (h : c.Holding) {pc : Word} {handle : Handle}
    (found : (c.find pc true).1 = some handle) (limit : c.pinsOf handle.id = twoPow 32 - 1) :
    (c.find pc true).2.pinsOf handle.id = 0 := by
  rw [(find_gives h pc true).2, found, if_pos ⟨rfl, rfl⟩, limit]
  rfl

end EmotionEngine.Cache
