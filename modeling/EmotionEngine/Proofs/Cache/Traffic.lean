import EmotionEngine.Proofs.Cache.Session

/-!
The traffic of a cache's arena. The code of a block belongs to the block from its insertion until it is
neither indexed nor pinned, and then goes back to the arena. This is written down as a log: an insertion
takes a range for a new block, and a range is given back in the name of the block that has it.
A range that is taken was free and is in use afterwards, and one that is given back was in use and is free
(`Arena.Occupies`); `Traffic.Run` says that a log tells where every range went.

Main statements: a block gives back as often as it takes, up to the range it still has
(`Run.balance`); removing blocks gives back ranges and takes no pin away (`removeAll_drops`), so do
evictions; using blocks and taking pins back (`find_gives`, `unpin_gives`) and inserting (`insert_cases`,
`enter_takes`) move no code but what they give back and take.
-/

namespace EmotionEngine.Cache

open Std (ExtTreeMap)
open Host (CodeByte)

/-! ## Ranges and pins -/

/-- The range of the arena, by offset and length, that holds the code of a block, indexed or set aside. -/
def range? (c : Cache) (id : BlockId) : Option (Nat × Nat) :=
  match c.blocks[id]? with
  | some e => some (e.offset, e.size)
  | none => c.retired[id]?.map (fun r => (r.offset, r.size))

/-- How often a block is pinned, indexed or set aside. -/
def pinsOf (c : Cache) (id : BlockId) : Nat :=
  match c.blocks[id]? with
  | some e => e.pins.toNat
  | none => (c.retired[id]?.map fun r => r.pins.toNat).getD 0

/-- An arena and who has which range of it. -/
structure Book where
  arena : Arena
  range : BlockId → Option (Nat × Nat)

def book (c : Cache) : Book := ⟨c.arena, c.range?⟩

/-- What happens to ranges of the arena. -/
inductive Traffic where
  /-- Code of a new block is placed. -/
  | take (id : BlockId) (offset : Nat) (code : List CodeByte)
  /-- The range of a block is given back. -/
  | give (id : BlockId) (offset size : Nat)

/-- The second of two arenas has one range more in use: its bytes are free in the first and not in the second,
no other byte is free in one only, and the second counts as many bytes more. -/
structure Occupies (a a' : Arena) (start size : Nat) : Prop where
  used : a'.used = a.used + Arena.footprint size
  cover : ∀ x, Arena.cover x a.free = Arena.hits start (Arena.footprint size) x + Arena.cover x a'.free

namespace Traffic

def takesFor (id : BlockId) : Traffic → Bool
  | take a _ _ => a == id
  | give .. => false

/-- Whether an entry gives back the range of `id`. -/
def givesFor (id : BlockId) : Traffic → Bool
  | take .. => false
  | give a _ _ => a == id

/-- How a range moves: a block that has none takes one, with its code in it, and gives back the one that it
has. -/
inductive Step : Book → Traffic → Book → Prop where
  | take {b : Book} {arena : Arena} {id : BlockId} {offset : Nat} {code : List CodeByte} (none : b.range id = none)
    (occupies : Occupies b.arena arena offset code.length) (written : arena.read offset code.length = code) :
    Step b (.take id offset code) ⟨arena, Function.update b.range id (some (offset, code.length))⟩
  | give {b : Book} {arena : Arena} {id : BlockId} {offset size : Nat} (own : b.range id = some (offset, size))
    (occupies : Occupies arena b.arena offset size) (cells : arena.cells = b.arena.cells) :
    Step b (.give id offset size) ⟨arena, Function.update b.range id .none⟩

/-- What a log tells of. -/
inductive Run : Book → List Traffic → Book → Prop where
  | nil {b : Book} : Run b [] b
  | cons {b b' b'' : Book} {t : Traffic} {log : List Traffic} (first : Step b t b') (later : Run b' log b'') :
    Run b (t :: log) b''

theorem Run.append {b b' b'' : Book} {log log' : List Traffic} (h : Run b log b') (h' : Run b' log' b'') :
    Run b (log ++ log') b'' := by
  induction h with
  | nil => exact h'
  | cons first _ ih => exact .cons first (ih h')

def owned (b : Book) (id : BlockId) : Nat := if (b.range id).isSome then 1 else 0

theorem Step.balance {b b' : Book} {t : Traffic} (h : Step b t b') (id : BlockId) :
    (if t.takesFor id then 1 else 0) + owned b id = (if t.givesFor id then 1 else 0) + owned b' id := by
  cases h with
  | @take _ a _ _ none _ _ =>
    by_cases own : id = a
    · simp [takesFor, givesFor, owned, own, none]
    · simp [takesFor, givesFor, owned, own, Ne.symm own]
  | @give _ a _ _ fits _ _ =>
    by_cases own : id = a
    · simp [takesFor, givesFor, owned, own, fits]
    · simp [takesFor, givesFor, owned, own, Ne.symm own]

/-- A block takes as often as it gives back, up to the range it still has. -/
theorem Run.balance {b b' : Book} {log : List Traffic} (h : Run b log b') (id : BlockId) :
    log.countP (takesFor id) + owned b id = log.countP (givesFor id) + owned b' id := by
  induction h with
  | nil => rfl
  | cons first _ ih =>
    have now := first.balance id
    rw [List.countP_cons, List.countP_cons]
    omega

end Traffic

/-! ## What the arena holds

Pinned code does not depend on the indices being in step, so no block that is inserted has to be fair. -/

/-- Blocks, code set aside and the arena belong together: identities to come are unused, no block is both
indexed and set aside, and nothing is set aside without a pin. -/
structure Holding (c : Cache) : Prop where
  fresh : ∀ {id : BlockId}, c.nextId ≤ id → c.blocks[id]? = none ∧ c.retired[id]? = none
  apart : ∀ {id : BlockId} {e : Entry}, c.blocks[id]? = some e → c.retired[id]? = none
  pinned : ∀ {id : BlockId} {r : Retired}, c.retired[id]? = some r → 0 < r.pins
  stock : Stocked c.arena c.blocks c.retired

theorem holding_ofLimits (l : Limits) : (ofLimits l).Holding := by
  refine ⟨?_, ?_, ?_, stocked_ofSize l.maxCodeBytes⟩
  all_goals simp [ofLimits]

section
variable {c : Cache} {id : BlockId}

theorem range?_of_held {e : Entry} (held : c.blocks[id]? = some e) : c.range? id = some (e.offset, e.size) := by
  unfold range?
  rw [held]

theorem range?_of_absent (absent : c.blocks[id]? = none) :
    c.range? id = c.retired[id]?.map (fun r => (r.offset, r.size)) := by
  unfold range?
  rw [absent]

theorem pinsOf_of_range?_eq_none (h : c.range? id = none) : c.pinsOf id = 0 := by
  unfold range? at h
  unfold pinsOf
  split at h
  · cases h
  · next absent =>
    rw [Option.map_eq_none_iff.1 h]
    rfl

theorem Holding.range?_eq_none (h : c.Holding) (absent : c.blocks[id]? = none) (unpinned : c.pinsOf id = 0) :
    c.range? id = none := by
  unfold pinsOf at unpinned
  rw [absent] at unpinned
  rw [range?_of_absent absent, Option.map_eq_none_iff]
  cases found : c.retired[id]? with
  | none => rfl
  | some r =>
    rw [found] at unpinned
    exact absurd unpinned (Nat.ne_of_gt (BitVec.lt_def.1 (h.pinned found)))

end

theorem le_total {β : Type} (f : β → Nat) {m : ExtTreeMap Nat β} {k : Nat} {v : β} (h : m[k]? = some v) :
    f v ≤ total f m := by
  rw [total_erase f h]
  exact Nat.le_add_right _ _

/-- Two entries have their shares in the sum. -/
theorem add_le_total {β : Type} (f : β → Nat) {m : ExtTreeMap Nat β} {k k' : Nat} {v v' : β}
    (h : m[k]? = some v) (h' : m[k']? = some v') (other : k' ≠ k) : f v + f v' ≤ total f m := by
  have kept : (m.erase k)[k']? = some v' := by rw [getElem?_erase, if_neg other, h']
  rw [total_erase f h]
  exact Nat.add_le_add_left (le_total f kept) _

theorem range?_cases {c : Cache} {id : BlockId} {offset size : Nat} (range : c.range? id = some (offset, size)) :
    (∃ e : Entry, c.blocks[id]? = some e ∧ e.offset = offset ∧ e.size = size) ∨
      ∃ r : Retired, c.retired[id]? = some r ∧ r.offset = offset ∧ r.size = size := by
  unfold range? at range
  split at range
  · next e held =>
    cases range
    exact .inl ⟨e, held, rfl, rfl⟩
  · obtain ⟨r, held, eq⟩ := Option.map_eq_some_iff.1 range
    cases eq
    exact .inr ⟨r, held, rfl, rfl⟩

namespace Holding

variable {c : Cache} {id id' : BlockId} {offset offset' size size' : Nat}

theorem hits_add_cover_le (h : c.Holding) (range : c.range? id = some (offset, size)) (x : Nat) :
    Arena.hits offset (Arena.footprint size) x + Arena.cover x c.arena.free ≤ 1 := by
  have once := h.stock.once x
  obtain ⟨e, held, rfl, rfl⟩ | ⟨r, held, rfl, rfl⟩ := range?_cases range
  · have own := le_total (Entry.hits x) held
    show e.hits x + _ ≤ 1
    omega
  · have own := le_total (Retired.hits x) held
    show r.hits x + _ ≤ 1
    omega

/-- The ranges of two blocks have no byte in common. -/
theorem hits_add_hits_le (h : c.Holding) (range : c.range? id = some (offset, size))
    (range' : c.range? id' = some (offset', size')) (other : id' ≠ id) (x : Nat) :
    Arena.hits offset (Arena.footprint size) x + Arena.hits offset' (Arena.footprint size') x ≤ 1 := by
  have once := h.stock.once x
  obtain ⟨e, held, rfl, rfl⟩ | ⟨r, held, rfl, rfl⟩ := range?_cases range <;>
    obtain ⟨e', held', rfl, rfl⟩ | ⟨r', held', rfl, rfl⟩ := range?_cases range'
  · have both := add_le_total (Entry.hits x) held held' other
    show e.hits x + e'.hits x ≤ 1
    omega
  · have own := le_total (Entry.hits x) held
    have own' := le_total (Retired.hits x) held'
    show e.hits x + r'.hits x ≤ 1
    omega
  · have own := le_total (Retired.hits x) held
    have own' := le_total (Entry.hits x) held'
    show r.hits x + e'.hits x ≤ 1
    omega
  · have both := add_le_total (Retired.hits x) held held' other
    show r.hits x + r'.hits x ≤ 1
    omega

theorem occupies_alloc (h : c.Holding) {code : List CodeByte} {start : Nat} {arena : Arena}
    (placed : c.arena.alloc? code = some (start, arena)) : Occupies c.arena arena start code.length := by
  obtain ⟨⟨start', ranges⟩, taken, eq⟩ := Option.map_eq_some_iff.1 placed
  cases eq
  exact ⟨rfl, (Arena.takeFirst_cover taken h.stock.filled).2⟩

/-- A range that the arena allots shares no byte with the range of a block. -/
theorem hits_add_alloc_le (h : c.Holding) (range : c.range? id = some (offset, size)) {code : List CodeByte}
    {start : Nat} {arena : Arena} (placed : c.arena.alloc? code = some (start, arena)) (x : Nat) :
    Arena.hits offset (Arena.footprint size) x + Arena.hits start (Arena.footprint code.length) x ≤ 1 := by
  have cover := (h.occupies_alloc placed).cover x
  have own := h.hits_add_cover_le range x
  omega

/-- The range of a block is free once it is given back. -/
theorem occupies_release (h : c.Holding) (range : c.range? id = some (offset, size)) :
    Occupies (c.arena.release offset size) c.arena offset size := by
  have counted : Arena.footprint size ≤ c.arena.used := by
    rw [h.stock.bytes]
    obtain ⟨e, held, rfl, rfl⟩ | ⟨r, held, rfl, rfl⟩ := range?_cases range
    · exact Nat.le_add_right_of_le (le_total Entry.share held)
    · exact Nat.le_add_left_of_le (le_total Retired.share held)
  have once (x : Nat) := h.hits_add_cover_le range x
  exact ⟨(Nat.sub_add_cancel counted).symm, (Arena.giveBack_cover (Arena.footprint_pos size) h.stock.filled once).2⟩

theorem alloc_read (h : c.Holding) (range : c.range? id = some (offset, size)) {code : List CodeByte}
    {start : Nat} {arena : Arena} (placed : c.arena.alloc? code = some (start, arena)) :
    arena.read offset size = c.arena.read offset size := by
  have apart := h.hits_add_alloc_le range placed
  obtain ⟨⟨start', free⟩, -, eq⟩ := Option.map_eq_some_iff.1 placed
  cases eq
  dsimp only at apart
  apply Arena.read_writeCells_of_apart c.arena
  rintro i hi inside
  have small := Arena.le_footprint size
  have small' := Arena.le_footprint code.length
  have own : Arena.hits offset (Arena.footprint size) (offset + i) = 1 := if_pos (by omega)
  have new : Arena.hits start' (Arena.footprint code.length) (offset + i) = 1 := if_pos (by omega)
  have := apart (offset + i)
  omega

end Holding

/-! ## Operations that bring in no block -/

/-- `c'` comes from `c` by giving back the ranges that `log` lists, and nothing else moves. -/
structure Gives (c : Cache) (log : List Traffic) (c' : Cache) : Prop where
  holding : c'.Holding
  run : Traffic.Run c.book log c'.book
  takes : ∀ id, log.countP (Traffic.takesFor id) = 0
  within : ∀ {id : BlockId} {p : Nat × Nat}, c'.range? id = some p → c.range? id = some p
  cells : c'.arena.cells = c.arena.cells
  nextId : c'.nextId = c.nextId

/-- `c'` comes from `c` by removing blocks: no pin goes. -/
structure Drops (c : Cache) (log : List Traffic) (c' : Cache) : Prop extends Gives c log c' where
  pins : ∀ id, c'.pinsOf id = c.pinsOf id

theorem Drops.refl {c : Cache} (h : c.Holding) : Drops c [] c :=
  ⟨⟨h, .nil, fun _ => rfl, id, rfl, rfl⟩, fun _ => rfl⟩

theorem Drops.trans {c c' c'' : Cache} {log log' : List Traffic} (h : Drops c log c') (h' : Drops c' log' c'') :
    Drops c (log ++ log') c'' where
  holding := h'.holding
  run := h.run.append h'.run
  takes id := by rw [List.countP_append, h.takes id, h'.takes id]
  within range := h.within (h'.within range)
  cells := h'.cells.trans h.cells
  nextId := h'.nextId.trans h.nextId
  pins id := (h'.pins id).trans (h.pins id)

theorem Drops.counts {c c' : Cache} {log : List Traffic} (h : Drops c log c') (counts : Counts) :
    Drops c log { c' with counts } :=
  ⟨⟨⟨h.holding.fresh, h.holding.apart, h.holding.pinned, h.holding.stock⟩, h.run, h.takes, h.within,
    h.cells, h.nextId⟩, h.pins⟩

theorem gives_nothing {c c' : Cache} (holding : c'.Holding) (arena : c'.arena = c.arena)
    (range : c'.range? = c.range?) (nextId : c'.nextId = c.nextId) : Gives c [] c' where
  holding := holding
  run := by
    unfold book
    rw [arena, range]
    exact .nil
  takes _ := rfl
  within found := by rwa [← range]
  cells := by rw [arena]
  nextId := nextId

theorem gives_one {c c' : Cache} {id : BlockId} {offset size : Nat} (h : c.Holding) (holding : c'.Holding)
    (own : c.range? id = some (offset, size)) (arena : c'.arena = c.arena.release offset size)
    (range : c'.range? = Function.update c.range? id none) (nextId : c'.nextId = c.nextId) :
    Gives c [.give id offset size] c' where
  holding := holding
  run := by
    unfold book
    rw [arena, range]
    exact .cons (.give own (h.occupies_release own) rfl) .nil
  takes _ := rfl
  within {a p} found := by
    rw [range] at found
    by_cases same : a = id
    · rw [same, Function.update_self] at found
      cases found
    · rwa [Function.update_of_ne same] at found
  cells := by
    rw [arena]
    rfl
  nextId := nextId

/-! ### Removing blocks -/

section
variable {c : Cache} {id : BlockId} {e : Entry}

theorem Holding.lt_nextId (h : c.Holding) (held : c.blocks[id]? = some e) : id < c.nextId := by
  rw [← Nat.not_le]
  intro late
  rw [(h.fresh late).1] at held
  cases held

theorem remove_nextId (c : Cache) (id : BlockId) : (c.remove id).nextId = c.nextId :=
  (c.remove_settles id).nextId

theorem getElem?_remove_blocks (c : Cache) (id a : BlockId) :
    (c.remove id).blocks[a]? = if a = id then none else c.blocks[a]? := by
  rw [remove_blocks, getElem?_erase]

/-- The code of a pinned block is set aside: the same range, under the same pins. -/
theorem remove_pinned_drops (h : c.Holding) (held : c.blocks[id]? = some e) (pinned : 0 < e.pins) :
    Drops c [] (c.remove id) := by
  obtain ⟨arena, retired⟩ : (c.remove id).arena = c.arena ∧ (c.remove id).retired =
      c.retired.insert id { offset := e.offset, size := e.size, pins := e.pins } := by
    unfold remove
    rw [held]
    dsimp only
    rw [if_pos pinned]
    exact ⟨rfl, rfl⟩
  have aside (a : BlockId) : (c.remove id).retired[a]? = if a = id then
      some { offset := e.offset, size := e.size, pins := e.pins } else c.retired[a]? := by
    rw [retired, getElem?_insert]
  have holding : (c.remove id).Holding := by
    refine ⟨fun {a} late => ?_, fun {a x} found => ?_, fun {a r} found => ?_, ?_⟩
    · rw [remove_nextId] at late
      have other : a ≠ id := Nat.ne_of_gt (Nat.lt_of_lt_of_le (h.lt_nextId held) late)
      rw [getElem?_remove_blocks, aside, if_neg other, if_neg other]
      exact h.fresh late
    · rw [getElem?_remove_blocks] at found
      split at found
      · cases found
      · next other =>
        rw [aside, if_neg other]
        exact h.apart found
    · rw [aside] at found
      split at found
      · cases found
        exact pinned
      · exact h.pinned found
    · rw [remove_blocks, arena, retired]
      exact h.stock.retire held (h.apart held)
  have range : (c.remove id).range? = c.range? := by
    funext a
    unfold range?
    rw [getElem?_remove_blocks, aside]
    by_cases own : a = id
    · simp [own, held]
    · simp [own]
  refine ⟨gives_nothing holding arena range (c.remove_nextId id), fun a => ?_⟩
  unfold pinsOf
  rw [getElem?_remove_blocks, aside]
  by_cases own : a = id
  · simp [own, held]
  · simp [own]

/-- The code of a block without pins is given back. -/
theorem remove_unpinned_drops (h : c.Holding) (held : c.blocks[id]? = some e) (unpinned : ¬0 < e.pins) :
    Drops c [.give id e.offset e.size] (c.remove id) := by
  have unretired := h.apart held
  obtain ⟨arena, retired⟩ : (c.remove id).arena = c.arena.release e.offset e.size ∧
      (c.remove id).retired = c.retired := by
    unfold remove
    rw [held]
    dsimp only
    rw [if_neg unpinned]
    exact ⟨rfl, rfl⟩
  have holding : (c.remove id).Holding := by
    refine ⟨fun {a} late => ?_, fun {a x} found => ?_, ?_, ?_⟩
    · rw [remove_nextId] at late
      rw [getElem?_remove_blocks, retired, (h.fresh late).1, ite_self]
      exact ⟨rfl, (h.fresh late).2⟩
    · rw [getElem?_remove_blocks] at found
      split at found
      · cases found
      · rw [retired]
        exact h.apart found
    · rw [retired]
      exact h.pinned
    · rw [remove_blocks, arena, retired]
      exact h.stock.release held
  have range : (c.remove id).range? = Function.update c.range? id none := by
    funext a
    unfold range?
    rw [getElem?_remove_blocks, retired]
    by_cases own : a = id
    · subst own
      simp [unretired]
    · simp [own]
  refine ⟨gives_one h holding (range?_of_held held) arena range (c.remove_nextId id), fun a => ?_⟩
  unfold pinsOf
  rw [getElem?_remove_blocks, retired]
  by_cases own : a = id
  · subst own
    simp [held, unretired, BitVec.le_zero_iff.1 (BitVec.not_lt.1 unpinned)]
  · simp [own]

end

theorem remove_drops {c : Cache} (h : c.Holding) (id : BlockId) : ∃ log, Drops c log (c.remove id) := by
  cases held : c.blocks[id]? with
  | none =>
    have same : c.remove id = c := by
      unfold remove
      rw [held]
    rw [same]
    exact ⟨[], .refl h⟩
  | some e =>
    by_cases pinned : 0 < e.pins
    · exact ⟨_, remove_pinned_drops h held pinned⟩
    · exact ⟨_, remove_unpinned_drops h held pinned⟩

theorem removeAll_drops {c : Cache} (h : c.Holding) (ids : List BlockId) :
    ∃ log, Drops c log (ids.foldl Cache.remove c) := by
  induction ids generalizing c with
  | nil => exact ⟨[], .refl h⟩
  | cons id ids ih =>
    obtain ⟨log, first⟩ := remove_drops h id
    obtain ⟨log', later⟩ := ih first.holding
    exact ⟨log ++ log', first.trans later⟩

theorem evictAll_drops {c : Cache} (h : c.Holding) (ids : List BlockId) :
    ∃ log, Drops c log (ids.foldl evict c) := by
  induction ids generalizing c with
  | nil => exact ⟨[], .refl h⟩
  | cons id ids ih =>
    obtain ⟨log, first⟩ := remove_drops h id
    have evicted := first.counts { (c.remove id).counts with evictions := (c.remove id).counts.evictions + 1 }
    obtain ⟨log', later⟩ := ih evicted.holding
    exact ⟨log ++ log', evicted.trans later⟩

/-! ### Pinning and giving pins back -/

theorem update_gives {c c' : Cache} (h : c.Holding) {id : BlockId} {e e' : Entry}
    (held : c.blocks[id]? = some e) (blocks : c'.blocks = c.blocks.insert id e')
    (offset : e'.offset = e.offset) (size : e'.size = e.size) (retired : c'.retired = c.retired)
    (arena : c'.arena = c.arena) (nextId : c'.nextId = c.nextId) :
    Gives c [] c' ∧ ∀ a, c'.pinsOf a = if a = id then e'.pins.toNat else c.pinsOf a := by
  have entries (a : BlockId) : c'.blocks[a]? = if a = id then some e' else c.blocks[a]? := by
    rw [blocks, getElem?_insert]
  have holding : c'.Holding := by
    refine ⟨fun {a} late => ?_, fun {a x} found => ?_, ?_, ?_⟩
    · rw [nextId] at late
      rw [entries, retired, if_neg (Nat.ne_of_gt (Nat.lt_of_lt_of_le (h.lt_nextId held) late))]
      exact h.fresh late
    · rw [entries] at found
      rw [retired]
      split at found
      · next same =>
        rw [same]
        exact h.apart held
      · exact h.apart found
    · rw [retired]
      exact h.pinned
    · rw [blocks, arena, retired]
      exact h.stock.update held offset size
  have range : c'.range? = c.range? := by
    funext a
    unfold range?
    rw [entries, retired]
    by_cases own : a = id
    · simp [own, held, offset, size]
    · simp [own]
  refine ⟨gives_nothing holding arena range nextId, fun a => ?_⟩
  unfold pinsOf
  rw [entries, retired]
  by_cases own : a = id
  · simp [own]
  · simp [own]

/-- Looking for a block moves no code. If it is found, its entry has a new time and, for a pin, one pin
more; otherwise no entry changes. -/
theorem find_cases (c : Cache) (pc : Word) (pin : Bool) :
    (c.find pc pin).2.retired = c.retired ∧ (c.find pc pin).2.arena = c.arena ∧
      (c.find pc pin).2.nextId = c.nextId ∧
      (((c.find pc pin).1 = none ∧ (c.find pc pin).2.blocks = c.blocks) ∨
        ∃ (id : BlockId) (e : Entry), c.blocks[id]? = some e ∧
          (c.find pc pin).1 = some { id, block := e.block } ∧
          (c.find pc pin).2.blocks = c.blocks.insert id
            { e with lastUse := c.tick + 1, pins := if pin then e.pins + 1 else e.pins }) := by
  unfold find
  split
  · exact ⟨rfl, rfl, rfl, .inl ⟨rfl, rfl⟩⟩
  · next id _ =>
    dsimp only
    split
    · exact ⟨rfl, rfl, rfl, .inl ⟨rfl, rfl⟩⟩
    · next e held => exact ⟨rfl, rfl, rfl, .inr ⟨id, e, held, rfl, rfl⟩⟩

theorem find_gives {c : Cache} (h : c.Holding) (pc : Word) (pin : Bool) :
    Gives c [] (c.find pc pin).2 ∧
      ∀ a, (c.find pc pin).2.pinsOf a =
        if (c.find pc pin).1.map Handle.id = some a ∧ pin then (c.pinsOf a + 1) % twoPow 32 else c.pinsOf a := by
  obtain ⟨retired, arena, nextId, ⟨missed, blocks⟩ | ⟨id, e, held, found, blocks⟩⟩ := c.find_cases pc pin
  · have range : (c.find pc pin).2.range? = c.range? := by
      unfold range?
      rw [blocks, retired]
    have holding : (c.find pc pin).2.Holding := by
      refine ⟨?_, ?_, ?_, ?_⟩
      · rw [nextId, blocks, retired]
        exact h.fresh
      · rw [blocks, retired]
        exact h.apart
      · rw [retired]
        exact h.pinned
      · rw [blocks, arena, retired]
        exact h.stock
    refine ⟨gives_nothing holding arena range nextId, fun a => ?_⟩
    rw [missed, if_neg (by simp)]
    unfold pinsOf
    rw [blocks, retired]
  · obtain ⟨gives, pins⟩ := update_gives h held blocks rfl rfl retired arena nextId
    have now : c.pinsOf id = e.pins.toNat := by
      unfold pinsOf
      rw [held]
    refine ⟨gives, fun a => ?_⟩
    rw [pins, found]
    by_cases own : a = id
    · cases pin <;> simp [own, now]
    · simp [own, Ne.symm own]

section
variable {c : Cache} {id : BlockId} {r : Retired}

theorem giveAside_gives (h : c.Holding) (absent : c.blocks[id]? = none) (found : c.retired[id]? = some r) :
    Gives c [.give id r.offset r.size]
      { c with retired := c.retired.erase id, arena := c.arena.release r.offset r.size } := by
  refine gives_one h ⟨fun {a} late => ?_, fun {a x} held => ?_, fun {a x} aside => ?_, h.stock.unretire found⟩ ?_
    rfl ?_ rfl
  · refine ⟨(h.fresh late).1, ?_⟩
    dsimp only
    rw [getElem?_erase, (h.fresh late).2, ite_self]
  · dsimp only
    rw [getElem?_erase, h.apart held, ite_self]
  · dsimp only at aside
    rw [getElem?_erase] at aside
    split at aside
    · cases aside
    · exact h.pinned aside
  · rw [range?_of_absent absent, found]
    rfl
  · funext a
    unfold range?
    dsimp only
    rw [getElem?_erase]
    by_cases own : a = id
    · subst own
      simp [absent]
    · simp [own]

/-- Code that was set aside stays there, under other pins. -/
theorem repinAside_gives (h : c.Holding) (absent : c.blocks[id]? = none) (found : c.retired[id]? = some r)
    {pins : Word} (pinned : 0 < pins) :
    Gives c [] { c with retired := c.retired.insert id { r with pins } } := by
  have entries (a : BlockId) (nowhere : c.retired[a]? = none) :
      (c.retired.insert id { r with pins })[a]? = none := by
    rw [getElem?_insert, if_neg, nowhere]
    rintro rfl
    rw [nowhere] at found
    cases found
  refine gives_nothing ⟨fun {a} late => ⟨(h.fresh late).1, entries a (h.fresh late).2⟩,
    fun {a x} held => entries a (h.apart held), fun {a x} aside => ?_, h.stock.repin found pins⟩ rfl ?_ rfl
  · dsimp only at aside
    rw [getElem?_insert] at aside
    split at aside
    · cases aside
      exact pinned
    · exact h.pinned aside
  · funext a
    unfold range?
    dsimp only
    rw [getElem?_insert]
    by_cases own : a = id
    · subst own
      simp [absent, found]
    · simp [own]

end

/-- A pin is taken back; with the last pin on code that was set aside, its range goes back too. -/
theorem unpin_gives {c : Cache} (h : c.Holding) (id : BlockId) :
    (∃ log, Gives c log (c.unpin id)) ∧
      ∀ a, (c.unpin id).pinsOf a = if a = id then c.pinsOf id - 1 else c.pinsOf a := by
  unfold unpin
  split
  · next e held =>
    let c' : Cache := { c with blocks := c.blocks.insert id { e with pins := fewer e.pins } }
    have blocks : c'.blocks = c.blocks.insert id { e with pins := fewer e.pins } := rfl
    obtain ⟨gives, pins⟩ := update_gives h held blocks rfl rfl rfl rfl rfl
    have now : c.pinsOf id = e.pins.toNat := by
      unfold pinsOf
      rw [held]
    refine ⟨⟨[], gives⟩, fun a => ?_⟩
    rw [pins, now, fewer_toNat]
  · next absent =>
    split
    · next nowhere =>
      have unpinned : c.pinsOf id = 0 :=
        pinsOf_of_range?_eq_none (by rw [range?_of_absent absent, nowhere]; rfl)
      refine ⟨⟨[], (Drops.refl h).toGives⟩, fun a => ?_⟩
      split
      · next same => rw [same, unpinned]
      · rfl
    · next r found =>
      split
      · next last =>
        refine ⟨⟨_, giveAside_gives h absent found⟩, fun a => ?_⟩
        unfold pinsOf
        dsimp only
        rw [getElem?_erase]
        by_cases own : a = id
        · subst own
          simp [absent, found, ← fewer_toNat, last]
        · simp [own]
      · next more =>
        refine ⟨⟨[], repinAside_gives h absent found ((BitVec.pos_iff_ne_zero _).2 more)⟩, fun a => ?_⟩
        unfold pinsOf
        dsimp only
        rw [getElem?_insert]
        by_cases own : a = id
        · subst own
          simp [absent, found, fewer_toNat]
        · simp [own]

/-! ## Insertions -/

/-- Entering a block takes the range in which its code was placed, for an identity that is new. -/
theorem enter_takes {c : Cache} (h : c.Holding) (b : Block) (t : Translation) {offset : Nat} {arena : Arena}
    (placed : c.arena.alloc? t.code = some (offset, arena)) :
    ({ c with arena }.enter b t offset).2.Holding ∧
      ({ c with arena }.enter b t offset).2.range? =
        Function.update c.range? c.nextId (some (offset, t.code.length)) ∧
      ∀ a, ({ c with arena }.enter b t offset).2.pinsOf a = c.pinsOf a := by
  obtain ⟨new, unretired⟩ := h.fresh (Nat.le_refl c.nextId)
  have entries (a : BlockId) : ({ c with arena }.enter b t offset).2.blocks[a]? =
      if a = c.nextId then some (c.newEntry b t offset) else c.blocks[a]? := getElem?_insert ..
  have retired : ({ c with arena }.enter b t offset).2.retired = c.retired := rfl
  refine ⟨⟨fun {a} late => ?_, fun {a x} found => ?_, h.pinned, h.stock.alloc placed rfl rfl new⟩, ?_, fun a => ?_⟩
  · have old : c.nextId + 1 ≤ a := late
    rw [entries, retired, if_neg (Nat.ne_of_gt old)]
    exact h.fresh (Nat.le_of_succ_le old)
  · rw [entries] at found
    rw [retired]
    split at found
    · next same =>
      rw [same]
      exact unretired
    · exact h.apart found
  · funext a
    unfold range?
    rw [entries, retired]
    by_cases own : a = c.nextId
    · simp [own, newEntry]
    · simp [own]
  · unfold pinsOf
    rw [entries, retired]
    by_cases own : a = c.nextId
    · simp [own, newEntry, new, unretired]
    · simp [own]

theorem run_take {c : Cache} (h : c.Holding) {code : List CodeByte} {offset : Nat} {arena : Arena}
    (placed : c.arena.alloc? code = some (offset, arena)) :
    Traffic.Run c.book [.take c.nextId offset code]
      ⟨arena, Function.update c.range? c.nextId (some (offset, code.length))⟩ := by
  obtain ⟨absent, nowhere⟩ := h.fresh (Nat.le_refl c.nextId)
  have free : c.range? c.nextId = none := by
    rw [range?_of_absent absent, nowhere]
    rfl
  exact .cons (.take free (h.occupies_alloc placed) (h.stock.alloc_read placed).1) .nil

theorem insertChecked_snd (c : Cache) (b : Block) (t : Translation) :
    (c.insertChecked b t).2 = (c.insertNew b t).2 := by
  unfold insertChecked
  generalize c.insertNew b t = r
  obtain ⟨e | handle, c'⟩ := r
  · rfl
  · dsimp only
    cases c'.check <;> rfl

/-- An insertion removes some blocks; then it ends there, or enters the block where its code was placed. -/
theorem insert_cases {c : Cache} (h : c.Holding) (b : Block) (t : Translation) (mem : Memory) :
    ∃ log c', Drops c log c' ∧ ((c.insert b t mem).2 = c' ∨
      ∃ offset arena, c'.arena.alloc? t.code = some (offset, arena) ∧
        (c.insert b t mem).2 = ({ c' with arena }.enter b t offset).2) := by
  have newly {c : Cache} (h : c.Holding) : ∃ log c', Drops c log c' ∧ ((c.insertNew b t).2 = c' ∨
      ∃ offset arena, c'.arena.alloc? t.code = some (offset, arena) ∧
        (c.insertNew b t).2 = ({ c' with arena }.enter b t offset).2) := by
    rw [insertNew_eq]
    split
    · exact ⟨[], c, .refl h, .inl rfl⟩
    · obtain ⟨victims, c', evicted, result⟩ := c.placeEvicting_cases t.code c.evictable
      obtain ⟨log, drops⟩ := evictAll_drops h victims
      rw [evicted] at drops
      obtain full | ⟨offset, arena, placed, -, taken⟩ := result
      · rw [full]
        exact ⟨log, c', drops, .inl rfl⟩
      · rw [placed]
        exact ⟨log, c', drops, .inr ⟨offset, arena, taken, rfl⟩⟩
  unfold insert
  split
  · exact ⟨[], c, .refl h, .inl rfl⟩
  · have finish {c' : Cache} {log : List Traffic} (first : Drops c log c') :
        ∃ log c'', Drops c log c'' ∧ ((c'.insertChecked b t).2 = c'' ∨
          ∃ offset arena, c''.arena.alloc? t.code = some (offset, arena) ∧
            (c'.insertChecked b t).2 = ({ c'' with arena }.enter b t offset).2) := by
      obtain ⟨log', c'', later, result⟩ := newly first.holding
      rw [insertChecked_snd]
      exact ⟨log ++ log', c'', first.trans later, result⟩
    -- A block at the same address goes first.
    cases c.byAddr[b.start.toNat]? with
    | none => exact finish (.refl h)
    | some old =>
      obtain ⟨log, first⟩ := remove_drops h old
      exact finish first

end EmotionEngine.Cache
