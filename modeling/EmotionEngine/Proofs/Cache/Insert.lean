import EmotionEngine.Proofs.Cache.Operations

/-!
Inserting blocks. An insertion finds the block outdated, or finds no room, or brings in the block with its
code; other blocks may go, but those that stay keep their code.

Main statement: `insert_spec`.
-/

namespace EmotionEngine.Cache

theorem evict_keeps {c : Cache} (h : c.Consistent) (id : BlockId) : Keeps c (c.evict id) :=
  (remove_keeps h id).trans (keeps_counts (h.remove id) _)

/-! ## Making room

The bounds hold on while blocks are evicted for a free range, so the two loops are one: blocks go until the code
is within the bounds and has a range. -/

/-- Place code in the arena if it is within the bounds and some free range is long enough. -/
def place? (c : Cache) (code : List Host.CodeByte) : Option (Nat × Cache) :=
  if c.hasRoom (Arena.footprint code.length) then
    (c.arena.alloc? code).map (fun p => (p.1, { c with arena := p.2 }))
  else none

/-- Place code, evicting blocks of a list until it fits. -/
def placeEvicting (c : Cache) (code : List Host.CodeByte) : List BlockId → Option Nat × Cache
  | [] =>
    match c.place? code with
    | some (offset, c) => (some offset, c)
    | none => (none, c)
  | id :: rest =>
    match c.place? code with
    | some (offset, c) => (some offset, c)
    | none => (c.evict id).placeEvicting code rest

theorem hasRoom_evict {c : Cache} {need : Nat} (room : c.hasRoom need = true) (id : BlockId) :
    (c.evict id).hasRoom need = true := by
  unfold hasRoom at room ⊢
  rw [Bool.and_eq_true, decide_eq_true_eq, decide_eq_true_eq] at room ⊢
  obtain ⟨few, small⟩ := room
  unfold evict remove
  cases c.blocks[id]? with
  | none => exact ⟨few, small⟩
  | some e =>
    have fewer : (c.blocks.erase id).size < c.maxBlocks := Nat.lt_of_le_of_lt Std.ExtTreeMap.size_erase_le few
    dsimp only
    split
    · exact ⟨fewer, small⟩
    · exact ⟨fewer, Nat.le_trans (Nat.add_le_add_right (Nat.sub_le _ _) need) small⟩

theorem placeEvicting_of_room {c : Cache} {code : List Host.CodeByte} (ids : List BlockId)
    (room : c.hasRoom (Arena.footprint code.length) = true) : c.placeEvicting code ids = c.place code ids := by
  induction ids generalizing c with
  | nil =>
    unfold placeEvicting place place?
    rw [if_pos room]
    cases c.arena.alloc? code <;> rfl
  | cons id rest ih =>
    unfold placeEvicting place place?
    rw [if_pos room]
    cases c.arena.alloc? code with
    | none => exact ih (hasRoom_evict room id)
    | some p => rfl

theorem placeEvicting_eq (c : Cache) (code : List Host.CodeByte) (ids : List BlockId) :
    c.placeEvicting code ids =
      match c.makeRoom (Arena.footprint code.length) ids with
      | (none, c) => (none, c)
      | (some rest, c) => c.place code rest := by
  induction ids generalizing c with
  | nil =>
    by_cases room : c.hasRoom (Arena.footprint code.length) = true
    · rw [placeEvicting_of_room [] room, makeRoom, if_pos room]
    · unfold placeEvicting place? makeRoom
      rw [if_neg room, if_neg room]
  | cons id rest ih =>
    by_cases room : c.hasRoom (Arena.footprint code.length) = true
    · rw [placeEvicting_of_room (id :: rest) room, makeRoom, if_pos room]
    · unfold placeEvicting place? makeRoom
      rw [if_neg room, if_neg room]
      exact ih (c.evict id)

theorem insertNew_eq (c : Cache) (b : Block) (t : Translation) :
    c.insertNew b t =
      if c.maxCodeBytes < Arena.footprint t.code.length then
        (.error (.capacityExceeded (Arena.footprint t.code.length) 0), c)
      else
        match c.placeEvicting t.code c.evictable with
        | (none, c) => (.error (.capacityExceeded (Arena.footprint t.code.length) c.pinned), c)
        | (some offset, c) => (.ok (c.enter b t offset).1, (c.enter b t offset).2) := by
  unfold insertNew
  dsimp only
  rw [placeEvicting_eq]
  split
  · rfl
  · obtain ⟨rest | rest, c'⟩ := c.makeRoom (Arena.footprint t.code.length) c.evictable
    · rfl
    · rcases placed : c'.place t.code rest with ⟨_ | offset, c''⟩ <;> simp only [placed]

theorem place?_cases (c : Cache) (code : List Host.CodeByte) :
    c.place? code = none ∨ ∃ offset arena, c.place? code = some (offset, { c with arena }) ∧
      c.hasRoom (Arena.footprint code.length) = true ∧ c.arena.alloc? code = some (offset, arena) := by
  unfold place?
  split
  · next room =>
    cases placed : c.arena.alloc? code with
    | none => exact .inl rfl
    | some p => exact .inr ⟨p.1, p.2, rfl, room, rfl⟩
  · exact .inl rfl

/-- Some blocks are evicted; then the code is placed where there is room for it, or there is none. -/
theorem placeEvicting_cases (c : Cache) (code : List Host.CodeByte) (ids : List BlockId) :
    ∃ (victims : List BlockId) (c' : Cache), victims.foldl evict c = c' ∧
      (c.placeEvicting code ids = (none, c') ∨
        ∃ offset arena, c.placeEvicting code ids = (some offset, { c' with arena }) ∧
          c'.hasRoom (Arena.footprint code.length) = true ∧ c'.arena.alloc? code = some (offset, arena)) := by
  induction ids generalizing c with
  | nil =>
    refine ⟨[], c, rfl, ?_⟩
    unfold placeEvicting
    obtain absent | ⟨offset, arena, placed, taken⟩ := c.place?_cases code
    · rw [absent]
      exact .inl rfl
    · rw [placed]
      exact .inr ⟨offset, arena, rfl, taken⟩
  | cons id ids ih =>
    unfold placeEvicting
    obtain absent | ⟨offset, arena, placed, taken⟩ := c.place?_cases code
    · rw [absent]
      obtain ⟨victims, c', evicted, result⟩ := ih (c.evict id)
      exact ⟨id :: victims, c', evicted, result⟩
    · rw [placed]
      exact ⟨[], c, rfl, .inr ⟨offset, arena, rfl, taken⟩⟩

theorem evictAll_keeps {c : Cache} (h : c.Consistent) (victims : List BlockId) :
    Keeps c (victims.foldl evict c) := by
  induction victims generalizing c with
  | nil => exact .refl h
  | cons id victims ih =>
    have evicted := evict_keeps h id
    exact evicted.trans (ih evicted.consistent)

/-- Room for code is found, if at all, in the arena of a cache that holds no more than `c`. -/
theorem placeEvicting_spec {c : Cache} (h : c.Consistent) (code : List Host.CodeByte) (ids : List BlockId) :
    (∃ c', c.placeEvicting code ids = (none, c') ∧ Keeps c c') ∨
      ∃ offset c' arena, c.placeEvicting code ids = (some offset, { c' with arena }) ∧ Keeps c c' ∧
        c'.arena.alloc? code = some (offset, arena) := by
  obtain ⟨victims, c', evicted, result⟩ := c.placeEvicting_cases code ids
  have keeps := evictAll_keeps h victims
  rw [evicted] at keeps
  obtain full | ⟨offset, arena, placed, -, taken⟩ := result
  · exact .inl ⟨c', full, keeps⟩
  · exact .inr ⟨offset, c', arena, placed, keeps, taken⟩

/-- A cache gained a block and its code, under a new identity. -/
structure Gains (c c' : Cache) (b : Block) (code : List Host.CodeByte) (id : BlockId) : Prop where
  consistent : c'.Consistent
  new : ∃ e : Entry, c'.blocks[id]? = some e ∧ e.block = b ∧ c'.arena.read e.offset e.size = code
  within : ∀ {a : BlockId} {e' : Entry}, c'.blocks[a]? = some e' → a ≠ id →
    ∃ e : Entry, c.blocks[a]? = some e ∧ e.Same e' ∧
      c'.arena.read e.offset e.size = c.arena.read e.offset e.size

theorem Gains.cases {c c' : Cache} {b : Block} {code : List Host.CodeByte} {id : BlockId}
    (gains : Gains c c' b code id) {a : BlockId} {e' : Entry} (held : c'.blocks[a]? = some e') :
    (e'.block = b ∧ c'.arena.read e'.offset e'.size = code) ∨ ∃ e : Entry, c.blocks[a]? = some e ∧
      e.Same e' ∧ c'.arena.read e.offset e.size = c.arena.read e.offset e.size := by
  by_cases own : a = id
  · obtain ⟨e, held', new⟩ := gains.new
    rw [own, held'] at held
    cases held
    exact .inl new
  · exact .inr (gains.within held own)

def newEntry (c : Cache) (b : Block) (t : Translation) (offset : Nat) : Entry :=
  { block := b, offset, size := t.code.length, spills := t.spills, clobbers := t.clobbers,
    lastUse := c.tick + 1, pins := 0 }

theorem Consistent.enter {c : Cache} (h : c.Consistent) {b : Block} (distinct : b.pageNumbers.Nodup)
    (free : c.byAddr[b.start.toNat]? = none) (t : Translation) (offset : Nat) {arena : Arena}
    (placed : c.arena.alloc? t.code = some (offset, arena)) :
    ({ c with arena }.enter b t offset).2.Consistent := by
  obtain ⟨new, unretired⟩ := h.fresh (Nat.le_refl c.nextId)
  have listed (p : Nat) := h.listed (e := c.newEntry b t offset) new (getD_list c.nextId distinct c.byPage p)
  unfold Cache.enter
  dsimp only
  constructor
  case addr => exact index_insert (fun x => x.block.start.toNat) (c.newEntry b t offset) h.addr new free
  case page => exact fun p => (listed p).2
  case once => exact fun p => (listed p).1
  case use =>
    have free' : c.byUse[c.tick + 1]? = none := by
      rw [Option.eq_none_iff_forall_ne_some]
      intro a found
      obtain ⟨x, held, use⟩ := (h.use _ a).1 found
      have := h.past held
      omega
    exact index_insert Entry.lastUse (c.newEntry b t offset) h.use new free'
  case past =>
    refine forall_update (P := fun _ x => x.lastUse ≤ c.tick + 1) (Nat.le_refl _) ?_
    intro a x held
    exact Nat.le_succ_of_le (h.past held)
  case fresh =>
    intro a late
    dsimp only at late ⊢
    obtain ⟨absent, retired⟩ := h.fresh (Nat.le_of_succ_le late)
    refine ⟨?_, retired⟩
    rw [getElem?_insert, if_neg (by omega), absent]
  case apart => exact forall_update (P := fun a _ => c.retired[a]? = none) unretired h.apart
  case distinct => exact forall_update (P := fun _ x => x.block.pageNumbers.Nodup) distinct h.distinct
  case stock => exact h.stock.alloc placed rfl rfl new

theorem enter_gains {c : Cache} (h : c.Consistent) {b : Block} (distinct : b.pageNumbers.Nodup)
    (free : c.byAddr[b.start.toNat]? = none) (t : Translation) (offset : Nat) {arena : Arena}
    (placed : c.arena.alloc? t.code = some (offset, arena)) :
    Gains c ({ c with arena }.enter b t offset).2 b t.code c.nextId := by
  obtain ⟨written, kept⟩ := h.stock.alloc_read placed
  refine ⟨h.enter distinct free t offset placed, ?_, ?_⟩
  · refine ⟨c.newEntry b t offset, ?_, rfl, written⟩
    unfold enter
    dsimp only
    rw [getElem?_insert, if_pos rfl]
    rfl
  · intro a e' held other
    unfold enter at held
    dsimp only at held
    rw [getElem?_insert, if_neg other] at held
    exact ⟨e', held, .rfl, kept held⟩

theorem Keeps.read {c c' : Cache} (keeps : Keeps c c') (start len : Nat) :
    c'.arena.read start len = c.arena.read start len := by
  unfold Arena.read
  rw [keeps.cells]

theorem Gains.after {c c' c'' : Cache} {b : Block} {code : List Host.CodeByte} {id : BlockId}
    (keeps : Keeps c c') (gains : Gains c' c'' b code id) : Gains c c'' b code id := by
  refine ⟨gains.consistent, gains.new, ?_⟩
  intro a e'' held other
  obtain ⟨e', held', same', read'⟩ := gains.within held other
  obtain ⟨e, held'', same⟩ := keeps.within held'
  refine ⟨e, held'', same.trans same', ?_⟩
  rw [same.offset, same.size, read', keeps.read]

/-- What a block came into, it is still in, if it is still held. -/
theorem Gains.before {c c' c'' : Cache} {b : Block} {code : List Host.CodeByte} {id : BlockId}
    (gains : Gains c c' b code id) (keeps : Keeps c' c'') {e : Entry} (held : c''.blocks[id]? = some e) :
    Gains c c'' b code id := by
  refine ⟨keeps.consistent, ?_, ?_⟩
  · obtain ⟨e', held', same⟩ := keeps.within held
    obtain ⟨new, there, block, read⟩ := gains.new
    obtain rfl := Option.some.inj (held'.symm.trans there)
    exact ⟨e, held, same.block.symm.trans block, by rw [keeps.read, ← same.offset, ← same.size, read]⟩
  · intro a e'' held'' other
    obtain ⟨e', held', same'⟩ := keeps.within held''
    obtain ⟨e, held, same, read⟩ := gains.within held' other
    exact ⟨e, held, same.trans same', by rw [keeps.read, read]⟩

/-- An address stays free as long as no block comes in. -/
theorem Keeps.free {c c' : Cache} (keeps : Keeps c c') (h : c.Consistent) {pc : Nat}
    (free : c.byAddr[pc]? = none) : c'.byAddr[pc]? = none := by
  rw [Option.eq_none_iff_forall_ne_some]
  intro a found
  obtain ⟨e', held, start⟩ := keeps.consistent.held found
  obtain ⟨e, held', same⟩ := keeps.within held
  have := (h.addr pc a).2 ⟨e, held', by rw [same.block, start]⟩
  rw [free] at this
  cases this

theorem insertNew_spec {c : Cache} (h : c.Consistent) {b : Block} (distinct : b.pageNumbers.Nodup)
    (free : c.byAddr[b.start.toNat]? = none) (t : Translation) :
    (∃ need pinned c', c.insertNew b t = (.error (.capacityExceeded need pinned), c') ∧ Keeps c c') ∨
      ∃ id c', c.insertNew b t = (.ok { id, block := b }, c') ∧ Gains c c' b t.code id := by
  rw [insertNew_eq]
  split
  · exact .inl ⟨_, _, c, rfl, .refl h⟩
  · obtain ⟨c', placed, keeps⟩ | ⟨offset, c', arena, placed, keeps, taken⟩ :=
      placeEvicting_spec h t.code c.evictable
    · rw [placed]
      exact .inl ⟨_, _, c', rfl, keeps⟩
    · rw [placed]
      have gains := enter_gains keeps.consistent distinct (keeps.free h free) t offset taken
      exact .inr ⟨c'.nextId, _, rfl, gains.after keeps⟩

theorem remove_free {c : Cache} (h : c.Consistent) {pc : Nat} {id : BlockId}
    (found : c.byAddr[pc]? = some id) : (c.remove id).byAddr[pc]? = none := by
  rw [Option.eq_none_iff_forall_ne_some]
  intro a found'
  obtain ⟨e, held, start⟩ := (h.remove id).held found'
  rw [remove_blocks, getElem?_erase] at held
  split at held
  · cases held
  · next other =>
    have := (h.addr _ a).2 ⟨e, held, start⟩
    rw [found] at this
    exact other (Option.some.inj this).symm

/-- How an insertion ends. -/
inductive Insertion (c : Cache) (b : Block) (code : List Host.CodeByte) (mem : Memory) :
    Except CacheError Handle × Cache → Prop where
  | stale (page : Nat) (h : stalePage? b mem = some page) :
    Insertion c b code mem (.error (.staleBlock b.start page), c)
  | full (need pinned : Nat) (c' : Cache) (h : stalePage? b mem = none) (keeps : Keeps c c') :
    Insertion c b code mem (.error (.capacityExceeded need pinned), c')
  | done (id : BlockId) (c' : Cache) (h : stalePage? b mem = none) (gains : Gains c c' b code id) :
    Insertion c b code mem (.ok { id, block := b }, c')

/-- The last part of an insertion: the new block goes in, and the cache is checked. -/
def insertChecked (c : Cache) (b : Block) (t : Translation) : Except CacheError Handle × Cache :=
  match c.insertNew b t with
  | (.error e, c) => (.error e, c)
  | (.ok h, c) =>
    match c.check with
    | .ok () => (.ok h, c)
    | .error e => (.error e, c)

theorem insert_spec {c : Cache} (h : c.Consistent) {b : Block} (distinct : b.pageNumbers.Nodup)
    (t : Translation) (mem : Memory) : Insertion c b t.code mem (c.insert b t mem) := by
  unfold insert
  split
  · next page stale => exact .stale page stale
  · next current =>
    have finish {c' : Cache} (keeps : Keeps c c') (free : c'.byAddr[b.start.toNat]? = none) :
        Insertion c b t.code mem (c'.insertChecked b t) := by
      unfold insertChecked
      obtain ⟨need, pinned, c'', eq, keeps'⟩ | ⟨id, c'', eq, gains⟩ :=
        insertNew_spec keeps.consistent distinct free t
      · rw [eq]
        exact .full need pinned c'' current (keeps.trans keeps')
      · rw [eq]
        dsimp only
        rw [gains.consistent.check_ok]
        exact .done id c'' current (gains.after keeps)
    -- A block at the same address goes first.
    cases found : c.byAddr[b.start.toNat]? with
    | none => exact finish (.refl h) found
    | some old => exact finish (remove_keeps h old) (remove_free h found)

end EmotionEngine.Cache
