import EmotionEngine.Proofs.Cache.Partition
import EmotionEngine.Proofs.Cache.Pins
import Mathlib.Data.List.Dedup
import Mathlib.Data.List.Sort

/-!
Making room. An insertion evicts the blocks used longest ago, and no more of them than it needs.

1. A cache evicts in the order of the times of last use (`sorted_evictable`), and that order is fixed: once
   a block is gone, the others give way as they would have (`evictable_evictAll`).
2. A session can be read as a list of uses: each lookup, pin or insertion of a block (`usage`). The times of
   last use follow the last places in that list (`Timed`), so the order of eviction is the list of uses with
   only the last use of each block kept, and of these the blocks that are held and not pinned.
3. Blocks go from the front of that order until there is `Room`, which is asked before each of them.

Main statement: `insert_evicts_oldest`.
-/

namespace EmotionEngine.Cache

open Std (ExtTreeMap)
open Host (CodeByte)

/-! ## The order of eviction -/

/-- A block is held and not pinned. -/
def unpinned (c : Cache) (id : BlockId) : Bool :=
  match c.blocks[id]? with
  | some e => e.pins = 0
  | none => false

/-- When a block that is held was last used. -/
def lastUsed (c : Cache) (id : BlockId) : Nat :=
  match c.blocks[id]? with
  | some e => e.lastUse
  | none => 0

def evictAll (c : Cache) (ids : List BlockId) : Cache := ids.foldl evict c

/-- Each block of a list was last used before the next. -/
def Sorted (c : Cache) (ids : List BlockId) : Prop := ids.Pairwise (fun a b => c.lastUsed a < c.lastUsed b)

theorem unpinned_iff {c : Cache} {id : BlockId} :
    c.unpinned id = true ↔ ∃ e : Entry, c.blocks[id]? = some e ∧ e.pins = 0 := by
  unfold unpinned
  cases c.blocks[id]? with
  | none => simp
  | some e => simp

theorem lastUsed_of_held {c : Cache} {id : BlockId} {e : Entry} (held : c.blocks[id]? = some e) :
    c.lastUsed id = e.lastUse := by
  unfold lastUsed
  rw [held]

theorem mem_evictable {c : Cache} (h : c.Consistent) {id : BlockId} : id ∈ c.evictable ↔ c.unpinned id = true := by
  show id ∈ (c.byUse.toList.map Prod.snd).filter c.unpinned ↔ _
  rw [List.mem_filter, and_iff_right_iff_imp]
  intro free
  obtain ⟨e, held, -⟩ := unpinned_iff.1 free
  exact List.mem_map.2 ⟨(e.lastUse, id), mem_toList.2 ((h.use _ id).2 ⟨e, held, rfl⟩), rfl⟩

theorem sorted_evictable {c : Cache} (h : c.Consistent) : c.Sorted c.evictable := by
  have timed (p : Nat × BlockId) (mem : p ∈ c.byUse.toList) : c.lastUsed p.2 = p.1 := by
    obtain ⟨e, held, last⟩ := (h.use p.1 p.2).1 (mem_toList.1 mem)
    rw [lastUsed_of_held held, last]
  apply List.Pairwise.filter
  rw [List.pairwise_map]
  refine List.Pairwise.imp_of_mem ?_ (ExtTreeMap.ordered_keys_toList (t := c.byUse))
  intro p q memP memQ before
  rw [timed p memP, timed q memQ]
  exact Nat.compare_eq_lt.1 before

/-- The order is the only one: the blocks that may give way, sorted by their last use. -/
theorem evictable_eq {c : Cache} (h : c.Consistent) {ids : List BlockId} (sorted : c.Sorted ids)
    (mem : ∀ id, id ∈ ids ↔ c.unpinned id = true) : c.evictable = ids := by
  let before (a b : BlockId) : Prop := c.lastUsed a < c.lastUsed b
  have : Std.Irrefl before := ⟨fun _ => Nat.lt_irrefl _⟩
  have : Std.Antisymm before := ⟨fun _ _ first then' => absurd then' (Nat.lt_asymm first)⟩
  exact List.Pairwise.eq_of_mem_iff (r := before) (sorted_evictable h) sorted
    (fun id => (mem_evictable h).trans (mem id).symm)

theorem evict_blocks (c : Cache) (id : BlockId) : (c.evict id).blocks = c.blocks.erase id := c.remove_blocks id

theorem unpinned_evict (c : Cache) (id a : BlockId) :
    (c.evict id).unpinned a = true ↔ a ≠ id ∧ c.unpinned a = true := by
  rw [unpinned_iff, unpinned_iff, evict_blocks, exists_erase]

theorem lastUsed_evict (c : Cache) {id a : BlockId} (other : a ≠ id) : (c.evict id).lastUsed a = c.lastUsed a := by
  unfold lastUsed
  rw [evict_blocks, getElem?_erase, if_neg other]

/-- Evicting the first blocks leaves the others in their order. -/
theorem evictable_evictAll {c : Cache} (h : c.Consistent) {first rest : List BlockId}
    (split : c.evictable = first ++ rest) : (c.evictAll first).evictable = rest := by
  induction first generalizing c with
  | nil => exact split
  | cons id first ih =>
    apply ih (evict_keeps h id).consistent
    have sorted := sorted_evictable h
    rw [split] at sorted
    obtain ⟨earlier, sorted⟩ := List.pairwise_cons.1 sorted
    have other {a : BlockId} (mem : a ∈ first ++ rest) : a ≠ id := by
      rintro rfl
      exact Nat.lt_irrefl _ (earlier a mem)
    apply evictable_eq (evict_keeps h id).consistent
    · refine List.Pairwise.imp_of_mem ?_ sorted
      intro a b memA memB before
      rwa [lastUsed_evict c (other memA), lastUsed_evict c (other memB)]
    · intro a
      rw [unpinned_evict, ← mem_evictable h, split, List.cons_append, List.mem_cons]
      constructor
      · exact fun mem => ⟨other mem, .inr mem⟩
      · rintro ⟨ne, same | mem⟩
        · exact absurd same ne
        · exact mem

/-! ## What evictions leave -/

theorem evictAll_blocks (ids : List BlockId) (c : Cache) (a : BlockId) :
    (c.evictAll ids).blocks[a]? = if a ∈ ids then none else c.blocks[a]? := by
  induction ids generalizing c with
  | nil => rfl
  | cons id ids ih =>
    show ((c.evict id).evictAll ids).blocks[a]? = _
    rw [ih, evict_blocks, getElem?_erase]
    by_cases same : a = id
    · simp [same]
    · simp [same]

/-- A block that is removed without a pin on it is not set aside. -/
theorem remove_retired {c : Cache} {id : BlockId} (free : c.unpinned id = true) :
    (c.remove id).retired = c.retired := by
  obtain ⟨e, held, unpinned⟩ := unpinned_iff.1 free
  unfold remove
  rw [held]
  dsimp only
  rw [if_neg (by bv_omega)]

theorem remove_sets_aside {c : Cache} {id : BlockId} {e : Entry} (held : c.blocks[id]? = some e)
    (pinned : 0 < e.pins) :
    (c.remove id).retired[id]? = some { offset := e.offset, size := e.size, pins := e.pins } := by
  unfold remove
  rw [held]
  dsimp only
  rw [if_pos pinned, getElem?_insert, if_pos rfl]

theorem pinned_eq_total (c : Cache) : c.pinned = total (fun e => if 0 < e.pins then 1 else 0) c.blocks := by
  unfold pinned total
  induction c.blocks.toList with
  | nil => rfl
  | cons p ps ih =>
    rw [List.foldr_cons, ← ih]
    dsimp only
    by_cases pinned : 0 < p.2.pins
    · rw [List.filter_cons_of_pos (by simpa using pinned), if_pos pinned, List.length_cons, Nat.add_comm]
    · rw [List.filter_cons_of_neg (by simpa using pinned), if_neg pinned, Nat.zero_add]

theorem pinned_evict {c : Cache} {id : BlockId} (free : c.unpinned id = true) : (c.evict id).pinned = c.pinned := by
  obtain ⟨e, held, unpinned⟩ := unpinned_iff.1 free
  rw [pinned_eq_total, pinned_eq_total, evict_blocks, total_erase _ held, if_neg (by bv_omega), Nat.zero_add]

/-- Evicting blocks without pins changes nothing about the pinned ones. -/
theorem evictAll_spares {c : Cache} {ids : List BlockId} (once : ids.Nodup) (free : ∀ id ∈ ids, c.unpinned id = true) :
    (c.evictAll ids).pinned = c.pinned ∧ (c.evictAll ids).retired = c.retired := by
  induction ids generalizing c with
  | nil => exact ⟨rfl, rfl⟩
  | cons id ids ih =>
    obtain ⟨new, once⟩ := List.nodup_cons.1 once
    have first := free id List.mem_cons_self
    obtain ⟨pinned, retired⟩ := ih (c := c.evict id) once (by
      intro a mem
      refine (unpinned_evict c id a).2 ⟨?_, free a (List.mem_cons_of_mem _ mem)⟩
      rintro rfl
      exact new mem)
    exact ⟨pinned.trans (pinned_evict first), retired.trans (remove_retired first)⟩

/-! ## Room -/

/-- There is room for one more block whose code takes `need` bytes. -/
structure Room (c : Cache) (need : Nat) : Prop where
  few : c.size < c.maxBlocks
  small : c.arena.used + need ≤ c.maxCodeBytes
  /-- Some free range is long enough. -/
  stretch : ∃ r ∈ c.arena.free, need ≤ r.size

theorem place?_eq_none_iff {c : Cache} {code : List CodeByte} :
    c.place? code = none ↔ ¬c.Room (Arena.footprint code.length) := by
  have short : c.arena.alloc? code = none ↔ ¬∃ r ∈ c.arena.free, Arena.footprint code.length ≤ r.size := by
    unfold Arena.alloc?
    rw [Option.map_eq_none_iff, Arena.takeFirst_eq_none_iff]
    simp
  unfold place?
  split
  · next bounds =>
    simp only [hasRoom, Bool.and_eq_true, decide_eq_true_eq] at bounds
    rw [Option.map_eq_none_iff, short, not_iff_not]
    exact ⟨fun stretch => ⟨bounds.1, bounds.2, stretch⟩, Room.stretch⟩
  · next beyond =>
    simp only [true_iff]
    intro room
    apply beyond
    simp only [hasRoom, Bool.and_eq_true, decide_eq_true_eq]
    exact ⟨room.few, room.small⟩

theorem room_of_place? {c : Cache} {code : List CodeByte} {x : Nat × Cache} (placed : c.place? code = some x) :
    c.Room (Arena.footprint code.length) := by
  by_cases room : c.Room (Arena.footprint code.length)
  · exact room
  · rw [place?_eq_none_iff.2 room] at placed
    cases placed

/-- The first `n` blocks of an order are the fewest whose eviction makes room. -/
structure Fewest (c : Cache) (order : List BlockId) (need n : Nat) : Prop where
  within : n ≤ order.length
  enough : (c.evictAll (order.take n)).Room need
  needed : ∀ m < n, ¬(c.evictAll (order.take m)).Room need

theorem Fewest.none {c : Cache} {order : List BlockId} {need : Nat} (room : c.Room need) :
    c.Fewest order need 0 where
  within := Nat.zero_le _
  enough := room
  needed _ lt := absurd lt (Nat.not_lt_zero _)

theorem Fewest.next {c : Cache} {id : BlockId} {rest : List BlockId} {need n : Nat} (full : ¬c.Room need)
    (fewest : (c.evict id).Fewest rest need n) : c.Fewest (id :: rest) need (n + 1) where
  within := Nat.succ_le_succ fewest.within
  enough := fewest.enough
  needed m lt := by
    cases m with
    | zero => exact full
    | succ m => exact fewest.needed m (Nat.lt_of_succ_lt_succ lt)

theorem Fewest.unique {c : Cache} {order : List BlockId} {need n m : Nat} (h : c.Fewest order need n)
    (h' : c.Fewest order need m) : n = m := by
  rcases Nat.lt_trichotomy n m with lt | same | lt
  · exact absurd h.enough (h'.needed n lt)
  · exact same
  · exact absurd h'.enough (h.needed m lt)

/-- Code is placed once the fewest blocks are gone; where all of them are too few, all of them go. -/
theorem placeEvicting_fewest (c : Cache) (code : List CodeByte) (order : List BlockId) :
    (∃ n offset arena, c.Fewest order (Arena.footprint code.length) n ∧
      (c.evictAll (order.take n)).arena.alloc? code = some (offset, arena) ∧
      c.placeEvicting code order = (some offset, { c.evictAll (order.take n) with arena })) ∨
    (∀ n ≤ order.length, ¬(c.evictAll (order.take n)).Room (Arena.footprint code.length)) ∧
      c.placeEvicting code order = (none, c.evictAll order) := by
  induction order generalizing c with
  | nil =>
    unfold placeEvicting
    obtain absent | ⟨offset, arena, placed, -, taken⟩ := c.place?_cases code
    · rw [absent]
      refine .inr ⟨?_, rfl⟩
      intro n _
      rw [List.take_nil]
      exact place?_eq_none_iff.1 absent
    · rw [placed]
      exact .inl ⟨0, offset, arena, .none (room_of_place? placed), taken, rfl⟩
  | cons id rest ih =>
    unfold placeEvicting
    obtain absent | ⟨offset, arena, placed, -, taken⟩ := c.place?_cases code
    · rw [absent]
      have full := place?_eq_none_iff.1 absent
      obtain ⟨n, offset, arena, fewest, taken, result⟩ | ⟨never, result⟩ := ih (c.evict id)
      · exact .inl ⟨n + 1, offset, arena, fewest.next full, taken, result⟩
      · refine .inr ⟨?_, result⟩
        intro n within
        cases n with
        | zero => exact full
        | succ n => exact never n (Nat.le_of_succ_le_succ within)
    · rw [placed]
      exact .inl ⟨0, offset, arena, .none (room_of_place? placed), taken, rfl⟩

/-! ## Insertions -/

/-- The cache without the block that starts where `b` does. -/
def vacated (c : Cache) (b : Block) : Cache :=
  match c.byAddr[b.start.toNat]? with
  | some old => c.remove old
  | none => c

theorem Consistent.vacated {c : Cache} (h : c.Consistent) (b : Block) : (c.vacated b).Consistent := by
  unfold Cache.vacated
  split
  · exact h.remove _
  · exact h

theorem vacated_free {c : Cache} (h : c.Consistent) (b : Block) : (c.vacated b).byAddr[b.start.toNat]? = none := by
  unfold Cache.vacated
  split
  · next old found => exact remove_free h found
  · next free => exact free

theorem vacated_blocks (c : Cache) (b : Block) (id : BlockId) :
    (c.vacated b).blocks[id]? = if c.byAddr[b.start.toNat]? = some id then none else c.blocks[id]? := by
  unfold vacated
  cases c.byAddr[b.start.toNat]? with
  | none => rfl
  | some old =>
    dsimp only
    rw [getElem?_remove_blocks]
    simp only [Option.some.injEq, eq_comm (a := id)]

/-- How an insertion ends that is not stale: `r` is what it gives, and `order` has the blocks that may give
way once the address of the block is vacated. -/
structure Evicts (c : Cache) (order : List BlockId) (b : Block) (t : Translation)
    (r : Except CacheError Handle × Cache) : Prop where
  /-- Code beyond the bound evicts nothing. -/
  oversized : c.maxCodeBytes < Arena.footprint t.code.length →
    r = (.error (.capacityExceeded (Arena.footprint t.code.length) 0), c.vacated b)
  /-- The fewest blocks go, from the front of the order, and the block comes in. -/
  fits : Arena.footprint t.code.length ≤ c.maxCodeBytes → ∀ n,
    (c.vacated b).Fewest order (Arena.footprint t.code.length) n → ∃ offset arena,
      ((c.vacated b).evictAll (order.take n)).arena.alloc? t.code = some (offset, arena) ∧
      r = (.ok { id := c.nextId, block := b },
        ({ (c.vacated b).evictAll (order.take n) with arena }.enter b t offset).2)
  /-- If that makes no room either, all of the order goes. -/
  full : Arena.footprint t.code.length ≤ c.maxCodeBytes →
    (∀ n ≤ order.length, ¬((c.vacated b).evictAll (order.take n)).Room (Arena.footprint t.code.length)) →
      r = (.error (.capacityExceeded (Arena.footprint t.code.length) (c.vacated b).pinned),
        (c.vacated b).evictAll order)

theorem vacated_settles (c : Cache) (b : Block) : Settles c (c.vacated b) := by
  unfold vacated
  split
  · exact c.remove_settles _
  · exact .refl c

theorem insert_of_stale {b : Block} {mem : Memory} {page : Nat} (stale : stalePage? b mem = some page)
    (c : Cache) (t : Translation) : c.insert b t mem = (.error (.staleBlock b.start page), c) := by
  unfold insert
  rw [stale]

theorem insert_of_current {b : Block} {mem : Memory} (current : stalePage? b mem = none) (c : Cache)
    (t : Translation) : c.insert b t mem = (c.vacated b).insertChecked b t := by
  unfold insert
  rw [current]
  rfl

theorem evictable_nodup {c : Cache} (h : c.Consistent) : c.evictable.Nodup :=
  (sorted_evictable h).imp (fun before same => by rw [same] at before; exact Nat.lt_irrefl _ before)

theorem insertChecked_eq {c : Cache} (h : c.Consistent) {b : Block} (distinct : b.pageNumbers.Nodup)
    (free : c.byAddr[b.start.toNat]? = none) (t : Translation) : c.insertChecked b t = c.insertNew b t := by
  unfold insertChecked
  obtain ⟨need, pinned, c', eq, -⟩ | ⟨id, c', eq, gains⟩ := insertNew_spec h distinct free t
  · rw [eq]
  · rw [eq]
    dsimp only
    rw [gains.consistent.check_ok]

theorem insert_evicts {c : Cache} (h : c.Consistent) {b : Block} (distinct : b.pageNumbers.Nodup)
    (t : Translation) {mem : Memory} (current : stalePage? b mem = none) :
    c.Evicts (c.vacated b).evictable b t (c.insert b t mem) := by
  have consistent := h.vacated b
  have settles := c.vacated_settles b
  rw [insert_of_current current, insertChecked_eq consistent distinct (vacated_free h b)]
  rw [insertNew_eq]
  rw [settles.maxCodeBytes]
  refine ⟨fun beyond => if_pos beyond, ?fits, ?full⟩
  case fits =>
    intro small n fewest
    rw [if_neg (Nat.not_lt_of_le small)]
    obtain ⟨m, offset, arena, fewest', taken, result⟩ | ⟨never, -⟩ :=
      (c.vacated b).placeEvicting_fewest t.code (c.vacated b).evictable
    · obtain rfl := fewest.unique fewest'
      have nextId : ((c.vacated b).evictAll ((c.vacated b).evictable.take n)).nextId = c.nextId :=
        ((c.vacated b).evictAll_settles _).nextId.trans settles.nextId
      rw [result]
      exact ⟨offset, arena, taken, by rw [← nextId]; rfl⟩
    · exact absurd fewest.enough (never n fewest.within)
  case full =>
    intro small never
    rw [if_neg (Nat.not_lt_of_le small)]
    obtain ⟨n, offset, arena, fewest, -⟩ | ⟨-, result⟩ :=
      (c.vacated b).placeEvicting_fewest t.code (c.vacated b).evictable
    · exact absurd fewest.enough (never n fewest.within)
    · have spared := evictAll_spares (evictable_nodup consistent) (fun id => (mem_evictable consistent).1)
      rw [result]
      dsimp only
      rw [spared.1]

/-! ## Sessions as lists of uses -/

/-- The block that an operation uses: the one it finds, or brings in. -/
def used? (c : Cache) : Op → Option BlockId
  | .lookup pc => (c.lookup pc).1.map Handle.id
  | .pin pc => (c.pin pc).1.map Handle.id
  | .insert b t mem => (c.insert b t mem).1.toOption.map Handle.id
  | _ => none

/-- The blocks that a session uses, in order. -/
def usage (c : Cache) : List Op → List BlockId
  | [] => []
  | op :: rest => (c.used? op).toList ++ (c.apply op).2.usage rest

/-- A log of uses with their times: each block that is held was last used when the log says so last. -/
structure Timed (log : List (Nat × BlockId)) (c : Cache) : Prop where
  ascending : log.Pairwise (fun p q => p.1 < q.1)
  past : ∀ p ∈ log, p.1 ≤ c.tick
  noted : ∀ {id : BlockId} {e : Entry}, c.blocks[id]? = some e → (e.lastUse, id) ∈ log
  last : ∀ {id : BlockId} {e : Entry}, c.blocks[id]? = some e → ∀ time, (time, id) ∈ log → time ≤ e.lastUse

/-- `c'` holds only blocks of `c`, and uses none. -/
structure Idles (c c' : Cache) : Prop where
  tick : c.tick ≤ c'.tick
  within : ∀ {id : BlockId} {e' : Entry}, c'.blocks[id]? = some e' →
    ∃ e : Entry, c.blocks[id]? = some e ∧ e'.lastUse = e.lastUse

theorem Idles.refl (c : Cache) : Idles c c := ⟨Nat.le_refl _, fun held => ⟨_, held, rfl⟩⟩

theorem Idles.trans {c c' c'' : Cache} (h : Idles c c') (h' : Idles c' c'') : Idles c c'' := by
  refine ⟨Nat.le_trans h.tick h'.tick, ?_⟩
  intro id e'' held''
  obtain ⟨e', held', same'⟩ := h'.within held''
  obtain ⟨e, held, same⟩ := h.within held'
  exact ⟨e, held, same'.trans same⟩

theorem idles_counts (c : Cache) (counts : Counts) : Idles c { c with counts } :=
  ⟨Nat.le_refl _, fun held => ⟨_, held, rfl⟩⟩

theorem remove_idles (c : Cache) (id : BlockId) : Idles c (c.remove id) := by
  refine ⟨?_, ?_⟩
  · unfold remove
    split
    · exact Nat.le_refl _
    · dsimp only
      split <;> exact Nat.le_refl _
  · intro a e' held
    rw [remove_blocks] at held
    exact ⟨e', mem_of_erase held, rfl⟩

theorem removeAll_idles (ids : List BlockId) (c : Cache) : Idles c (ids.foldl Cache.remove c) := by
  induction ids generalizing c with
  | nil => exact .refl c
  | cons id ids ih => exact (c.remove_idles id).trans (ih (c.remove id))

theorem evictAll_idles (ids : List BlockId) (c : Cache) : Idles c (c.evictAll ids) := by
  induction ids generalizing c with
  | nil => exact .refl c
  | cons id ids ih => exact ((c.remove_idles id).trans (idles_counts _ _)).trans (ih (c.evict id))

theorem vacated_idles (c : Cache) (b : Block) : Idles c (c.vacated b) := by
  unfold vacated
  split
  · exact c.remove_idles _
  · exact .refl c

theorem unpin_idles (c : Cache) (id : BlockId) : Idles c (c.unpin id) := by
  unfold unpin
  split
  · next e held =>
    refine ⟨Nat.le_refl _, ?_⟩
    intro a x held'
    refine forall_update (P := fun a x => ∃ y : Entry, c.blocks[a]? = some y ∧ x.lastUse = y.lastUse) ?_
      (fun old => ⟨_, old, rfl⟩) held'
    exact ⟨e, held, rfl⟩
  · split
    · exact .refl c
    · split <;> exact ⟨Nat.le_refl _, fun held => ⟨_, held, rfl⟩⟩

namespace Timed

variable {log : List (Nat × BlockId)} {c c' : Cache}

theorem start (l : Limits) : Timed [] (ofLimits l) where
  ascending := .nil
  past := nofun
  noted held := by simp [ofLimits] at held
  last held := by simp [ofLimits] at held

theorem idle (h : Timed log c) (idles : Idles c c') : Timed log c' where
  ascending := h.ascending
  past p mem := Nat.le_trans (h.past p mem) idles.tick
  noted held := by
    obtain ⟨e, held, same⟩ := idles.within held
    rw [same]
    exact h.noted held
  last held := by
    obtain ⟨e, held, same⟩ := idles.within held
    rw [same]
    exact h.last held

theorem use (h : Timed log c) {id : BlockId} {e : Entry} (now : e.lastUse = c.tick + 1) (tick : c'.tick = c.tick + 1)
    (blocks : c'.blocks = c.blocks.insert id e) : Timed (log ++ [(c.tick + 1, id)]) c' := by
  have past (p : Nat × BlockId) (mem : p ∈ log ++ [(c.tick + 1, id)]) : p.1 ≤ c.tick + 1 := by
    rcases List.mem_append.1 mem with old | new
    · exact Nat.le_succ_of_le (h.past p old)
    · rw [List.mem_singleton.1 new]
  refine ⟨?_, fun p mem => tick ▸ past p mem, ?_, ?_⟩
  · rw [List.pairwise_append]
    refine ⟨h.ascending, List.pairwise_singleton _ _, ?_⟩
    intro p old q new
    rw [List.mem_singleton.1 new]
    exact Nat.lt_succ_of_le (h.past p old)
  · intro a x held
    rw [blocks] at held
    refine forall_update (P := fun a x => (x.lastUse, a) ∈ log ++ [(c.tick + 1, id)]) ?_ ?_ held
    · rw [now]
      exact List.mem_append_right _ List.mem_cons_self
    · exact fun old => List.mem_append_left _ (h.noted old)
  · intro a x held time mem
    rw [blocks, getElem?_insert] at held
    split at held
    · cases held
      rw [now]
      exact past _ mem
    · next other =>
      rcases List.mem_append.1 mem with old | new
      · exact h.last held time old
      · exact absurd (Prod.mk.inj (List.mem_singleton.1 new)).2 other

theorem find (h : Timed log c) (pc : Word) (pin : Bool) :
    ∃ now, now.map Prod.snd = ((c.find pc pin).1.map Handle.id).toList ∧ Timed (log ++ now) (c.find pc pin).2 := by
  have missed {c' : Cache} (idles : Idles c c') :
      ∃ now : List (Nat × BlockId), now.map Prod.snd = [] ∧ Timed (log ++ now) c' :=
    ⟨[], rfl, (List.append_nil log).symm ▸ h.idle idles⟩
  unfold Cache.find
  split
  · exact missed (idles_counts c _)
  · next id _ =>
    dsimp only
    split
    · exact missed ⟨Nat.le_succ _, fun held => ⟨_, held, rfl⟩⟩
    · exact ⟨[(c.tick + 1, id)], rfl, h.use rfl rfl rfl⟩

theorem insert (h : Timed log c) (consistent : c.Consistent) {b : Block} (distinct : b.pageNumbers.Nodup)
    (t : Translation) (mem : Memory) :
    ∃ now, now.map Prod.snd = ((c.insert b t mem).1.toOption.map Handle.id).toList ∧
      Timed (log ++ now) (c.insert b t mem).2 := by
  have failed {c' : Cache} (idles : Idles c c') :
      ∃ now : List (Nat × BlockId), now.map Prod.snd = [] ∧ Timed (log ++ now) c' :=
    ⟨[], rfl, (List.append_nil log).symm ▸ h.idle idles⟩
  cases stale : stalePage? b mem with
  | some page =>
    rw [insert_of_stale stale]
    exact failed (.refl c)
  | none =>
    have evicted (ids : List BlockId) : Idles c ((c.vacated b).evictAll ids) :=
      (c.vacated_idles b).trans ((c.vacated b).evictAll_idles ids)
    rw [insert_of_current stale, insertChecked_eq (consistent.vacated b) distinct (vacated_free consistent b)]
    rw [insertNew_eq]
    split
    · exact failed (c.vacated_idles b)
    · obtain ⟨n, offset, arena, -, -, result⟩ | ⟨-, result⟩ :=
        (c.vacated b).placeEvicting_fewest t.code (c.vacated b).evictable
      · rw [result]
        exact ⟨[(_, _)], rfl, (h.idle (evicted _)).use (e := newEntry _ b t offset) rfl rfl rfl⟩
      · rw [result]
        exact failed (evicted _)

theorem act (h : Timed log c) (consistent : c.Consistent) {op : Op} (fair : op.Fair) :
    ∃ now, now.map Prod.snd = (c.used? op).toList ∧ Timed (log ++ now) (c.apply op).2 := by
  have idle {c' : Cache} (idles : Idles c c') :
      ∃ now : List (Nat × BlockId), now.map Prod.snd = [] ∧ Timed (log ++ now) c' :=
    ⟨[], rfl, (List.append_nil log).symm ▸ h.idle idles⟩
  cases op with
  | lookup pc => exact h.find pc false
  | pin pc => exact h.find pc true
  | unpin id => exact idle (c.unpin_idles id)
  | insert b t mem =>
    rw [apply_insert]
    exact h.insert consistent fair t mem
  | invalidatePage page => exact idle ((removeAll_idles _ c).trans (idles_counts _ _))
  | flush => exact idle ((removeAll_idles _ c).trans (idles_counts _ _))

theorem session (h : Timed log c) (consistent : c.Consistent) {ops : List Op} (fair : ∀ op ∈ ops, op.Fair) :
    ∃ now, now.map Prod.snd = c.usage ops ∧ Timed (log ++ now) (c.session ops).2 := by
  induction ops generalizing log c with
  | nil => exact ⟨[], rfl, (List.append_nil log).symm ▸ h⟩
  | cons op rest ih =>
    have fairOp := fair op List.mem_cons_self
    obtain ⟨first, uses, timed⟩ := h.act consistent fairOp
    obtain ⟨later, uses', timed'⟩ := ih timed (apply_consistent consistent fairOp)
      (fun op' mem => fair op' (List.mem_cons_of_mem _ mem))
    refine ⟨first ++ later, ?_, List.append_assoc log first later ▸ timed'⟩
    rw [List.map_append, uses, uses']
    rfl

end Timed

/-- In a log by time, the last entries of blocks come in the order of their times. -/
theorem sorted_dedup {log : List (Nat × BlockId)} (ascending : log.Pairwise (fun p q => p.1 < q.1))
    (held : BlockId → Bool) (last : BlockId → Nat)
    (noted : ∀ p ∈ log, held p.2 → (last p.2, p.2) ∈ log)
    (latest : ∀ p ∈ log, held p.2 → p.1 ≤ last p.2) :
    ((log.map Prod.snd).dedup.filter held).Pairwise (fun a b => last a < last b) := by
  induction log with
  | nil => exact .nil
  | cons p log ih =>
    obtain ⟨first, ascending⟩ := List.pairwise_cons.1 ascending
    -- An entry after the first has its last entry after the first.
    have later (q : Nat × BlockId) (mem : q ∈ log) (keeps : held q.2) : (last q.2, q.2) ∈ log := by
      rcases List.mem_cons.1 (noted q (List.mem_cons_of_mem _ mem) keeps) with same | mem'
      · have before := first q mem
        have := latest q (List.mem_cons_of_mem _ mem) keeps
        rw [← same] at before
        dsimp only at before
        omega
      · exact mem'
    have rest := ih ascending later (fun q mem => latest q (List.mem_cons_of_mem _ mem))
    rw [List.map_cons]
    by_cases again : p.2 ∈ log.map Prod.snd
    · rw [List.dedup_cons_of_mem again]
      exact rest
    · rw [List.dedup_cons_of_notMem again, List.filter_cons]
      split
      · next keeps =>
        refine List.pairwise_cons.2 ⟨?_, rest⟩
        have own : last p.2 = p.1 := by
          rcases List.mem_cons.1 (noted p List.mem_cons_self keeps) with same | mem
          · exact congrArg Prod.fst same
          · exact absurd (List.mem_map.2 ⟨_, mem, rfl⟩) again
        intro a mem
        obtain ⟨mem, keeps'⟩ := List.mem_filter.1 mem
        obtain ⟨q, memQ, rfl⟩ := List.mem_map.1 (List.mem_dedup.1 mem)
        rw [own]
        exact first _ (later q memQ keeps')
      · exact rest

theorem Timed.evictable {log : List (Nat × BlockId)} {c : Cache} (h : Timed log c) (consistent : c.Consistent) :
    c.evictable = (log.map Prod.snd).dedup.filter c.unpinned := by
  apply evictable_eq consistent
  · apply sorted_dedup h.ascending
    · intro p _ free
      obtain ⟨e, held, -⟩ := unpinned_iff.1 free
      rw [lastUsed_of_held held]
      exact h.noted held
    · intro p mem free
      obtain ⟨e, held, -⟩ := unpinned_iff.1 free
      rw [lastUsed_of_held held]
      exact h.last held _ mem
  · intro id
    rw [List.mem_filter, and_iff_right_iff_imp]
    intro free
    obtain ⟨e, held, -⟩ := unpinned_iff.1 free
    exact List.mem_dedup.2 (List.mem_map.2 ⟨_, h.noted held, rfl⟩)

/-- Whatever the end, some blocks of the order went, and the other old ones are as they were. -/
theorem Evicts.leaves {c : Cache} {order : List BlockId} {b : Block} {t : Translation}
    {r : Except CacheError Handle × Cache} (h : c.Evicts order b t r) :
    ∃ ids : List BlockId, ids.Sublist order ∧ r.2.retired = ((c.vacated b).evictAll ids).retired ∧
      ∀ id < c.nextId, r.2.blocks[id]? = ((c.vacated b).evictAll ids).blocks[id]? := by
  by_cases small : Arena.footprint t.code.length ≤ c.maxCodeBytes
  · obtain ⟨n, -, -, fewest, -⟩ | ⟨never, -⟩ := (c.vacated b).placeEvicting_fewest t.code order
    · obtain ⟨offset, arena, -, result⟩ := h.fits small n fewest
      refine ⟨order.take n, List.take_sublist n order, by rw [result]; rfl, ?_⟩
      intro id old
      have nextId : ((c.vacated b).evictAll (order.take n)).nextId = c.nextId :=
        ((c.vacated b).evictAll_settles _).nextId.trans (c.vacated_settles b).nextId
      rw [result]
      show (((c.vacated b).evictAll (order.take n)).blocks.insert _ _)[id]? = _
      rw [getElem?_insert, nextId, if_neg (Nat.ne_of_lt old)]
    · exact ⟨order, .refl order, by rw [h.full small never], fun id _ => by rw [h.full small never]⟩
  · have oversized := h.oversized (Nat.lt_of_not_le small)
    exact ⟨[], List.nil_sublist order, by rw [oversized]; rfl, fun id _ => by rw [oversized]; rfl⟩

/-- A block with pins on it stays in its place, or is set aside if the new block takes its address. -/
theorem insert_spares {c : Cache} (h : c.Consistent) {b : Block} (distinct : b.pageNumbers.Nodup)
    (t : Translation) {mem : Memory} (current : stalePage? b mem = none) {id : BlockId} {e : Entry}
    (held : c.blocks[id]? = some e) (pinned : 0 < e.pins) :
    if c.byAddr[b.start.toNat]? = some id then
      (c.insert b t mem).2.retired[id]? = some { offset := e.offset, size := e.size, pins := e.pins }
    else (c.insert b t mem).2.blocks[id]? = some e := by
  have vacated := h.vacated b
  obtain ⟨ids, some', retired, blocks⟩ := (insert_evicts h distinct t current).leaves
  have free (a : BlockId) (mem : a ∈ ids) : (c.vacated b).unpinned a = true :=
    (mem_evictable vacated).1 (some'.subset mem)
  split
  · next own =>
    rw [retired, (evictAll_spares ((evictable_nodup vacated).sublist some') free).2]
    unfold Cache.vacated
    rw [own]
    exact remove_sets_aside held pinned
  · next other =>
    have old : id < c.nextId := by
      by_contra late
      rw [(h.fresh (Nat.le_of_not_lt late)).1] at held
      cases held
    have kept : (c.vacated b).blocks[id]? = some e := by rw [vacated_blocks, if_neg other, held]
    have spared : id ∉ ids := by
      intro mem
      obtain ⟨e', held', unpinned⟩ := unpinned_iff.1 (free id mem)
      rw [kept] at held'
      cases held'
      bv_omega
    rw [blocks id old, evictAll_blocks, if_neg spared, kept]

/-- An insertion evicts as much as it needs, the blocks used longest ago first. After any operations on a new
cache, let `order` have the blocks that are held without a pin once the address of the new block is vacated,
by their last place in the list of uses. A block that is outdated changes nothing. Any other gets its room
from the front of that order (`Evicts`), which is what the cache evicts by at every moment. Blocks with
pins on them are kept. -/
theorem insert_evicts_oldest (l : Limits) {ops : List Op} (fair : ∀ op ∈ ops, op.Fair) {b : Block}
    (distinct : b.pageNumbers.Nodup) (t : Translation) (mem : Memory) :
    let c := ((ofLimits l).session ops).2
    let order := ((ofLimits l).usage ops).dedup.filter (c.vacated b).unpinned
    (∀ page, stalePage? b mem = some page → c.insert b t mem = (.error (.staleBlock b.start page), c)) ∧
      (stalePage? b mem = none → c.Evicts order b t (c.insert b t mem)) ∧
      (∀ id, id ∈ order ↔ (c.vacated b).unpinned id = true) ∧
      (∀ n, ((c.vacated b).evictAll (order.take n)).evictable = order.drop n) ∧
      (∀ id ids, ((c.vacated b).evictAll ids).blocks[id]? =
        if id ∈ ids ∨ c.byAddr[b.start.toNat]? = some id then none else c.blocks[id]?) ∧
      ∀ id e, c.blocks[id]? = some e → 0 < e.pins → stalePage? b mem = none →
        if c.byAddr[b.start.toNat]? = some id then
          (c.insert b t mem).2.retired[id]? = some { offset := e.offset, size := e.size, pins := e.pins }
        else (c.insert b t mem).2.blocks[id]? = some e := by
  obtain ⟨consistent, bounded⟩ := session_keeps (consistent_ofLimits l) (bounded_ofLimits l) fair
  obtain ⟨log, uses, timed⟩ := (Timed.start l).session (consistent_ofLimits l) fair
  rw [List.nil_append] at timed
  intro c order
  have vacated := consistent.vacated b
  have sorted : (c.vacated b).evictable = order := by
    rw [(timed.idle (c.vacated_idles b)).evictable vacated, uses]
  refine ⟨?stale, ?current, ?complete, ?still, ?left, ?pinned⟩
  case stale => exact fun page stale => insert_of_stale stale c t
  case current =>
    intro current
    rw [← sorted]
    exact insert_evicts consistent distinct t current
  case complete =>
    intro id
    rw [← sorted]
    exact mem_evictable vacated
  case still =>
    intro n
    apply evictable_evictAll vacated
    rw [sorted, List.take_append_drop]
  case left =>
    intro id ids
    rw [evictAll_blocks, vacated_blocks]
    split
    · next gone => rw [if_pos (.inl gone)]
    · next stays => simp only [stays, false_or]
  case pinned => exact fun id e held pinned current => insert_spares consistent distinct t current held pinned

def codePage : Memory :=
  ({ Memory.empty 4096 with
      used := 1
      regions := [{ first := 0, count := 1, frame := 0, readOnly := false }] }.markCode 0).2

def twentyBytes : Translation := { code := List.replicate 20 default, spills := 0, clobbers := .empty }

/-- Two traps come in, and the first is looked up again. -/
def reuseOps : List Op :=
  [.insert (trapAt 0) twentyBytes codePage, .insert (trapAt 4) twentyBytes codePage, .lookup 0]

/-- With room for two, a third trap takes the place of the second one. -/
theorem insert_evicts_oldest_reuse :
    let c := ((ofLimits ⟨2, 64⟩).session reuseOps).2
    (ofLimits ⟨2, 64⟩).usage reuseOps = [0, 1, 0] ∧
      c.Evicts [1, 0] (trapAt 8) twentyBytes (c.insert (trapAt 8) twentyBytes codePage) ∧
      (c.insert (trapAt 8) twentyBytes codePage).2.blocks.keys = [0, 2] := by
  have distinct (pc : Word) : (trapAt pc).pageNumbers.Nodup := by simp [trapAt, Block.pageNumbers]
  have fair (op : Op) (mem : op ∈ reuseOps) : op.Fair := by
    simp only [reuseOps, List.mem_cons, List.not_mem_nil, or_false] at mem
    obtain rfl | rfl | rfl := mem
    exacts [distinct 0, distinct 4, trivial]
  obtain ⟨-, current, -⟩ := insert_evicts_oldest ⟨2, 64⟩ fair (distinct 8) twentyBytes codePage
  have order : ((ofLimits ⟨2, 64⟩).usage reuseOps).dedup.filter
      ((((ofLimits ⟨2, 64⟩).session reuseOps).2.vacated (trapAt 8)).unpinned) = [1, 0] := by decide +kernel
  refine ⟨by decide +kernel, ?_, by decide +kernel⟩
  rw [← order]
  exact current (by decide +kernel)

end EmotionEngine.Cache
