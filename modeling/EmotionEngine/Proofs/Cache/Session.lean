import EmotionEngine.Proofs.Cache.Insert

/-!
Sessions of a cache: blocks are looked up, pinned and given back, inserted, invalidated and flushed, in any
order. Insertions may fail, and then a block at the same address and some victims may be gone already.

Whatever the order, the five tables and the arena stay in step, the cache stays within its limits, and no
identity is given out twice.

Main statement: `session_orderly`, over `Orderly`, which says what being in step means.
-/

namespace EmotionEngine.Cache

open Std (ExtTreeMap)

/-- What can be done with a cache. -/
inductive Op where
  | lookup (pc : Word)
  | pin (pc : Word)
  | unpin (id : BlockId)
  /-- A block is inserted with its code, over memory as it is by then. -/
  | insert (b : Block) (t : Translation) (mem : Memory)
  | invalidatePage (page : Nat)
  | flush

/-- A block that is inserted lists no page twice. -/
def Op.Fair : Op → Prop
  | insert b _ _ => b.pageNumbers.Nodup
  | _ => True

/-- The identity that an insertion gives out. -/
def issuedId : Except CacheError Handle × Cache → Option BlockId × Cache
  | (.ok h, c) => (some h.id, c)
  | (.error _, c) => (none, c)

/-- An operation: the identity it gives out, if any, and the cache afterwards. -/
def apply (c : Cache) : Op → Option BlockId × Cache
  | .lookup pc => (none, (c.lookup pc).2)
  | .pin pc => (none, (c.pin pc).2)
  | .unpin id => (none, c.unpin id)
  | .insert b t mem => issuedId (c.insert b t mem)
  | .invalidatePage page => (none, (c.invalidatePage page).2)
  | .flush => (none, c.flush)

/-- Operations in order: the identities they give out, and the cache afterwards. -/
def session (c : Cache) : List Op → List BlockId × Cache
  | [] => ([], c)
  | op :: rest =>
    let first := c.apply op
    let later := first.2.session rest
    (first.1.toList ++ later.1, later.2)

/-- The tables and the arena of a cache are in step, and within the limits. -/
structure Orderly (l : Limits) (c : Cache) : Prop where
  /-- Addresses and blocks correspond: each block is found at its start, and nothing else is found. -/
  addr : ∀ (pc : Nat) (id : BlockId), c.byAddr[pc]? = some id ↔
    ∃ e : Entry, c.blocks[id]? = some e ∧ e.block.start.toNat = pc
  /-- A page lists the blocks that were decoded from it. -/
  page : ∀ (p : Nat) (id : BlockId), (∃ ids, c.byPage[p]? = some ids ∧ id ∈ ids) ↔
    ∃ e : Entry, c.blocks[id]? = some e ∧ e.covers p = true
  /-- A page that is listed has blocks, each of them once. -/
  listed : ∀ (p : Nat) (ids : List BlockId), c.byPage[p]? = some ids → ids ≠ [] ∧ ids.Nodup
  /-- Times of use and blocks correspond. -/
  use : ∀ (t : Nat) (id : BlockId), c.byUse[t]? = some id ↔
    ∃ e : Entry, c.blocks[id]? = some e ∧ e.lastUse = t
  /-- No two blocks were last used at the same time. -/
  apart : ∀ (id id' : BlockId) (e e' : Entry), c.blocks[id]? = some e → c.blocks[id']? = some e' →
    e.lastUse = e'.lastUse → id = id'
  /-- The bytes in use are those of the blocks and of the code set aside. -/
  bytes : c.arena.used = total Entry.share c.blocks + total Retired.share c.retired
  few : c.size ≤ max 1 l.maxBlocks
  small : c.arena.used ≤ l.maxCodeBytes
  checked : c.check = .ok ()

/-! ## What brings in no block -/

/-- No page is listed without blocks. -/
def NoBlankPage (byPage : ExtTreeMap Nat (List BlockId)) : Prop :=
  ∀ (p : Nat) (ids : List BlockId), byPage[p]? = some ids → ids ≠ []

/-- `c'` has the limits of `c`, holds no more, and has given out no further identity. -/
structure Settles (c c' : Cache) : Prop where
  maxBlocks : c'.maxBlocks = c.maxBlocks
  maxCodeBytes : c'.maxCodeBytes = c.maxCodeBytes
  nextId : c'.nextId = c.nextId
  size : c'.blocks.size ≤ c.blocks.size
  used : c'.arena.used ≤ c.arena.used
  listed : NoBlankPage c.byPage → NoBlankPage c'.byPage

theorem Settles.refl (c : Cache) : Settles c c := ⟨rfl, rfl, rfl, Nat.le_refl _, Nat.le_refl _, id⟩

theorem Settles.trans {c c' c'' : Cache} (h : Settles c c') (h' : Settles c' c'') : Settles c c'' where
  maxBlocks := h'.maxBlocks.trans h.maxBlocks
  maxCodeBytes := h'.maxCodeBytes.trans h.maxCodeBytes
  nextId := h'.nextId.trans h.nextId
  size := Nat.le_trans h'.size h.size
  used := Nat.le_trans h'.used h.used
  listed clean := h'.listed (h.listed clean)

theorem settles_counts (c : Cache) (counts : Counts) : Settles c { c with counts } :=
  ⟨rfl, rfl, rfl, Nat.le_refl _, Nat.le_refl _, id⟩

theorem size_update {m : ExtTreeMap Nat Entry} {id : BlockId} {e : Entry} (held : m[id]? = some e)
    (e' : Entry) : (m.insert id e').size = m.size := by
  have mem : id ∈ m := by
    rw [ExtTreeMap.mem_iff_isSome_getElem?, held]
    rfl
  rw [ExtTreeMap.size_insert]
  exact if_pos mem

theorem find_settles (c : Cache) (pc : Word) (pin : Bool) : Settles c (c.find pc pin).2 := by
  unfold find
  split
  · exact settles_counts c _
  · dsimp only
    split
    · exact ⟨rfl, rfl, rfl, Nat.le_refl _, Nat.le_refl _, id⟩
    · next e held => exact ⟨rfl, rfl, rfl, Nat.le_of_eq (size_update held _), Nat.le_refl _, id⟩

theorem unpin_settles (c : Cache) (id : BlockId) : Settles c (c.unpin id) := by
  unfold unpin
  split
  · next e held => exact ⟨rfl, rfl, rfl, Nat.le_of_eq (size_update held _), Nat.le_refl _, fun clean => clean⟩
  · split
    · exact .refl c
    · split
      · exact ⟨rfl, rfl, rfl, Nat.le_refl _, Nat.sub_le _ _, fun clean => clean⟩
      · exact ⟨rfl, rfl, rfl, Nat.le_refl _, Nat.le_refl _, fun clean => clean⟩

theorem noBlankPage_unlistPage {m : ExtTreeMap Nat (List BlockId)} (clean : NoBlankPage m) (id : BlockId)
    (page : Nat) : NoBlankPage (unlistPage m id page) := by
  unfold unlistPage
  split
  · exact clean
  · next ids _ =>
    dsimp only
    split
    · intro p ids' found
      rw [getElem?_erase] at found
      split at found
      · cases found
      · exact clean p ids' found
    · next kept =>
      intro p ids' found
      rw [getElem?_insert] at found
      split at found
      · cases found
        rintro empty
        rw [empty] at kept
        exact kept rfl
      · exact clean p ids' found

theorem noBlankPage_unlist {m : ExtTreeMap Nat (List BlockId)} (clean : NoBlankPage m) (id : BlockId)
    (pages : List Nat) : NoBlankPage (pages.foldl (fun m p => unlistPage m id p) m) := by
  induction pages generalizing m with
  | nil => exact clean
  | cons p pages ih => exact ih (noBlankPage_unlistPage clean id p)

theorem remove_settles (c : Cache) (id : BlockId) : Settles c (c.remove id) := by
  unfold remove
  split
  · exact .refl c
  · dsimp only
    split
    · exact ⟨rfl, rfl, rfl, ExtTreeMap.size_erase_le, Nat.le_refl _,
        fun clean => noBlankPage_unlist clean id _⟩
    · exact ⟨rfl, rfl, rfl, ExtTreeMap.size_erase_le, Nat.sub_le _ _,
        fun clean => noBlankPage_unlist clean id _⟩

theorem removeAll_settles (c : Cache) (ids : List BlockId) : Settles c (ids.foldl Cache.remove c) := by
  induction ids generalizing c with
  | nil => exact .refl c
  | cons id ids ih => exact (c.remove_settles id).trans (ih (c.remove id))

theorem invalidatePage_settles (c : Cache) (page : Nat) : Settles c (c.invalidatePage page).2 :=
  (c.removeAll_settles (c.byPage.getD page [])).trans (settles_counts _ _)

theorem flush_settles (c : Cache) : Settles c c.flush :=
  (c.removeAll_settles c.blocks.keys).trans (settles_counts _ _)

theorem evictAll_settles (c : Cache) (victims : List BlockId) : Settles c (victims.foldl evict c) := by
  induction victims generalizing c with
  | nil => exact .refl c
  | cons id victims ih => exact ((c.remove_settles id).trans (settles_counts _ _)).trans (ih (c.evict id))

/-! ## The limits -/

/-- A cache within the limits it was made with, that lists no page without blocks. -/
structure Bounded (l : Limits) (c : Cache) : Prop where
  maxBlocks : c.maxBlocks = max l.maxBlocks 1
  maxCodeBytes : c.maxCodeBytes = l.maxCodeBytes
  size : c.blocks.size ≤ c.maxBlocks
  used : c.arena.used ≤ c.maxCodeBytes
  listed : NoBlankPage c.byPage

theorem bounded_ofLimits (l : Limits) : (ofLimits l).Bounded l where
  maxBlocks := rfl
  maxCodeBytes := rfl
  size := by simp [ofLimits]
  used := Nat.zero_le _
  listed := by simp [ofLimits, NoBlankPage]

theorem Settles.bounded {l : Limits} {c c' : Cache} (h : Settles c c') (bounded : c.Bounded l) :
    c'.Bounded l where
  maxBlocks := h.maxBlocks.trans bounded.maxBlocks
  maxCodeBytes := h.maxCodeBytes.trans bounded.maxCodeBytes
  size := by
    rw [h.maxBlocks]
    exact Nat.le_trans h.size bounded.size
  used := by
    rw [h.maxCodeBytes]
    exact Nat.le_trans h.used bounded.used
  listed := h.listed bounded.listed

theorem noBlankPage_list {m : ExtTreeMap Nat (List BlockId)} (clean : NoBlankPage m) (id : BlockId)
    (pages : List PageSnapshot) :
    NoBlankPage (pages.foldl (fun m p => m.insert p.page (m.getD p.page [] ++ [id])) m) := by
  induction pages generalizing m with
  | nil => exact clean
  | cons s pages ih =>
    apply ih
    intro p ids found
    rw [getElem?_insert] at found
    split at found
    · cases found
      simp
    · exact clean p ids found

theorem enter_bounded {l : Limits} {c : Cache} (bounded : c.Bounded l) (b : Block) (t : Translation)
    {offset : Nat} {arena : Arena} (room : c.hasRoom (Arena.footprint t.code.length) = true)
    (placed : c.arena.alloc? t.code = some (offset, arena)) :
    (({ c with arena } : Cache).enter b t offset).2.Bounded l := by
  obtain ⟨⟨offset', free⟩, -, eq⟩ := Option.map_eq_some_iff.1 placed
  cases eq
  unfold hasRoom at room
  simp only [Bool.and_eq_true, decide_eq_true_eq] at room
  refine ⟨bounded.maxBlocks, bounded.maxCodeBytes, ?_, room.2, noBlankPage_list bounded.listed _ _⟩
  exact Nat.le_trans ExtTreeMap.size_insert_le room.1

/-! ## Operations -/

/-- What an operation does to the limits, and which identities it may give out. -/
structure Advances (c : Cache) (r : Option BlockId × Cache) : Prop where
  bounded : ∀ {l : Limits}, c.Bounded l → r.2.Bounded l
  later : c.nextId ≤ r.2.nextId
  issued : ∀ id ∈ r.1, c.nextId ≤ id ∧ id < r.2.nextId

theorem Settles.advances {c c' : Cache} (h : Settles c c') : Advances c (none, c') :=
  ⟨h.bounded, Nat.le_of_eq h.nextId.symm, nofun⟩

theorem Settles.before {c c' : Cache} (h : Settles c c') {r : Option BlockId × Cache}
    (advances : Advances c' r) : Advances c r := by
  refine ⟨fun bounded => advances.bounded (h.bounded bounded), ?_, ?_⟩
  · rw [← h.nextId]
    exact advances.later
  · rw [← h.nextId]
    exact advances.issued

theorem insertNew_advances (c : Cache) (b : Block) (t : Translation) :
    Advances c (issuedId (c.insertNew b t)) := by
  rw [insertNew_eq]
  split
  · exact (Settles.refl c).advances
  · obtain ⟨victims, c', evicted, result⟩ := c.placeEvicting_cases t.code c.evictable
    have settles := c.evictAll_settles victims
    rw [evicted] at settles
    obtain full | ⟨offset, arena, placed, room, taken⟩ := result
    · rw [full]
      exact settles.advances
    · rw [placed]
      apply settles.before
      refine ⟨fun bounded => enter_bounded bounded b t room taken, Nat.le_succ _, ?_⟩
      rintro id ⟨⟩
      exact ⟨Nat.le_refl _, Nat.lt_succ_self _⟩

theorem insert_advances (c : Cache) (b : Block) (t : Translation) (mem : Memory) :
    Advances c (issuedId (c.insert b t mem)) := by
  unfold insert
  split
  · exact (Settles.refl c).advances
  · have finish {c' : Cache} (settles : Settles c c') :
        Advances c (issuedId (c'.insertChecked b t)) := by
      unfold insertChecked
      have inserted := settles.before (c'.insertNew_advances b t)
      revert inserted
      generalize c'.insertNew b t = r
      obtain ⟨e | h, c''⟩ := r
      · exact id
      · intro inserted
        dsimp only
        cases c''.check with
        | ok u => exact inserted
        | error e => exact ⟨inserted.bounded, inserted.later, nofun⟩
    -- A block at the same address goes first.
    cases c.byAddr[b.start.toNat]? with
    | none => exact finish (.refl c)
    | some old => exact finish (c.remove_settles old)

theorem apply_advances (c : Cache) (op : Op) : Advances c (c.apply op) := by
  cases op with
  | lookup pc => exact (c.find_settles pc false).advances
  | pin pc => exact (c.find_settles pc true).advances
  | unpin id => exact (c.unpin_settles id).advances
  | insert b t mem => exact c.insert_advances b t mem
  | invalidatePage page => exact (c.invalidatePage_settles page).advances
  | flush => exact c.flush_settles.advances

theorem apply_consistent {c : Cache} (h : c.Consistent) {op : Op} (fair : op.Fair) :
    (c.apply op).2.Consistent := by
  cases op with
  | lookup pc => exact (find_keeps h pc false).consistent
  | pin pc => exact (find_keeps h pc true).consistent
  | unpin id => exact (unpin_keeps h id).consistent
  | insert b t mem =>
    have inserted := insert_spec h fair t mem
    unfold apply
    dsimp only
    revert inserted
    generalize c.insert b t mem = r
    intro inserted
    cases inserted with
    | stale page _ => exact h
    | full need pinned c' _ keeps => exact keeps.consistent
    | done id c' _ gains => exact gains.consistent
  | invalidatePage page => exact (invalidatePage_keeps h page).consistent
  | flush => exact (flush_keeps h).consistent

/-! ## Sessions -/

theorem session_keeps {l : Limits} {c : Cache} (h : c.Consistent) (bounded : c.Bounded l) {ops : List Op}
    (fair : ∀ op ∈ ops, op.Fair) :
    (c.session ops).2.Consistent ∧ (c.session ops).2.Bounded l := by
  induction ops generalizing c with
  | nil => exact ⟨h, bounded⟩
  | cons op rest ih =>
    apply ih (apply_consistent h (fair op List.mem_cons_self)) ((c.apply_advances op).bounded bounded)
    exact fun op mem => fair op (List.mem_cons_of_mem _ mem)

/-- A session gives out identities in ascending order, all of them new. -/
theorem session_ascending (c : Cache) (ops : List Op) :
    (∀ id ∈ (c.session ops).1, c.nextId ≤ id) ∧ (c.session ops).1.Pairwise (· < ·) := by
  induction ops generalizing c with
  | nil => exact ⟨nofun, .nil⟩
  | cons op rest ih =>
    have advances := c.apply_advances op
    obtain ⟨new, ascending⟩ := ih (c.apply op).2
    have later (id : BlockId) (mem : id ∈ ((c.apply op).2.session rest).1) : c.nextId ≤ id :=
      Nat.le_trans advances.later (new id mem)
    show (∀ id ∈ (c.apply op).1.toList ++ _, c.nextId ≤ id) ∧
      ((c.apply op).1.toList ++ _).Pairwise (· < ·)
    cases given : (c.apply op).1 with
    | none => exact ⟨later, ascending⟩
    | some id =>
      obtain ⟨fresh, below⟩ := advances.issued id given
      refine ⟨?_, ?_⟩
      · intro id' mem
        rcases List.mem_cons.1 mem with rfl | mem
        · exact fresh
        · exact later id' mem
      · refine List.pairwise_cons.2 ⟨?_, ascending⟩
        intro id' mem
        exact Nat.lt_of_lt_of_le below (new id' mem)

theorem Consistent.orderly {l : Limits} {c : Cache} (h : c.Consistent) (bounded : c.Bounded l) :
    c.Orderly l where
  addr := h.addr
  page p id := by
    have listed : (∃ ids, c.byPage[p]? = some ids ∧ id ∈ ids) ↔ id ∈ c.byPage.getD p [] := by
      rw [ExtTreeMap.getD_eq_getD_getElem?]
      cases c.byPage[p]? <;> simp
    rw [listed, h.page]
    simp [Entry.covers, Block.pageNumbers]
  listed p ids found := by
    refine ⟨bounded.listed p ids found, ?_⟩
    have once := h.once p
    rwa [ExtTreeMap.getD_eq_getD_getElem?, found] at once
  use := h.use
  apart id id' e e' held held' same := by
    have found := (h.use e.lastUse id).2 ⟨e, held, rfl⟩
    rw [(h.use e.lastUse id').2 ⟨e', held', same.symm⟩] at found
    exact (Option.some.inj found).symm
  bytes := h.stock.bytes
  few := by
    have := bounded.size
    rw [bounded.maxBlocks, Nat.max_comm] at this
    exact this
  small := by
    rw [← bounded.maxCodeBytes]
    exact bounded.used
  checked := h.check_ok

/-- After any operations on a new cache, its tables and its arena are in step and within the limits, it
passes its own check, and no identity was given out twice. -/
theorem session_orderly (l : Limits) (ops : List Op) (fair : ∀ op ∈ ops, op.Fair) :
    ((ofLimits l).session ops).2.Orderly l ∧ ((ofLimits l).session ops).1.Nodup := by
  obtain ⟨consistent, bounded⟩ := session_keeps (consistent_ofLimits l) (bounded_ofLimits l) fair
  refine ⟨consistent.orderly bounded, ?_⟩
  exact ((ofLimits l).session_ascending ops).2.imp Nat.ne_of_lt

def trapAt (pc : Word) : Block :=
  { start := pc, stop := pc + 4
    insns := [{ addr := pc, word := 0xD, insn := .breakpoint 0, inDelaySlot := false }]
    terminator := .trap
    pages := [{ page := 0, version := 0 }] }

/-- Two traps in turn, in a cache with room for one. The first is pinned, invalidated and given back; the
second finds no room until then. -/
def tightOps : List Op :=
  let page : Region := { first := 0, count := 1, frame := 0, readOnly := false }
  let mem := ({ Memory.empty 4096 with used := 1, regions := [page] }.markCode 0).2
  let code : Translation := { code := List.replicate 20 default, spills := 0, clobbers := .empty }
  [.insert (trapAt 0) code mem, .pin 0, .insert (trapAt 4) code mem, .invalidatePage 0,
    .insert (trapAt 4) code mem, .unpin 0, .insert (trapAt 4) code mem, .lookup 4]

theorem session_orderly_tight :
    ((ofLimits ⟨0, 32⟩).session tightOps).1 = [0, 1] ∧
      ((ofLimits ⟨0, 32⟩).session tightOps).2.Orderly ⟨0, 32⟩ ∧
      ((ofLimits ⟨0, 32⟩).session tightOps).1.Nodup := by
  refine ⟨by decide +kernel, session_orderly ⟨0, 32⟩ tightOps ?_⟩
  have distinct (pc : Word) : (trapAt pc).pageNumbers.Nodup := by simp [trapAt, Block.pageNumbers]
  intro op mem
  simp only [tightOps, List.mem_cons, List.not_mem_nil, or_false] at mem
  obtain rfl | rfl | rfl | rfl | rfl | rfl | rfl | rfl := mem
  exacts [distinct 0, trivial, distinct 4, trivial, distinct 4, trivial, distinct 4, trivial]

end EmotionEngine.Cache
