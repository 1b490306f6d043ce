import EmotionEngine.Proofs.Cache.Pins
import EmotionEngine.Proofs.Machine.Dispatch

/-!
Pins are balanced. A step takes at most one pin, on the block that it runs, and gives it back; in between
the block may be overwritten, by itself or with others of its page, and is then set aside until the pin
comes back. So a step leaves every pin as it found it, whoever holds it, and whichever way the step ends.

`Cache.Lends` says which pin is out between two moments, and has one lemma per operation of a cache; the
functions of a step are put together from them.

Main statement: `Machine.session_unburdened`. Where no pin is out, none is ever left behind: after each
step of each core no block is pinned, no code is set aside, and the bytes in use are those of the blocks.
-/

namespace EmotionEngine

namespace Cache

/-- `c'` comes from `c` with one more pin on the block `out`, or with no more pin if there is none. The count of
pins on a block wraps; it is not to be at its limit. -/
structure Lends (c : Cache) (out : Option BlockId) (c' : Cache) : Prop where
  holding : c'.Holding
  pins : ∀ id, c.pinsOf id + 1 < twoPow 32 → c'.pinsOf id = c.pinsOf id + if out = some id then 1 else 0

section
variable {c c' c'' : Cache} {out : Option BlockId}

theorem Lends.refl (h : c.Holding) : Lends c none c := ⟨h, by simp⟩

theorem Lends.trans (first : Lends c none c') (later : Lends c' out c'') : Lends c out c'' := by
  refine ⟨later.holding, fun id below => ?_⟩
  have same := first.pins id below
  rw [if_neg nofun, Nat.add_zero] at same
  rw [later.pins id (by rwa [same]), same]

theorem Lends.drop {log : List Traffic} (h : Lends c out c') (drops : Drops c' log c'') : Lends c out c'' :=
  ⟨drops.holding, fun id below => (drops.pins id).trans (h.pins id below)⟩

theorem pin_lends (h : c.Holding) (pc : Word) : Lends c ((c.pin pc).1.map Handle.id) (c.pin pc).2 := by
  obtain ⟨gives, pins⟩ := find_gives h pc true
  refine ⟨gives.holding, fun id below => ?_⟩
  by_cases found : (c.find pc true).1.map Handle.id = some id
  · simp [pin, pins, found, Nat.mod_eq_of_lt below]
  · simp [pin, pins, found]

/-- The pin that was lent comes back, from a block that may have been set aside by now. -/
theorem Lends.unpin {id : BlockId} (h : Lends c (some id) c') : Lends c none (c'.unpin id) := by
  obtain ⟨⟨log, gives⟩, pins⟩ := unpin_gives h.holding id
  refine ⟨gives.holding, fun a below => ?_⟩
  have lent := h.pins a below
  rw [pins]
  by_cases own : a = id
  · subst own
    simp [lent]
  · simp [own, Ne.symm own, lent]

theorem insert_lends (h : c.Holding) (b : Block) (t : Translation) (mem : Memory) :
    Lends c none (c.insert b t mem).2 := by
  obtain ⟨log, c', drops, stopped | ⟨offset, arena, placed, entered⟩⟩ := insert_cases h b t mem
  · rw [stopped]
    exact (Lends.refl h).drop drops
  · obtain ⟨holding, -, pins⟩ := enter_takes drops.holding b t placed
    rw [entered]
    refine ⟨holding, fun id _ => ?_⟩
    rw [pins, drops.pins]
    simp

theorem Lends.invalidatePage (h : Lends c out c') (page : Nat) : Lends c out (c'.invalidatePage page).2 := by
  obtain ⟨log, drops⟩ := removeAll_drops h.holding (c'.byPage.getD page [])
  exact h.drop (drops.counts _)

theorem Lends.flush (h : Lends c out c') : Lends c out c'.flush := by
  obtain ⟨log, drops⟩ := removeAll_drops h.holding c'.blocks.keys
  exact h.drop (drops.counts _)

/-- Hearing of written pages removes blocks, the pinned one among them or not. -/
theorem Lends.notice (h : Lends c out c') (events : Array Event) : Lends c out (c'.notice events) := by
  unfold Cache.notice
  rw [← Array.foldl_toList]
  induction events.toList generalizing c' with
  | nil => exact h
  | cons event rest ih =>
    rw [List.foldl_cons]
    cases event with
    | codeWritten page => exact ih (h.invalidatePage page)
    | deviceRead _ _ _ => exact ih h
    | deviceWrite _ _ _ _ => exact ih h

end

end Cache

/-! ## Steps -/

namespace Core

open Cache (Lends Holding)

/-- The block that the search for a block leaves pinned. -/
def lent : Except CoreError (Option Runnable) → Option BlockId
  | .ok (some (.cached h)) => some h.id
  | _ => none

theorem cacheBlock_lends {s : Shared} (h : s.cache.Holding) (b : Block) :
    Lends s.cache (lent (cacheBlock s b).1) (cacheBlock s b).2.cache := by
  unfold cacheBlock
  split
  · exact .refl h
  · next t _ =>
    have inserted := Cache.insert_lends h b t s.mem
    generalize s.cache.insert b t s.mem = r at inserted
    obtain ⟨e | handle, cache⟩ := r
    · cases e <;> exact inserted
    · have pinned := inserted.trans (Cache.pin_lends inserted.holding b.start)
      dsimp only at pinned ⊢
      generalize cache.pin b.start = r at pinned
      obtain ⟨found | found, cache'⟩ := r <;> exact pinned

theorem prepare_lends (c : Core) (pc : Word) (left : Nat) {s : Shared} (h : s.cache.Holding) :
    Lends s.cache (lent (c.prepare pc left s).1) (c.prepare pc left s).2.cache := by
  -- Building leaves the cache alone; what follows is `cacheBlock`, once for each attempt.
  fun_induction prepare c pc left s with
  | case1 => exact .refl h
  | case2 => exact .refl h
  | case3 => exact .refl h
  | case4 _ s b mem built s' mode _ s'' cached | case5 _ s b mem built s' mode _ s'' cached
  | case6 s b mem built s' mode s'' cached =>
    have stored := cacheBlock_lends (s := s') h b
    rwa [cached] at stored
  | case7 s b mem built s' mode s'' cached left ih =>
    have stored := cacheBlock_lends (s := s') h b
    rw [cached] at stored
    exact stored.trans (ih stored.holding)

theorem findBlock_lends (c : Core) (pc : Word) {s : Shared} (h : s.cache.Holding) :
    Lends s.cache (lent (c.findBlock pc s).1) (c.findBlock pc s).2.cache := by
  unfold findBlock
  split
  · exact c.prepare_lends pc _ h
  · have pinned := Cache.pin_lends h pc
    generalize s.cache.pin pc = r at pinned
    obtain ⟨found | handle, cache⟩ := r
    · exact pinned.trans (c.prepare_lends pc _ (s := { s with cache }) pinned.holding)
    · exact pinned

/-- Executing a block gives back the pin that was taken to find it. -/
theorem execute_lends {cache : Cache} {s : Shared} {r : Runnable}
    (h : Lends cache (lent (.ok (some r))) s.cache) (c : Core) :
    Lends cache none (c.execute s r).2.2.cache := by
  cases r with
  | uncached b => exact h.notice _
  | cached handle => exact (h.notice _).unpin

/-- However a step ends, it leaves the pins on every block as they were. -/
theorem step_lends (c : Core) {s : Shared} (h : s.cache.Holding) :
    Lends s.cache none (c.step s).2.2.cache := by
  have found := c.passing.findBlock_lends c.cpu.pc h
  have stepped := c.step_stepped s
  generalize c.step s = result at stepped ⊢
  cases stepped with
  | stops | interrupts => exact .refl h
  | fails _ e | faults _ e => rwa [e] at found
  | runs _ e =>
    rw [e] at found
    rw [settle_shared]
    exact execute_lends found c.passing

end Core

/-! ## Machines -/

namespace Machine

open Cache (Lends)

variable {m : Machine}

theorem change_lends (h : m.shared.cache.Holding) (core : Nat) {f : Core → Shared → Core × Shared}
    (lends : ∀ c, Lends m.shared.cache none (f c m.shared).2.cache) :
    Lends m.shared.cache none (m.change core f).shared.cache := by
  rw [change_eq]
  cases m.cores[core]? with
  | none => exact .refl h
  | some c => exact lends c

theorem apply_lends (h : m.shared.cache.Holding) (op : Op) :
    Lends m.shared.cache none (m.apply op).2.shared.cache := by
  have kept := Lends.refl h
  cases op with
  | step core =>
    rw [apply_step]
    cases m.cores[core]? with
    | none => exact kept
    | some c => exact c.step_lends h
  | call op => exact kept.notice _
  | addBreakpoint core pc =>
    refine change_lends h core fun c => ?_
    unfold Core.addBreakpoint
    split
    · exact kept
    · exact kept.flush
  | reset core => exact change_lends h core fun _ => kept.flush
  | invalidatePage page => exact kept.invalidatePage page
  | flush => exact kept.flush
  | removeBreakpoint core _ | raiseLine core _ | clearLine core _ | requestStop core | setPc core _
  | edit core _ => exact change_lends h core fun _ => kept

theorem session_lends (h : m.shared.cache.Holding) (ops : List Op) :
    Lends m.shared.cache none (m.session ops).2.shared.cache := by
  induction ops generalizing m with
  | nil => exact .refl h
  | cons op rest ih =>
    have first := apply_lends h op
    exact first.trans (ih first.holding)

end Machine

namespace Cache

/-- Nothing is pinned, nothing is set aside, and the bytes in use are those of the indexed blocks. -/
structure Unburdened (c : Cache) : Prop where
  unpinned : ∀ (id : BlockId) (e : Entry), c.blocks[id]? = some e → e.pins = 0
  cleared : c.retired = ∅
  bytes : c.arena.used = total Entry.share c.blocks

theorem Holding.unburdened {c : Cache} (h : c.Holding) (unpinned : ∀ id, c.pinsOf id = 0) : c.Unburdened := by
  have cleared : c.retired = ∅ := by
    apply Std.ExtTreeMap.ext_getElem?
    intro id
    cases aside : c.retired[id]? with
    | none => simp
    | some r =>
      have absent : c.blocks[id]? = none := by
        cases held : c.blocks[id]? with
        | none => rfl
        | some e =>
          rw [h.apart held] at aside
          cases aside
      have pins : c.pinsOf id = r.pins.toNat := by simp [pinsOf, absent, aside]
      have some := BitVec.lt_def.1 (h.pinned aside)
      rw [← pins, unpinned id] at some
      cases some
  refine ⟨fun id e held => ?_, cleared, ?_⟩
  · have pins : c.pinsOf id = e.pins.toNat := by simp [pinsOf, held]
    exact BitVec.eq_of_toNat_eq (pins.symm.trans (unpinned id))
  · rw [h.stock.bytes, cleared, total_empty, Nat.add_zero]

end Cache

namespace Machine

/-- Steps leave no pins and no code set aside behind. Whatever clients have done with the cache, as long as
they have taken back their pins: after any steps of any cores, in any order and between any calls on the
memory, flushes and changes of breakpoints, nothing is pinned, nothing is set aside, and the arena holds the
code of the indexed blocks and no more. -/
theorem session_unburdened {l : Cache.Limits} {k : Cache.Ledger} {m : Machine}
    (reached : Cache.Reached l k m.shared.cache) (unpinned : ∀ id, k.pins id = 0) (ops : List Op) :
    (m.session ops).2.shared.cache.Unburdened := by
  obtain ⟨log, audited⟩ := reached.audited
  have lends := session_lends audited.holding ops
  apply lends.holding.unburdened
  intro id
  have none : m.shared.cache.pinsOf id = 0 := Nat.eq_zero_of_le_zero (unpinned id ▸ audited.behind id)
  rw [lends.pins id (by rw [none]; decide), none]
  rfl

/-- A page of RAM with a store that overwrites itself, which a core runs into. -/
def selfStoreOps : List Op :=
  [.call (.mapRam 0 4096), .call (.write .word 0 0xAC000000), .call (.write .word 4 0xD), .setPc 0 0, .step 0]

/-- The block is invalidated while it runs, under the pin of the step; its code has gone back. -/
theorem session_unburdened_selfStore :
    let ran := (start 4096 ⟨1, 4096⟩ [{}]).session selfStoreOps
    ran.2.shared.cache.counts.inserts = 1 ∧ ran.2.shared.cache.counts.invalidations = 1 ∧
      ran.2.shared.cache.Unburdened :=
  ⟨by decide +kernel, by decide +kernel,
    session_unburdened (l := ⟨1, 4096⟩) (k := {}) .new (fun _ => rfl) selfStoreOps⟩

end Machine

end EmotionEngine
