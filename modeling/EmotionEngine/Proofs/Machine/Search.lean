import EmotionEngine.Machine.Run
import EmotionEngine.Proofs.Code.Correct
import EmotionEngine.Proofs.Machine.Fresh
import EmotionEngine.Proofs.Machine.Step

/-!
The search for a block. A core takes the block at an address from the cache, or builds it. A block that was
just built is current, and every block can be translated; so it comes into the cache, or finds no room there.
None is built only where nothing can be fetched.

Main statements: `Core.findBlock_sought` says all that a search comes to, and a step of a core keeps what is
shared fresh (`Core.step_proceeds`).
-/

namespace EmotionEngine

namespace Core

open Shared (Fresh Proceeds)

def build (c : Core) (pc : Word) (mem : Memory) : Except MemError Block × Memory :=
  Block.build mem c.config.maxBlockInsns c.breakpoints pc

theorem stalePage?_of_current {b : Block} {mem : Memory} (h : b.Current mem) :
    Cache.stalePage? b mem = none := by
  unfold Cache.stalePage?
  rw [Option.map_eq_none_iff, List.find?_eq_none]
  intro p hp
  obtain ⟨marked, version⟩ := h.pages p hp
  simp [marked, version]

theorem find_held {c : Cache} (h : c.Consistent) {id : BlockId} {e : Cache.Entry}
    (held : c.blocks[id]? = some e) (pin : Bool) :
    (c.find e.block.start pin).1 = some { id, block := e.block } := by
  unfold Cache.find
  rw [(h.addr _ id).2 ⟨e, held, rfl⟩]
  dsimp only
  rw [held]

/-- What becomes of a block that was just built: it finds no room and runs without, or it comes into the cache
with its translation and is pinned there. -/
inductive Placed (s : Shared) (b : Block) : Except CoreError (Option Runnable) × Shared → Prop where
  | uncached (cache : Cache) (keeps : s.cache.Keeps cache) :
    Placed s b (.ok (some (.uncached b)), { s with cache })
  | cached (t : Translation) (id : BlockId) (inserted pinned : Cache) (translated : b.translate = .ok t)
    (gains : s.cache.Gains inserted b t.code id) (keeps : inserted.Keeps pinned)
    (held : ∃ e : Cache.Entry, pinned.blocks[id]? = some e ∧ e.block = b) :
    Placed s b (.ok (some (.cached { id, block := b })), { s with cache := pinned })

theorem cacheBlock_placed {s : Shared} (h : s.Fresh) {b : Block} (current : b.Current s.mem)
    (distinct : b.pageNumbers.Nodup) : Placed s b (cacheBlock s b) := by
  obtain ⟨-, t, -, -, translated, -⟩ := Code.translate_ok b
  unfold cacheBlock
  rw [translated]
  dsimp only
  have inserted := Cache.insert_spec h.consistent distinct t s.mem
  revert inserted
  generalize s.cache.insert b t s.mem = result
  intro inserted
  cases inserted with
  | stale page stale =>
    rw [stalePage?_of_current current] at stale
    cases stale
  | full need pinned cache _ keeps => exact .uncached cache keeps
  | done id cache _ gains =>
    obtain ⟨e, held, block, -⟩ := gains.new
    have found := find_held gains.consistent held true
    have keeps := Cache.find_keeps gains.consistent b.start true
    rw [block] at found
    unfold Cache.pin
    dsimp only
    rw [found]
    exact .cached t id cache _ translated gains keeps (Cache.find_held (Prod.ext found rfl))

/-- The only way for a block not to be built is that nothing can be fetched at its entry. -/
theorem build_error {mem mem' : Memory} {limit : Nat} {stops : List Word} {entry : Word} {e : MemError}
    (failed : Block.build mem limit stops entry = (.error e, mem')) : e = .invalidAddress entry := by
  have fetch {m : Memory} {e : MemError} (failed : m.fetch entry = .error e) : e = .invalidAddress entry := by
    unfold Memory.fetch at failed
    dsimp only at failed
    split at failed
    · exact (Except.error.inj failed).symm
    · split at failed
      · exact (Except.error.inj failed).symm
      · cases failed
  unfold Block.build at failed
  split at failed
  · next e' st unfetched =>
    obtain ⟨same, -⟩ := Prod.mk.inj failed
    cases same
    unfold Block.Building.fetch at unfetched
    dsimp only at unfetched
    split at unfetched
    · exact fetch (Prod.mk.inj unfetched).1
    · split at unfetched
      · exact (Except.error.inj (Prod.mk.inj unfetched).1).symm
      · exact fetch (Prod.mk.inj unfetched).1
  · cases (Prod.mk.inj failed).1

/-- What the search for a block at an address comes to. -/
inductive Sought (c : Core) (pc : Word) (s : Shared) : Except CoreError (Option Runnable) × Shared → Prop where
  /-- The cache holds it. -/
  | hit (handle : Cache.Handle) {cache : Cache} {e : Cache.Entry} (keeps : s.cache.Keeps cache)
    (held : cache.blocks[handle.id]? = some e ∧ e.block = handle.block) (start : handle.block.start = pc) :
    Sought c pc s (.ok (some (.cached handle)), { s with cache })
  /-- It is built, and stays outside the cache. -/
  | loose {b : Block} {mem : Memory} {cache : Cache} (built : c.build pc s.mem = (.ok b, mem))
    (keeps : s.cache.Keeps cache) : Sought c pc s (.ok (some (.uncached b)), { s with mem, cache })
  /-- It is built, and comes into the cache. -/
  | stored {b : Block} {mem : Memory} {cache : Cache} {t : Translation} {id : BlockId}
    (built : c.build pc s.mem = (.ok b, mem)) (translated : b.translate = .ok t)
    (gains : s.cache.Gains cache b t.code id) :
    Sought c pc s (.ok (some (.cached { id, block := b })), { s with mem, cache })
  /-- There is none to build. -/
  | bare {e : MemError} {mem : Memory} {cache : Cache} (failed : c.build pc s.mem = (.error e, mem))
    (keeps : s.cache.Keeps cache) : Sought c pc s (.ok none, { s with mem, cache })

/-- Building a block, where the cache has been looked through in vain or not at all. -/
theorem prepare_sought (c : Core) (pc : Word) (left : Nat) {s : Shared} (h : s.Fresh) {cache : Cache}
    (keeps : s.cache.Keeps cache) : c.Sought pc s (c.prepare pc left { s with cache }) := by
  rw [prepare.eq_def]
  dsimp only
  split
  · next addr mem failed => exact .bare failed keeps
  · next e mem other failed => exact absurd (build_error failed) (other pc)
  · next b mem built =>
    split
    · exact .loose built keeps
    · -- A block that was just built is current, so it is not built again.
      obtain ⟨current, -, distinct⟩ := Block.build_spec h.sound built
      have placed := cacheBlock_placed ((h.build built).fresh.keep keeps).fresh current distinct
      generalize cacheBlock { s with mem, cache } b = result at placed
      cases placed with
      | uncached cache keeps' => exact .loose built (keeps.trans keeps')
      | cached t id inserted pinned translated gains keeps' held =>
        obtain ⟨e, held, -⟩ := held
        exact .stored built translated ((gains.before keeps' held).after keeps)

theorem findBlock_sought (c : Core) (pc : Word) {s : Shared} (h : s.Fresh) :
    c.Sought pc s (c.findBlock pc s) := by
  unfold findBlock
  split
  · exact c.prepare_sought pc _ h (.refl h.consistent)
  · have keeps := Cache.find_keeps h.consistent pc true
    unfold Cache.pin
    split
    · next handle cache found =>
      rw [found] at keeps
      obtain ⟨_, -, -, start⟩ := Cache.find_some h.consistent (congrArg Prod.fst found)
      obtain ⟨e, held⟩ := Cache.find_held found
      exact .hit handle keeps held start
    · next cache missed =>
      rw [missed] at keeps
      exact c.prepare_sought pc _ h keeps

theorem held_before {cache cache' : Cache} (keeps : cache.Keeps cache') {handle : Cache.Handle} {e : Cache.Entry}
    (held : cache'.blocks[handle.id]? = some e ∧ e.block = handle.block) :
    ∃ e : Cache.Entry, cache.blocks[handle.id]? = some e ∧ e.block = handle.block := by
  obtain ⟨e', before, same⟩ := keeps.within held.1
  exact ⟨e', before, same.block.trans held.2⟩

theorem findBlock_proceeds (c : Core) (pc : Word) {s : Shared} (h : s.Fresh) :
    Proceeds s (c.findBlock pc s).2 := by
  have sought := c.findBlock_sought pc h
  generalize c.findBlock pc s = result at sought
  cases sought with
  | hit _ keeps => exact h.keep keeps
  | loose built keeps | bare built keeps =>
    have first := h.build built
    exact first.trans (first.fresh.keep keeps)
  | stored built _ gains =>
    have first := h.build built
    exact first.trans (first.fresh.gain (Block.build_spec h.sound built).1 gains)

theorem execute_proceeds (c : Core) {s : Shared} (h : s.Fresh) (r : Runnable) :
    Proceeds s (c.execute s r).2.2 := by
  have ran := h.absorb (r.block.leads_run { cpu := c.cpu, mem := s.mem } h.sound)
  cases r with
  | uncached b => exact ran
  | cached handle => exact ran.trans (ran.fresh.keep (Cache.unpin_keeps ran.fresh.consistent handle.id))

/-- A step of a core keeps what is shared fresh. -/
theorem step_proceeds (c : Core) {s : Shared} (h : s.Fresh) : Proceeds s (c.step s).2.2 := by
  have found := c.passing.findBlock_proceeds c.cpu.pc h
  have stepped := c.step_stepped s
  generalize c.step s = result at stepped ⊢
  cases stepped with
  | stops | interrupts => exact .refl h
  | fails _ e | faults _ e => rwa [e] at found
  | @runs r s' _ e =>
    rw [e] at found
    rw [settle_shared]
    exact found.trans (c.passing.execute_proceeds found.fresh r)

end Core

end EmotionEngine
