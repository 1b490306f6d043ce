import EmotionEngine.Proofs.Machine.Search

/-!
Cores that have a cache to themselves. As long as nothing is mapped and the core's breakpoints stay, every
block in the cache is the one that would be built again now, without any change to memory, and its code
lies in the arena as it was translated (`Ready`). So it makes no difference whether a block is found in the
cache, is built and cached, or is built and finds no room: `findBlock_found`.
-/

namespace EmotionEngine

namespace Shared

/-- What is shared is fresh; building a cached block again, with this limit and these stops, gives the same
block and changes nothing; and the code of a cached block is its translation. -/
structure Ready (limit : Nat) (stops : List Word) (s : Shared) : Prop where
  fresh : s.Fresh
  again : ∀ {id : BlockId} {e : Cache.Entry}, s.cache.blocks[id]? = some e →
    Block.build s.mem limit stops e.block.start = (.ok e.block, s.mem)
  loaded : ∀ {id : BlockId} {e : Cache.Entry}, s.cache.blocks[id]? = some e →
    ∃ t, e.block.translate = .ok t ∧ s.cache.arena.read e.offset e.size = t.code

theorem Fresh.ready {s : Shared} (h : s.Fresh) (empty : ∀ id : BlockId, s.cache.blocks[id]? = none)
    (limit : Nat) (stops : List Word) : Ready limit stops s := by
  refine ⟨h, ?_, ?_⟩
  · intro id e held
    rw [empty] at held
    cases held
  · intro id e held
    rw [empty] at held
    cases held

section
variable {limit : Nat} {stops : List Word} {s : Shared} (h : Ready limit stops s)
include h

theorem Ready.keep {cache : Cache} (keeps : s.cache.Keeps cache) : Ready limit stops { s with cache } := by
  refine ⟨(h.fresh.keep keeps).fresh, ?_, ?_⟩
  · intro id e held
    obtain ⟨e', held', same⟩ := keeps.within held
    rw [← same.block]
    exact h.again held'
  · intro id e held
    obtain ⟨e', held', same⟩ := keeps.within held
    obtain ⟨t, translated, code⟩ := h.loaded held'
    refine ⟨t, by rw [← same.block, translated], ?_⟩
    rw [← same.offset, ← same.size, ← code]
    exact keeps.read _ _

theorem Ready.absorb {mem : Memory} (leads : s.mem.Leads mem) : Ready limit stops { s with mem }.absorb := by
  have fresh := (h.fresh.absorb leads).fresh
  obtain ⟨told, accesses⟩ := leads
  have events : mem.events.toList = told := by
    rw [accesses.events, h.fresh.quiet]
    rfl
  have heard := Cache.notice_heard h.fresh.consistent mem.events
  have evolves : s.mem.Evolves { mem with events := #[] } told :=
    ⟨accesses.sound.of_regions rfl rfl, accesses.stays, accesses.version, accesses.marked, accesses.bytes⟩
  refine ⟨fresh, ?_, ?_⟩
  · intro id e held
    obtain ⟨e', held', same⟩ := heard.within held
    have again := h.again held'
    rw [same.block] at again
    apply Block.build_again h.fresh.sound again evolves accesses.regions
    intro p covers written
    rw [← events] at written
    exact heard.rest written held covers
  · exact (h.keep heard.toKeeps).loaded

theorem Ready.build {entry : Word} {r : Except MemError Block} {mem : Memory}
    (built : Block.build s.mem limit stops entry = (r, mem)) : Ready limit stops { s with mem } := by
  have accesses := Block.build_accesses h.fresh.sound built
  refine ⟨(h.fresh.build built).fresh, ?_, h.loaded⟩
  intro id e held
  exact Block.build_again h.fresh.sound (h.again held) accesses.toEvolves accesses.regions (by simp)

theorem Ready.gain {b : Block} {t : Translation} (built : Block.build s.mem limit stops b.start = (.ok b, s.mem))
    (translated : b.translate = .ok t) {cache : Cache} {id : BlockId}
    (gains : s.cache.Gains cache b t.code id) : Ready limit stops { s with cache } := by
  have current := (Block.build_spec h.fresh.sound built).1
  refine ⟨(h.fresh.gain current gains).fresh, ?_, ?_⟩
  · intro a e held
    obtain ⟨block, -⟩ | ⟨e', held', same, -⟩ := gains.cases held
    · rw [block]
      exact built
    · rw [← same.block]
      exact h.again held'
  · intro a e held
    obtain ⟨block, code⟩ | ⟨e', held', same, kept⟩ := gains.cases held
    · exact ⟨t, by rw [block, translated], code⟩
    · obtain ⟨t', translated', code⟩ := h.loaded held'
      refine ⟨t', by rw [← same.block, translated'], ?_⟩
      rw [← code, ← same.offset, ← same.size]
      exact kept

end

end Shared

namespace Core

open Shared (Ready)

/-- What is ready for a core. -/
def Serves (c : Core) (s : Shared) : Prop := Ready c.config.maxBlockInsns c.breakpoints s

/-- How the search for a block ends: with the block that is built from memory as it was, or with the fault
if none can be built; and memory is as building leaves it. -/
inductive Found (c : Core) (pc : Word) (s : Shared) : Except CoreError (Option Runnable) × Shared → Prop where
  | block (r : Runnable) (s' : Shared) (built : c.build pc s.mem = (.ok r.block, s'.mem))
    (serves : c.Serves s') (log : s'.log = s.log) : Found c pc s (.ok (some r), s')
  | fault (e : MemError) (s' : Shared) (failed : c.build pc s.mem = (.error e, s'.mem))
    (serves : c.Serves s') (log : s'.log = s.log) : Found c pc s (.ok none, s')

/-- However a block is found, it is the one that is built from memory. -/
theorem findBlock_found (c : Core) (pc : Word) {s : Shared} (h : c.Serves s) :
    c.Found pc s (c.findBlock pc s) := by
  have sought := c.findBlock_sought pc h.fresh
  generalize c.findBlock pc s = result at sought
  cases sought with
  | hit handle keeps held start =>
    obtain ⟨e, before, block⟩ := held_before keeps held
    have again := h.again before
    rw [block, start] at again
    exact .block (.cached handle) _ again (h.keep keeps) rfl
  | loose built keeps => exact .block (.uncached _) _ built ((h.build built).keep keeps) rfl
  | @stored b mem cache t id built translated gains =>
    have ready := h.build built
    have again : Block.build mem c.config.maxBlockInsns c.breakpoints b.start = (.ok b, mem) := by
      rw [(Block.build_spec h.fresh.sound built).2.1]
      exact Block.build_again h.fresh.sound built (.refl ready.fresh.sound) rfl (by simp)
    exact .block (.cached { id, block := b }) _ built (ready.gain again translated gains) rfl
  | bare failed keeps => exact .fault _ _ failed ((h.build failed).keep keeps) rfl

end Core

end EmotionEngine
