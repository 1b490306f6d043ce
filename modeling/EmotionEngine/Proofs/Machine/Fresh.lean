import EmotionEngine.Machine.Basic
import EmotionEngine.Proofs.Block.Current
import EmotionEngine.Proofs.Cache.Insert

/-!
What cores share is fresh if every block in the cache is as memory has it (`Shared.Fresh`). The builder
marks a page before it reads from it, memory reports every write to a marked page, the cache drops what was
reported, and it refuses a block whose pages have another version by now. So whatever is done with what is
shared, it stays fresh, and memory changes in step with what the log says (`Shared.Proceeds`).
-/

namespace EmotionEngine

namespace Shared

/-- Memory has told all there is to tell, and every cached block is as memory has it. -/
structure Fresh (s : Shared) : Prop where
  sound : s.mem.Sound
  quiet : s.mem.events = #[]
  consistent : s.cache.Consistent
  current : ∀ {id : BlockId} {e : Cache.Entry}, s.cache.blocks[id]? = some e → e.block.Current s.mem

/-- `s'` is fresh, and memory has changed in step with what the log says. -/
structure Proceeds (s s' : Shared) : Prop where
  fresh : s'.Fresh
  evolves : ∃ told, s'.log.toList = s.log.toList ++ told ∧ s.mem.Evolves s'.mem told

theorem Proceeds.refl {s : Shared} (h : s.Fresh) : Proceeds s s :=
  ⟨h, [], by simp, .refl h.sound⟩

theorem Proceeds.trans {s s' s'' : Shared} (h : Proceeds s s') (h' : Proceeds s' s'') : Proceeds s s'' := by
  obtain ⟨told, log, evolves⟩ := h.evolves
  obtain ⟨told', log', evolves'⟩ := h'.evolves
  refine ⟨h'.fresh, told ++ told', ?_, evolves.trans evolves'⟩
  rw [log', log, List.append_assoc]

section
variable {s : Shared} (h : s.Fresh)
include h

theorem Fresh.absorb {mem : Memory} (leads : s.mem.Leads mem) : Proceeds s { s with mem }.absorb := by
  obtain ⟨told, accesses⟩ := leads
  have events : mem.events.toList = told := by
    rw [accesses.events, h.quiet]
    rfl
  have heard := Cache.notice_heard h.consistent mem.events
  have evolves : s.mem.Evolves { mem with events := #[] } told :=
    ⟨accesses.sound.of_regions rfl rfl, accesses.stays, accesses.version, accesses.marked, accesses.bytes⟩
  refine ⟨⟨evolves.sound, rfl, heard.consistent, ?_⟩, told, ?_, evolves⟩
  · intro id e held
    obtain ⟨e', held', same⟩ := heard.within held
    rw [← same.block]
    apply (h.current held').evolve evolves
    -- A block of a page that was written has been dropped.
    intro p covers written
    rw [← events] at written
    rw [same.block] at covers
    exact heard.rest written held covers
  · rw [← events]
    exact Array.toList_append

theorem Fresh.evolve {mem : Memory} (evolves : s.mem.Evolves mem []) (events : mem.events = s.mem.events) :
    Proceeds s { s with mem } := by
  refine ⟨⟨evolves.sound, events.trans h.quiet, h.consistent, ?_⟩, [], by simp, evolves⟩
  intro id e held
  exact (h.current held).evolve evolves (by simp)

theorem Fresh.keep {cache : Cache} (keeps : s.cache.Keeps cache) : Proceeds s { s with cache } := by
  refine ⟨⟨h.sound, h.quiet, keeps.consistent, ?_⟩, [], by simp, .refl h.sound⟩
  intro id e held
  obtain ⟨e', held', same⟩ := keeps.within held
  rw [← same.block]
  exact h.current held'

theorem Fresh.gain {b : Block} (current : b.Current s.mem) {cache : Cache} {code : List Host.CodeByte}
    {id : BlockId} (gains : s.cache.Gains cache b code id) : Proceeds s { s with cache } := by
  refine ⟨⟨h.sound, h.quiet, gains.consistent, ?_⟩, [], by simp, .refl h.sound⟩
  intro a e held
  obtain ⟨block, -⟩ | ⟨e', held', same, -⟩ := gains.cases held
  · rw [block]
    exact current
  · rw [← same.block]
    exact h.current held'

/-- Inserting a block: it may be outdated, as long as the cache can tell. -/
theorem Fresh.insert {b : Block} (distinct : b.pageNumbers.Nodup)
    (current : Cache.stalePage? b s.mem = none → b.Current s.mem) (t : Translation) :
    Proceeds s { s with cache := (s.cache.insert b t s.mem).2 } := by
  have inserted := Cache.insert_spec h.consistent distinct t s.mem
  revert inserted
  generalize s.cache.insert b t s.mem = r
  intro inserted
  cases inserted with
  | stale page stale => exact .refl h
  | full need pinned cache fits keeps => exact h.keep keeps
  | done id cache fits gains => exact h.gain (current fits) gains

theorem Fresh.build {limit : Nat} {stops : List Word} {entry : Word} {r : Except MemError Block}
    {mem : Memory} (built : Block.build s.mem limit stops entry = (r, mem)) : Proceeds s { s with mem } := by
  have accesses := Block.build_accesses h.sound built
  apply h.evolve accesses.toEvolves
  apply Array.toList_inj.1
  rw [accesses.events, List.append_nil]

end

end Shared

end EmotionEngine
