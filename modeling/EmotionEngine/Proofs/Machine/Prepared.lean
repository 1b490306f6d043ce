import EmotionEngine.Proofs.Machine.Modes
import EmotionEngine.Proofs.Memory.Flat

/-!
Steps of a core whose cache is fit to be used. A step has many ways to fail: the block cannot be translated, the
cache finds itself corrupted, or an exception has no known code. None of them is taken: what the cache holds was
built and translated, its entry can be fetched, and whatever happens keeps it so (`Shared.Prepared`).

Main statement: `Core.step_succeeds`.
-/

namespace EmotionEngine

/-! ## Entries -/

namespace Memory

/-- An instruction can be fetched at an address. -/
structure Executable (m : Memory) (addr : Word) : Prop where
  aligned : addr.toNat % 4 = 0
  mapped : ∃ e, m.page? (pageOf (virtToPhys addr)) = some e

theorem Executable.evolve {m m' : Memory} {told : List Event} {addr : Word} (h : m.Executable addr)
    (evolves : m.Evolves m' told) : m'.Executable addr := by
  obtain ⟨e, found⟩ := h.mapped
  exact ⟨h.aligned, e, evolves.stays found⟩

/-- A page without RAM or ROM cannot be marked, and an instruction on it cannot be fetched. -/
theorem executable_of_mark {m : Memory} {addr w version : Word} {mem : Memory}
    (marked : m.markCode (pageOf (virtToPhys addr)) = (some version, mem)) (fetched : mem.fetch addr = .ok w) :
    m.Executable addr := by
  refine ⟨Block.aligned_of_fetch fetched, ?_⟩
  unfold markCode at marked
  split at marked
  · cases marked
  · next e found => exact ⟨e, found⟩

end Memory

namespace Block

variable {mem mem' : Memory} {limit : Nat} {stops : List Word} {entry : Word}

theorem executable_of_build {b : Block} (built : build mem limit stops entry = (.ok b, mem')) :
    mem.Executable entry := by
  unfold build at built
  split at built
  · cases (Prod.mk.inj built).1
  · next w st fetched =>
    unfold Building.fetch at fetched
    dsimp only at fetched
    rw [if_neg (by simp)] at fetched
    split at fetched
    · cases (Prod.mk.inj fetched).1
    · next version marked e => exact Memory.executable_of_mark e (Prod.mk.inj fetched).1

/-- No block can be built only where no instruction can be fetched. -/
theorem not_executable_of_build {e : MemError} (failed : build mem limit stops entry = (.error e, mem')) :
    ¬ mem.Executable entry := by
  rintro ⟨aligned, found, mapped⟩
  have fetched (code : Std.ExtTreeMap Nat CodeState) : ∃ w, Memory.fetch { mem with code } entry = .ok w := by
    unfold Memory.fetch
    dsimp only
    rw [show Memory.page? { mem with code } _ = some found from mapped]
    exact ⟨_, if_neg (by simp [aligned])⟩
  unfold build Building.fetch Memory.markCode at failed
  rw [if_neg (by simp), mapped] at failed
  dsimp only at failed
  obtain ⟨w, fetched⟩ := fetched (mem.code.insert _ _)
  rw [fetched] at failed
  cases (Prod.mk.inj failed).1

end Block

/-! ## What the cache holds -/

namespace Shared

/-- What makes a block in the cache fit to be entered. -/
structure Fit (s : Shared) (e : Cache.Entry) : Prop where
  formed : e.block.Formed
  entry : s.mem.Executable e.block.start
  /-- Its code is in the arena as it was translated. -/
  loaded : ∃ t, e.block.translate = .ok t ∧ s.cache.arena.read e.offset e.size = t.code

/-- What is shared is fresh, and all that is cached is fit to be entered. -/
structure Prepared (s : Shared) : Prop where
  fresh : s.Fresh
  fit : ∀ {id : BlockId} {e : Cache.Entry}, s.cache.blocks[id]? = some e → s.Fit e

theorem prepared_ofMemory (size : Nat) (board : Board) (limits : Cache.Limits) :
    (ofMemory (Memory.empty size board) limits).Prepared := by
  have none (id : BlockId) : (ofMemory (Memory.empty size board) limits).cache.blocks[id]? = none := by
    simp [ofMemory, Cache.ofLimits]
  refine ⟨⟨Memory.sound_empty size board, rfl, Cache.consistent_ofLimits limits, ?_⟩, ?_⟩
  all_goals
    intro id e held
    rw [none] at held
    cases held

theorem Prepared.proceed {s s' : Shared} (h : s.Prepared) (proceeds : s.Proceeds s')
    (keeps : s.cache.Keeps s'.cache) : s'.Prepared := by
  obtain ⟨told, -, evolves⟩ := proceeds.evolves
  refine ⟨proceeds.fresh, ?_⟩
  intro id e held
  obtain ⟨e', held', same⟩ := keeps.within held
  obtain ⟨formed, entry, t, translated, code⟩ := h.fit held'
  rw [same.block] at formed entry translated
  refine ⟨formed, entry.evolve evolves, t, translated, ?_⟩
  rw [keeps.read, ← same.offset, ← same.size]
  exact code

section
variable {s : Shared} (h : s.Prepared)
include h

theorem Prepared.keep {cache : Cache} (keeps : s.cache.Keeps cache) : Prepared { s with cache } :=
  h.proceed (h.fresh.keep keeps) keeps

theorem Prepared.absorb {mem : Memory} (leads : s.mem.Leads mem) : Prepared { s with mem }.absorb :=
  h.proceed (h.fresh.absorb leads) (Cache.notice_heard h.fresh.consistent mem.events).toKeeps

theorem Prepared.evolve {mem : Memory} (evolves : s.mem.Evolves mem []) (events : mem.events = s.mem.events) :
    Prepared { s with mem } :=
  h.proceed (h.fresh.evolve evolves events) (.refl h.fresh.consistent)

theorem Prepared.build {limit : Nat} {stops : List Word} {entry : Word} {r : Except MemError Block}
    {mem : Memory} (built : Block.build s.mem limit stops entry = (r, mem)) : Prepared { s with mem } :=
  h.proceed (h.fresh.build built) (.refl h.fresh.consistent)

theorem Prepared.gain {b : Block} (current : b.Current s.mem) (formed : b.Formed)
    (entry : s.mem.Executable b.start) {t : Translation} (translated : b.translate = .ok t) {cache : Cache}
    {id : BlockId} (gains : s.cache.Gains cache b t.code id) : Prepared { s with cache } := by
  refine ⟨(h.fresh.gain current gains).fresh, ?_⟩
  intro a e held
  obtain ⟨block, code⟩ | ⟨e', held', same, kept⟩ := gains.cases held
  · exact ⟨by rwa [block], by rwa [block], t, by rwa [block], code⟩
  · obtain ⟨formed', entry', t', translated', code⟩ := h.fit held'
    rw [same.block] at formed' entry' translated'
    refine ⟨formed', entry', t', translated', ?_⟩
    rw [← code, ← same.offset, ← same.size]
    exact kept

theorem Prepared.call (op : Memory.Op) : Prepared { s with mem := (s.mem.apply op).2 }.absorb := by
  have sound := h.fresh.sound
  -- A mapping tells nothing, so there is nothing to hear of it.
  have map {r : Except MemError Memory}
      (evolves : ∀ mem, r = .ok mem → s.mem.Evolves mem [] ∧ mem.events = s.mem.events) :
      Prepared { s with mem := (Memory.settle s.mem r).2 }.absorb := by
    cases r with
    | error e => exact h.absorb (.refl sound)
    | ok mem =>
      obtain ⟨evolves, events⟩ := evolves mem rfl
      exact (h.evolve evolves events).absorb (.refl evolves.sound)
  cases op with
  | mapRam base size => exact map fun _ mapped => Memory.evolves_mapRam sound mapped
  | mapRom base image => exact map fun _ mapped => Memory.evolves_mapRom sound mapped
  | mapDevice base size device => exact map fun _ mapped => Memory.evolves_mapDevice sound mapped
  | write w vaddr v => exact h.absorb ((Memory.pieces_write _ w vaddr v).leads sound)
  | writeBytes vaddr data => exact h.absorb ((Memory.pieces_writeBytes _ vaddr data).leads sound)
  | markCode page => exact h.absorb ⟨[], Memory.accesses_markCode sound page⟩
  | read w vaddr => exact h.absorb ((Memory.pieces_read _ w vaddr).leads sound)
  | readBytes vaddr n => exact h.absorb ((Memory.pieces_readBytes _ vaddr n).leads sound)

end

end Shared

/-! ## Steps -/

namespace Core

open Shared (Prepared)

/-- How the search for a block ends: with a block, which the cache holds if it is a cached one, or with none
where nothing can be fetched. -/
inductive Searched (pc : Word) (s : Shared) : Except CoreError (Option Runnable) × Shared → Prop where
  | block (r : Runnable) (s' : Shared) (entry : s.mem.Executable pc) (prepared : s'.Prepared)
    (held : ∀ h, r = .cached h → ∃ e : Cache.Entry, s'.cache.blocks[h.id]? = some e ∧ e.block = h.block) :
    Searched pc s (.ok (some r), s')
  | fault (s' : Shared) (bare : ¬ s.mem.Executable pc) (prepared : s'.Prepared) : Searched pc s (.ok none, s')

theorem findBlock_searched (c : Core) (pc : Word) {s : Shared} (h : s.Prepared) :
    Searched pc s (c.findBlock pc s) := by
  have sought := c.findBlock_sought pc h.fresh
  generalize c.findBlock pc s = result at sought
  cases sought with
  | @hit handle cache e keeps held start =>
    obtain ⟨e', before, block⟩ := held_before keeps held
    have entry := (h.fit before).entry
    rw [block, start] at entry
    refine .block (.cached handle) _ entry (h.keep keeps) ?_
    rintro _ ⟨⟩
    exact ⟨e, held⟩
  | loose built keeps =>
    exact .block (.uncached _) _ (Block.executable_of_build built) ((h.build built).keep keeps) nofun
  | @stored b mem cache t id built translated gains =>
    have entry := Block.executable_of_build built
    obtain ⟨current, start, -⟩ := Block.build_spec h.fresh.sound built
    have entry' : mem.Executable b.start := by
      rw [start]
      exact entry.evolve (Block.build_accesses h.fresh.sound built).toEvolves
    have gained := (h.build built).gain current (Block.build_formed built) entry' translated gains
    refine .block (.cached { id, block := b }) _ entry gained ?_
    rintro handle ⟨⟩
    obtain ⟨e, held, block, -⟩ := gains.new
    exact ⟨e, held, block⟩
  | bare failed keeps =>
    exact .fault _ (Block.not_executable_of_build failed) ((h.build failed).keep keeps)

end Core

namespace Block

theorem raises_known (b : Block) (g : Guest) (raised : (b.run g).1 = .exception) :
    ∃ code, ExcCode.ofNat? (b.run g).2.cpu.excCode.toNat = some code := by
  obtain ⟨code, recorded⟩ := (b.run_spec g).2 raised
  exact ⟨code, by rw [recorded, ExcCode.ofNat?_toWord]⟩

end Block

namespace Core

open Shared (Prepared)

/-- What every step is: it returns an outcome, leaves register 0 alone and what is shared prepared. -/
structure Succeeds (c : Core) (r : Except CoreError StepOutcome × Core × Shared) : Prop where
  ok : ∃ o, r.1 = .ok o
  zero : r.2.1.cpu.regQuad 0 = c.cpu.regQuad 0
  prepared : r.2.2.Prepared

/-- Where nothing can be fetched, the guest gets an instruction bus error. -/
theorem stepBlock_unfetched {c : Core} {s : Shared} (h : s.Prepared) (bare : ¬ s.mem.Executable c.cpu.pc) :
    (c.stepBlock s).1 =
      .ok (.exception .instructionBus c.cpu.pc false (c.config.exceptionPolicy = .vector)) := by
  have searched := c.findBlock_searched c.cpu.pc h
  generalize result : c.findBlock c.cpu.pc s = r at searched
  cases searched with
  | block r s' entry prepared held => exact absurd entry bare
  | fault s' _ prepared =>
    have recorded : (c.fetchFault c.cpu.pc).cpu.excCode = ExcCode.instructionBus.toWord := rfl
    obtain ⟨cpu, taken, -⟩ := takeException_known recorded
    rw [stepBlock_of_fault result, taken]
    rfl

theorem execute_prepared (c : Core) {s : Shared} (h : s.Prepared) (r : Runnable) :
    (c.execute s r).2.2.Prepared := by
  have ran := h.absorb (r.block.leads_run { cpu := c.cpu, mem := s.mem } h.fresh.sound)
  cases r with
  | uncached b => exact ran
  | cached handle => exact ran.keep (Cache.unpin_keeps ran.fresh.consistent handle.id)

/-- A step of any core succeeds. -/
theorem step_succeeds (c : Core) {s : Shared} (h : s.Prepared) : c.Succeeds (c.step s) := by
  have searched := c.passing.findBlock_searched c.cpu.pc h
  have stepped := c.step_stepped s
  generalize c.step s = result at stepped ⊢
  cases stepped with
  | stops => exact ⟨⟨_, rfl⟩, rfl, h⟩
  | interrupts => exact ⟨⟨_, rfl⟩, enterException_zero _ _ _ _, h⟩
  | fails _ e =>
    rw [e] at searched
    cases searched
  | faults _ e =>
    rw [e] at searched
    cases searched with
    | fault s' bare prepared =>
      have recorded : (c.passing.fetchFault c.cpu.pc).cpu.excCode = ExcCode.instructionBus.toWord := rfl
      obtain ⟨cpu, taken, zero⟩ := takeException_known recorded
      rw [taken]
      exact ⟨⟨_, rfl⟩, zero, prepared⟩
  | @runs r s' _ e =>
    rw [e] at searched
    cases searched with
    | block _ _ entry prepared held =>
      obtain ⟨-, -, zero, raised⟩ := c.passing.execute_known s' r
      obtain ⟨o, cpu, settled, zero'⟩ := settle_known (c.passing.execute s' r).2.2 raised
      rw [settled]
      exact ⟨⟨o, rfl⟩, zero'.trans zero, c.passing.execute_prepared prepared r⟩

end Core

end EmotionEngine
