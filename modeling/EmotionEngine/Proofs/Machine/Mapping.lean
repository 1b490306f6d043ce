import EmotionEngine.Proofs.Block.Units
import EmotionEngine.Proofs.Machine.History
import EmotionEngine.Proofs.Machine.Modes

/-!
Mappings and the cache. A block that ends because the next instruction could not be fetched depends on a
page that was not mapped. Such a page can be neither marked nor written, so nobody hears of it when it is
mapped later, and the block goes on raising an exception that is no longer one. Histories whose mappings
spare the addresses of such blocks are the ones where this does not happen.

Main statement: in such a history every cached block that ends in a failed fetch would still fail, and a
step never raises an exception for an instruction that could be fetched (`History.careful_coherent`).
-/

namespace EmotionEngine

/-! ## Mappings and fetches -/

namespace Memory

/-- An address lies in `size` bytes from `base`. -/
def Within (base size : Nat) (addr : Word) : Prop := base ≤ virtToPhys addr ∧ virtToPhys addr < base + size

instance (base size : Nat) (addr : Word) : Decidable (Within base size addr) :=
  inferInstanceAs (Decidable (_ ∧ _))

/-- A mapping of `size` bytes from `base`: what lies within is mapped now, and all else is as it was. -/
structure Admits (m : Memory) (base size : Nat) (m' : Memory) : Prop where
  inside : ∀ {addr : Word}, Within base size addr → m'.page? (pageOf (virtToPhys addr)) ≠ none
  outside : ∀ {addr : Word}, ¬Within base size addr →
    m'.page? (pageOf (virtToPhys addr)) = m.page? (pageOf (virtToPhys addr))

theorem mapFrames_admits {m m' : Memory} {base size frame : Nat} {readOnly : Bool}
    (h : m.mapFrames base size readOnly = .ok (frame, m')) : Admits m base size m' := by
  unfold mapFrames at h
  split at h
  · cases h
  · next free =>
    obtain ⟨-, aligned, whole, -⟩ := (checkRegion_ok free).1
    dsimp only at h
    split at h
    · cases h
    · cases h
      have covers (addr : Word) : Region.covers
          { first := base / pageSize, count := size / pageSize, frame := m.used, readOnly }
          (pageOf (virtToPhys addr)) = true ↔ Within base size addr := by
        unfold Region.covers Within pageOf
        rw [Bool.and_eq_true, decide_eq_true_eq, decide_eq_true_eq]
        rw [show pageSize = 4096 from rfl] at *
        dsimp only
        omega
      refine ⟨?_, ?_⟩
      · intro addr within
        rw [page?_cons, if_pos ((covers addr).2 within)]
        nofun
      · intro addr outside
        rw [page?_cons, if_neg (fun c => outside ((covers addr).1 c))]

theorem mapRam_admits {m m' : Memory} {base size : Nat} (h : m.mapRam base size = .ok m') :
    Admits m base size m' := by
  unfold mapRam at h
  cases mapped : m.mapFrames base size false with
  | error e =>
    rw [mapped] at h
    cases h
  | ok r =>
    rw [mapped] at h
    cases h
    exact mapFrames_admits mapped

theorem mapRom_admits {m m' : Memory} {base : Nat} {image : List Byte} (h : m.mapRom base image = .ok m') :
    Admits m base (romSize image) m' := by
  unfold mapRom at h
  split at h
  · cases h
  · next frame mapped e =>
    cases h
    have admits := mapFrames_admits e
    refine ⟨?_, ?_⟩
    · intro addr within
      rw [storeBytes_page?]
      exact admits.inside within
    · intro addr outside
      rw [storeBytes_page?]
      exact admits.outside outside

/-- An aligned address can be fetched if its page is mapped. -/
theorem fetch_fails_iff {m : Memory} {addr : Word} (aligned : addr.toNat % 4 = 0) :
    (∃ e, m.fetch addr = .error e) ↔ m.page? (pageOf (virtToPhys addr)) = none := by
  unfold fetch
  dsimp only
  cases m.page? (pageOf (virtToPhys addr)) with
  | none => exact ⟨fun _ => rfl, fun _ => ⟨_, rfl⟩⟩
  | some e =>
    dsimp only
    rw [if_neg (by simp [aligned])]
    simp

end Memory

/-! ## Failed fetches -/

namespace Block

/-- What a block that ends in a failed fetch rests on: the page is not mapped. -/
def Barred (b : Block) (mem : Memory) : Prop :=
  ∀ addr branchPc, b.terminator = .fetchFault addr branchPc →
    addr.toNat % 4 = 0 ∧ mem.page? (pageOf (virtToPhys addr)) = none ∧ ∀ pc, branchPc = some pc → addr = pc + 4

theorem Barred.of_regions {b : Block} {mem mem' : Memory} (h : b.Barred mem)
    (regions : mem'.regions = mem.regions) : b.Barred mem' := by
  intro addr branchPc ends
  obtain ⟨aligned, unmapped, slot⟩ := h addr branchPc ends
  refine ⟨aligned, ?_, slot⟩
  unfold Memory.page? at unmapped ⊢
  rw [regions, unmapped]

theorem Barred.fails {b : Block} {mem : Memory} (h : b.Barred mem) {addr : Word} {branchPc : Option Word}
    (ends : b.terminator = .fetchFault addr branchPc) : ∃ e, mem.fetch addr = .error e := by
  obtain ⟨aligned, unmapped, -⟩ := h addr branchPc ends
  exact (Memory.fetch_fails_iff aligned).2 unmapped

theorem Follows.barred {st : Building} {pc : Word} {is : List DecodedInsn} {t : Terminator}
    (follows : Follows st pc is t) {addr : Word} {branchPc : Option Word} (ends : t = .fetchFault addr branchPc) :
    addr.toNat % 4 = 0 ∧ st.mem.page? (pageOf (virtToPhys addr)) = none ∧
      ∀ pc, branchPc = some pc → addr = pc + 4 := by
  have next {pc word : Word} (known : st.Knows pc word) : (pc + 4).toNat % 4 = 0 := by
    have aligned := aligned_of_fetch known.1
    have sum : (pc + 4).toNat = (pc.toNat + 4) % 4294967296 := BitVec.toNat_add pc 4
    omega
  induction follows with
  | branch known slot known' ok =>
    rw [ends] at ok
    cases ok
  | last known plain ok =>
    rw [ends] at ok
    cases ok
  | cut known slot failed =>
    cases ends
    exact ⟨next known, (Memory.fetch_fails_iff (next known)).1 ⟨_, failed⟩, fun pc same => by cases same; rfl⟩
  | fault known plain failed =>
    cases ends
    exact ⟨next known, (Memory.fetch_fails_iff (next known)).1 ⟨_, failed⟩, nofun⟩
  | more known plain follows ih => exact ih ends

theorem build_barred {mem mem' : Memory} (sound : mem.Sound) {limit : Nat} {stops : List Word} {entry : Word}
    {b : Block} (built : build mem limit stops entry = (.ok b, mem')) : b.Barred mem' := by
  intro addr branchPc ends
  exact (build_follows sound built).2.1.barred ends

theorem toWord_instructionBus {code : ExcCode} (h : code.toWord = ExcCode.instructionBus.toWord) :
    code = .instructionBus := by
  revert h
  cases code <;> decide

theorem execAll_fetched (g : Guest) (is : List DecodedInsn) (raised : (g.execAll is).1 = some .exception) :
    (g.execAll is).2.cpu.excCode ≠ ExcCode.instructionBus.toWord := by
  induction is generalizing g with
  | nil => cases raised
  | cons i rest ih =>
    have fetched := (g.exec_leaves i).fetched
    unfold Guest.execAll at raised ⊢
    generalize g.exec i = r at fetched raised ⊢
    obtain ⟨flow, h⟩ := r
    cases flow with
    | next => exact ih h raised
    | fault code => exact fun same => fetched (congrArg Flow.fault (toWord_instructionBus same))
    | skipDelaySlot | redirect | codeModified => cases raised

theorem leave_exception {b : Block} {g : Guest} (raised : (g.leave b).1 = .exception) :
    ∃ addr branchPc, b.terminator = .fetchFault addr branchPc ∧
      (g.leave b).2 = g.unfetched addr branchPc := by
  unfold Guest.leave at raised
  split at raised
  · next addr branchPc ends => exact ⟨addr, branchPc, ends, Guest.leave_unfetched ends g⟩
  · split at raised
    · cases raised
    · dsimp only at raised
      split at raised <;> cases raised

/-- A block raises an instruction bus error only where it ends in a failed fetch. -/
theorem run_instructionBus {b : Block} {g : Guest} (raised : (b.run g).1 = .exception)
    (code : (b.run g).2.cpu.excCode = ExcCode.instructionBus.toWord) :
    ∃ addr branchPc, b.terminator = .fetchFault addr branchPc ∧ (b.run g).2.cpu.pc = branchPc.getD addr ∧
      (b.run g).2.cpu.excDelaySlot = branchPc.isSome := by
  have fetched := execAll_fetched (g.enter b) b.insns
  unfold run at raised code ⊢
  generalize (g.enter b).execAll b.insns = r at fetched raised code ⊢
  obtain ⟨_ | exit, h⟩ := r
  · obtain ⟨addr, branchPc, ends, left⟩ := leave_exception raised
    dsimp only
    rw [left]
    exact ⟨addr, branchPc, ends, rfl, rfl⟩
  · exact absurd code (fetched (congrArg some raised))

end Block

/-! ## What cores share -/

namespace Shared

/-- Every failed fetch that a cached block ends in would fail now. -/
def Barred (s : Shared) : Prop :=
  ∀ {id : BlockId} {e : Cache.Entry}, s.cache.blocks[id]? = some e → e.block.Barred s.mem

/-- Nothing was mapped, and failed fetches are what they were. -/
structure Retains (s s' : Shared) : Prop where
  regions : s'.mem.regions = s.mem.regions
  barred : s.Barred → s'.Barred

theorem Retains.refl (s : Shared) : Retains s s := ⟨rfl, id⟩

theorem Retains.trans {s s' s'' : Shared} (h : Retains s s') (h' : Retains s' s'') : Retains s s'' :=
  ⟨h'.regions.trans h.regions, fun barred => h'.barred (h.barred barred)⟩

theorem retains_mem (s : Shared) {mem : Memory} (regions : mem.regions = s.mem.regions) :
    Retains s { s with mem } := by
  refine ⟨regions, ?_⟩
  intro barred id e held
  exact (barred held).of_regions regions

theorem retains_keep (s : Shared) {cache : Cache} (keeps : s.cache.Keeps cache) : Retains s { s with cache } := by
  refine ⟨rfl, ?_⟩
  intro barred id e held
  obtain ⟨e', held', same⟩ := keeps.within held
  rw [← same.block]
  exact barred held'

theorem Fresh.retains_absorb {s : Shared} (h : s.Fresh) {mem : Memory} (leads : s.mem.Leads mem) :
    Retains s { s with mem }.absorb := by
  obtain ⟨told, accesses⟩ := leads
  have heard := Cache.notice_heard h.consistent mem.events
  have changed : Retains s { s with mem := { mem with events := #[] } } := s.retains_mem accesses.regions
  refine ⟨changed.regions, ?_⟩
  intro barred id e held
  obtain ⟨e', held', same⟩ := heard.within held
  rw [← same.block]
  exact changed.barred barred held'

/-- A block comes into the cache that ends in a failed fetch only where it would fail. -/
theorem retains_gain (s : Shared) {b : Block} (own : b.Barred s.mem) {cache : Cache} {code : List Host.CodeByte}
    {id : BlockId} (gains : s.cache.Gains cache b code id) : Retains s { s with cache } := by
  refine ⟨rfl, ?_⟩
  intro barred a e held
  obtain ⟨block, -⟩ | ⟨e', held', same, -⟩ := gains.cases held
  · rw [block]
    exact own
  · rw [← same.block]
    exact barred held'

theorem Fresh.retains_insert {s : Shared} (h : s.Fresh) {b : Block} (distinct : b.pageNumbers.Nodup)
    (own : b.Barred s.mem) (t : Translation) :
    Retains s { s with cache := (s.cache.insert b t s.mem).2 } := by
  have inserted := Cache.insert_spec h.consistent distinct t s.mem
  revert inserted
  generalize s.cache.insert b t s.mem = r
  intro inserted
  cases inserted with
  | stale page stale => exact .refl s
  | full need pinned cache fits keeps => exact s.retains_keep keeps
  | done id cache fits gains => exact s.retains_gain own gains

end Shared

namespace Core

open Shared (Fresh Retains)

theorem findBlock_retains (c : Core) (pc : Word) {s : Shared} (h : s.Fresh) :
    Retains s (c.findBlock pc s).2 := by
  have opened {r : Except MemError Block} {mem : Memory} (built : c.build pc s.mem = (r, mem)) :
      Retains s { s with mem } := s.retains_mem (Block.build_accesses h.sound built).regions
  have sought := c.findBlock_sought pc h
  generalize c.findBlock pc s = result at sought
  cases sought with
  | hit _ keeps => exact s.retains_keep keeps
  | loose built keeps | bare built keeps => exact (opened built).trans (Shared.retains_keep _ keeps)
  | @stored b mem _ _ _ built _ gains =>
    have own : b.Barred mem := Block.build_barred h.sound built
    exact (opened built).trans (Shared.retains_gain { s with mem } own gains)

theorem execute_retains (c : Core) {s : Shared} (h : s.Fresh) (r : Runnable) :
    Retains s (c.execute s r).2.2 := by
  have leads := r.block.leads_run { cpu := c.cpu, mem := s.mem } h.sound
  have ran := h.retains_absorb leads
  cases r with
  | uncached b => exact ran
  | cached handle =>
    exact ran.trans (Shared.retains_keep _ (Cache.unpin_keeps (h.absorb leads).fresh.consistent handle.id))

/-- A step of a core maps nothing, and the blocks that it caches end in failed fetches only where
fetches fail. -/
theorem step_retains (c : Core) {s : Shared} (h : s.Fresh) : Retains s (c.step s).2.2 := by
  have found := c.passing.findBlock_retains c.cpu.pc h
  have fresh := (c.passing.findBlock_proceeds c.cpu.pc h).fresh
  have stepped := c.step_stepped s
  generalize c.step s = result at stepped ⊢
  cases stepped with
  | stops | interrupts => exact .refl s
  | fails _ e | faults _ e => rwa [e] at found
  | @runs r s' _ e =>
    rw [e] at found fresh
    rw [settle_shared]
    exact found.trans (c.passing.execute_retains fresh r)

theorem takeException_reports {c : Core} {code : ExcCode} {pc : Word} {slot vectored : Bool}
    (taken : c.takeException.1 = .ok (.exception code pc slot vectored)) :
    ExcCode.ofNat? c.cpu.excCode.toNat = some code ∧ c.cpu.pc = pc ∧ c.cpu.excDelaySlot = slot := by
  have takes := c.takeException_takes
  generalize c.takeException = result at takes taken
  cases takes with
  | unknown number => cases taken
  | vectors number policy | halts number policy =>
    cases taken
    exact ⟨number, rfl, rfl⟩

/-- A cached block that raises an instruction bus error does so for an instruction that cannot be
fetched. -/
theorem execute_instructionBus {c : Core} {s : Shared} {r : Runnable} (own : r.block.Barred s.mem) {pc : Word}
    {slot vectored : Bool}
    (raised : (settle (c.execute s r)).1 = .ok (.exception .instructionBus pc slot vectored)) :
    ∃ e, s.mem.fetch (if slot then pc + 4 else pc) = .error e := by
  obtain ⟨exit, core, -, -⟩ := c.execute_eq s r
  obtain ⟨-, recorded⟩ := r.block.run_spec { cpu := c.cpu, mem := s.mem }
  generalize ran : c.execute s r = result at raised exit core
  obtain ⟨x, c', s'⟩ := result
  dsimp only at exit core
  have excepted : x = .exception := by
    cases x with
    | exception => rfl
    | _ => cases raised
  subst excepted
  obtain ⟨found, rfl, rfl⟩ := takeException_reports raised
  obtain ⟨code, recorded⟩ := recorded exit.symm
  obtain ⟨-, same, pc, slot⟩ := advanceCount_spec
    (r.block.run { cpu := c.cpu, mem := s.mem }).2.cpu (BitVec.ofNat 32 r.block.icount)
  rw [core] at found ⊢
  dsimp only at found ⊢
  rw [pc, slot]
  rw [same, recorded, show ExcCode.ofNat? code.toWord.toNat = some code by cases code <;> rfl] at found
  cases found
  obtain ⟨addr, branchPc, ends, pc', slot'⟩ := Block.run_instructionBus exit.symm recorded
  rw [pc', slot']
  have failed := own.fails ends
  obtain ⟨-, -, branch⟩ := own addr branchPc ends
  cases branchPc with
  | none => exact failed
  | some p =>
    rw [branch p rfl] at failed
    exact failed

/-- A step at a cached block raises an instruction bus error only for an instruction that cannot be
fetched. -/
theorem step_instructionBus {c : Core} {s : Shared} (h : s.Fresh) (barred : s.Barred)
    (jit : c.config.execMode = .jit) {id : BlockId} {e : Cache.Entry} (held : s.cache.blocks[id]? = some e)
    (here : e.block.start = c.cpu.pc) {pc : Word} {slot vectored : Bool}
    (raised : (c.step s).1 = .ok (.exception .instructionBus pc slot vectored)) :
    ∃ err, s.mem.fetch (if slot then pc + 4 else pc) = .error err := by
  rw [step_eq] at raised
  split at raised
  · cases raised
  · split at raised
    · cases raised
    · have found : c.passing.findBlock c.passing.cpu.pc s =
          (.ok (some (.cached { id, block := e.block })), { s with cache := (s.cache.pin c.cpu.pc).2 }) := by
        have pinned : (s.cache.pin c.cpu.pc).1 = some { id, block := e.block } := by
          rw [← here]
          exact find_held h.consistent held true
        unfold findBlock
        rw [show c.passing.config.execMode = .jit from jit, show c.passing.cpu.pc = c.cpu.pc from rfl]
        generalize s.cache.pin c.cpu.pc = r at pinned ⊢
        obtain ⟨handle, cache⟩ := r
        cases pinned
        rfl
      rw [stepBlock_of_block found] at raised
      exact execute_instructionBus (s := { s with cache := (s.cache.pin c.cpu.pc).2 })
        (r := .cached { id, block := e.block }) (barred held) raised

end Core

/-! ## Histories -/

namespace History

/-- Every cached block that ends in a failed fetch ends where a fetch fails. -/
def Coherent (s : History) : Prop :=
  ∀ (id : BlockId) (e : Cache.Entry) (addr : Word) (branchPc : Option Word),
    s.shared.cache.blocks[id]? = some e → e.block.terminator = .fetchFault addr branchPc →
      ∃ err, s.shared.mem.fetch addr = .error err

/-- A step of a core that translates, at a cached block, raises an instruction bus error only for an
instruction that cannot be fetched. -/
def Truthful (s : History) : Prop :=
  ∀ (c : Core) (id : BlockId) (e : Cache.Entry), c.config.execMode = .jit →
    s.shared.cache.blocks[id]? = some e → e.block.start = c.cpu.pc →
    ∀ (pc : Word) (slot vectored : Bool),
      (c.step s.shared).1 = .ok (.exception .instructionBus pc slot vectored) →
        ∃ err, s.shared.mem.fetch (if slot then pc + 4 else pc) = .error err

/-- No cached block misses an instruction in `size` bytes from `base`. -/
def CacheSpared (s : History) (base size : Nat) : Prop :=
  ∀ (id : BlockId) (e : Cache.Entry) (addr : Word) (branchPc : Option Word),
    s.shared.cache.blocks[id]? = some e → e.block.terminator = .fetchFault addr branchPc →
      ¬Memory.Within base size addr

/-- No block that waits to be inserted misses an instruction in `size` bytes from `base`. -/
def WaitingSpared (s : History) (base size : Nat) : Prop :=
  ∀ b ∈ s.built, ∀ (addr : Word) (branchPc : Option Word), b.block.terminator = .fetchFault addr branchPc →
    ¬Memory.Within base size addr

/-- A mapping spares what the blocks miss that are cached or wait; all else may happen. -/
def Spares (s : History) : Action → Prop
  | .mapRam base size => s.CacheSpared base size ∧ s.WaitingSpared base size
  | .mapRom base image =>
    s.CacheSpared base (Memory.romSize image) ∧ s.WaitingSpared base (Memory.romSize image)
  | _ => True

/-- The histories whose mappings spare what blocks miss. -/
inductive Careful (start : History) : History → Prop where
  | start : Careful start start
  | act {s : History} (a : Action) (h : Careful start s) (allowed : s.Allows a) (spares : s.Spares a) :
    Careful start (s.act a)

theorem Careful.reachable {start s : History} (h : Careful start s) : Reachable start s := by
  induction h with
  | start => exact .start
  | act a _ allowed _ ih => exact ih.act a allowed

/-- What careful histories keep: a fetch that failed when a block was built still fails. -/
structure Barred (s : History) : Prop where
  cached : s.shared.Barred
  waiting : ∀ b ∈ s.built, b.block.Barred s.shared.mem

section
variable {s : History} (h : s.Barred)
include h

theorem Barred.retain {sh : Shared} (retains : s.shared.Retains sh) : (s.withShared sh).Barred :=
  ⟨retains.barred h.cached, fun b hb => (h.waiting b hb).of_regions retains.regions⟩

theorem Barred.map {base size : Nat} (spares : s.CacheSpared base size ∧ s.WaitingSpared base size)
    {r : Except MemError Memory} (admits : ∀ mem, r = .ok mem → s.shared.mem.Admits base size mem) :
    (s.mapped r).Barred := by
  cases r with
  | error e => exact h
  | ok mem =>
    have kept {b : Block} (own : b.Barred s.shared.mem) (spared : ∀ addr branchPc,
        b.terminator = .fetchFault addr branchPc → ¬Memory.Within base size addr) : b.Barred mem := by
      intro addr branchPc ends
      obtain ⟨aligned, unmapped, slot⟩ := own addr branchPc ends
      refine ⟨aligned, ?_, slot⟩
      rw [(admits mem rfl).outside (spared addr branchPc ends), unmapped]
    refine ⟨?_, ?_⟩
    · intro id e held
      exact kept (h.cached held) (fun addr branchPc => spares.1 id e addr branchPc held)
    · intro b hb
      exact kept (h.waiting b hb) (spares.2 b hb)

/-- A mapping keeps the cache coherent just if it spares what cached blocks miss. -/
theorem Barred.coherent_mapped_iff {base size : Nat} {mem : Memory}
    (admits : s.shared.mem.Admits base size mem) :
    (s.mapped (.ok mem)).Coherent ↔ s.CacheSpared base size := by
  have fails {id : BlockId} {e : Cache.Entry} {addr : Word} {branchPc : Option Word}
      (held : s.shared.cache.blocks[id]? = some e) (ends : e.block.terminator = .fetchFault addr branchPc) :
      (∃ err, mem.fetch addr = .error err) ↔ ¬Memory.Within base size addr := by
    obtain ⟨aligned, unmapped, -⟩ := h.cached held addr branchPc ends
    rw [Memory.fetch_fails_iff aligned]
    refine ⟨fun none within => admits.inside within none, ?_⟩
    intro outside
    rw [admits.outside outside, unmapped]
  refine ⟨?_, ?_⟩
  · intro coherent id e addr branchPc held ends
    exact (fails held ends).1 (coherent id e addr branchPc held ends)
  · intro spared id e addr branchPc held ends
    exact (fails held ends).2 (spared id e addr branchPc held ends)

theorem Barred.mapDevice (base size : Nat) (device : Device) : (s.act (.mapDevice base size device)).Barred := by
  unfold History.act
  dsimp only
  cases mapped : s.shared.mem.mapDevice base size device with
  | error e => exact h
  | ok mem =>
    have regions : mem.regions = s.shared.mem.regions := by
      unfold Memory.mapDevice at mapped
      split at mapped
      · cases mapped
      · dsimp only at mapped
        split at mapped
        · cases mapped
        · cases mapped
          rfl
    exact h.retain (s.shared.retains_mem regions)

theorem Barred.step (sane : s.Sane) (core : Nat) : (s.act (.step core)).Barred := by
  rw [act_step]
  cases s.machine.cores[core]? with
  | none => exact h
  | some c =>
    have retains := c.step_retains sane.fresh
    exact ⟨retains.barred h.cached, fun b hb => (h.waiting b hb).of_regions retains.regions⟩

theorem Barred.build (sane : s.Sane) (limit : Nat) (stops : List Word) (entry : Word) :
    (s.act (.build limit stops entry)).Barred := by
  unfold act
  dsimp only
  split
  · next block mem built =>
    have kept := h.retain (s.shared.retains_mem (Block.build_accesses sane.fresh.sound built).regions)
    refine ⟨kept.cached, ?_⟩
    intro b hb
    rcases List.mem_append.1 hb with old | new
    · exact kept.waiting b old
    · rw [List.mem_singleton] at new
      rw [new]
      exact Block.build_barred sane.fresh.sound built
  · next e mem built =>
    exact h.retain (s.shared.retains_mem (Block.build_accesses sane.fresh.sound built).regions)

theorem Barred.insert (sane : s.Sane) (which : Nat) (t : Translation) : (s.act (.insert which t)).Barred := by
  unfold act
  dsimp only
  split
  · next b found =>
    have waits := List.mem_of_getElem? found
    exact h.retain (sane.fresh.retains_insert (sane.tracked b waits).distinct (h.waiting b waits) t)
  · exact h

theorem Barred.act (sane : s.Sane) (a : Action) (spares : s.Spares a) : (s.act a).Barred := by
  have fresh := sane.fresh
  cases a with
  | step core => exact h.step sane core
  | setCore core c => exact ⟨h.cached, h.waiting⟩
  | build limit stops entry => exact h.build sane limit stops entry
  | insert which t => exact h.insert sane which t
  | invalidatePage page => exact h.retain (s.shared.retains_keep (Cache.invalidatePage_keeps fresh.consistent page))
  | flush => exact h.retain (s.shared.retains_keep (Cache.flush_keeps fresh.consistent))
  | markCode page => exact h.retain (s.shared.retains_mem (Memory.accesses_markCode fresh.sound page).regions)
  | mapRam base size => exact h.map spares (fun _ mapped => Memory.mapRam_admits mapped)
  | mapRom base image => exact h.map spares (fun _ mapped => Memory.mapRom_admits mapped)
  | mapDevice base size device => exact h.mapDevice base size device
  | write w vaddr v => exact h.retain (fresh.retains_absorb ((Memory.pieces_write _ w vaddr v).leads fresh.sound))
  | writeBytes vaddr data =>
    exact h.retain (fresh.retains_absorb ((Memory.pieces_writeBytes _ vaddr data).leads fresh.sound))

end

theorem start_barred (size : Nat) (limits : Cache.Limits) (cores : List Core) (board : Board) :
    (start size limits cores board).Barred := by
  refine ⟨?_, nofun⟩
  intro id e held
  simp [start, shared, Shared.ofMemory, Cache.ofLimits] at held

theorem careful_barred {size : Nat} {limits : Cache.Limits} {cores : List Core} {board : Board} {s : History}
    (h : Careful (start size limits cores board) s) : s.Barred := by
  induction h with
  | start => exact start_barred size limits cores board
  | act a h _ spares ih => exact ih.act (h.reachable.sane (start_sane size limits cores board)) a spares

/-- As long as mappings spare what blocks miss, the cache is coherent with them: cached blocks end in failed
fetches only where fetches fail, and steps raise instruction bus errors only there. A mapping that
succeeds next keeps it so just if it spares what cached blocks miss. -/
theorem careful_coherent {size : Nat} {limits : Cache.Limits} {cores : List Core} {board : Board} {s : History}
    (h : Careful (start size limits cores board) s) :
    s.Coherent ∧ s.Truthful ∧
      (∀ base size mem, s.shared.mem.mapRam base size = .ok mem →
        ((s.act (.mapRam base size)).Coherent ↔ s.CacheSpared base size)) ∧
      ∀ base image mem, s.shared.mem.mapRom base image = .ok mem →
        ((s.act (.mapRom base image)).Coherent ↔ s.CacheSpared base (Memory.romSize image)) := by
  have fresh := (h.reachable.sane (start_sane size limits cores board)).fresh
  have barred := careful_barred h
  refine ⟨?_, ?_, ?_, ?_⟩
  · intro id e addr branchPc held ends
    exact (barred.cached held).fails ends
  · intro c id e jit held here pc slot vectored raised
    exact Core.step_instructionBus fresh barred.cached jit held here raised
  · intro base size mem mapped
    show (s.mapped (s.shared.mem.mapRam base size)).Coherent ↔ _
    rw [mapped]
    exact barred.coherent_mapped_iff (Memory.mapRam_admits mapped)
  · intro base image mem mapped
    show (s.mapped (s.shared.mem.mapRom base image)).Coherent ↔ _
    rw [mapped]
    exact barred.coherent_mapped_iff (Memory.mapRom_admits mapped)

/-- A core at the last word of page 0, which reports exceptions. -/
def brinkCore : Core := { cpu := { Cpu.new with pc := 0xFFC }, config := { exceptionPolicy := .halt } }

/-- There is only page 0. The core meets a branch whose slot cannot be fetched. -/
def brinkHistory : History :=
  [.mapRam 0 4096, .write .word 0xFFC 0x10000000, .step 0].foldl act (start 8192 {} [brinkCore])

theorem careful_brink : Careful (start 8192 {} [brinkCore]) brinkHistory := by
  have mapped : Careful (start 8192 {} [brinkCore]) ((start 8192 {} [brinkCore]).act (.mapRam 0 4096)) := by
    refine .act (.mapRam 0 4096) .start trivial ⟨?_, nofun⟩
    intro id e addr branchPc held
    simp [start, shared, Shared.ofMemory, Cache.ofLimits] at held
  have written := mapped.act (.write .word 0xFFC 0x10000000) trivial trivial
  exact written.act (.step 0) trivial trivial

theorem brink_cached :
    ∃ e, brinkHistory.shared.cache.blocks[0]? = some e ∧ e.block.start = 0xFFC ∧
      e.block.terminator = .fetchFault 0x1000 (some 0xFFC) := by
  have held : (brinkHistory.shared.cache.blocks[0]?).any (fun e =>
      e.block.start = 0xFFC ∧ e.block.terminator = .fetchFault 0x1000 (some 0xFFC)) = true := by
    decide +kernel
  obtain ⟨e, held, same⟩ := (Option.any_eq_true _ _).1 held
  exact ⟨e, held, of_decide_eq_true same⟩

theorem brink_mapRam : ∃ mem, brinkHistory.shared.mem.mapRam 0x1000 0x1000 = .ok mem := by
  have done : (brinkHistory.shared.mem.mapRam 0x1000 0x1000).toOption.isSome := by decide +kernel
  cases mapped : brinkHistory.shared.mem.mapRam 0x1000 0x1000 with
  | error e =>
    rw [mapped] at done
    cases done
  | ok mem => exact ⟨mem, rfl⟩

/-- The block of the branch waits for page 1, and all is well until that is mapped. -/
theorem careful_coherent_brink :
    Careful (start 8192 {} [brinkCore]) brinkHistory ∧ brinkHistory.Coherent ∧ brinkHistory.Truthful ∧
      ((brinkHistory.act (.mapRam 0x1000 0x1000)).Coherent ↔ brinkHistory.CacheSpared 0x1000 0x1000) ∧
      ¬brinkHistory.CacheSpared 0x1000 0x1000 := by
  obtain ⟨coherent, truthful, ram, -⟩ := careful_coherent careful_brink
  obtain ⟨mem, mapped⟩ := brink_mapRam
  obtain ⟨e, held, -, ends⟩ := brink_cached
  refine ⟨careful_brink, coherent, truthful, ram 0x1000 0x1000 mem mapped, ?_⟩
  intro spared
  exact spared 0 e 0x1000 (some 0xFFC) held ends (by decide)

/-- Page 1 is mapped then. The slot of the branch can be fetched, but the core raises the exception for it
again. -/
theorem mapping_incoherent :
    Reachable (start 8192 {} [brinkCore]) (brinkHistory.act (.mapRam 0x1000 0x1000)) ∧
      ¬(brinkHistory.act (.mapRam 0x1000 0x1000)).Coherent ∧
      ¬(brinkHistory.act (.mapRam 0x1000 0x1000)).Truthful := by
  have fetched : (brinkHistory.act (.mapRam 0x1000 0x1000)).shared.mem.fetch 0x1000 = .ok 0 := by
    decide +kernel
  have raised : (brinkCore.step (brinkHistory.act (.mapRam 0x1000 0x1000)).shared).1 =
      .ok (.exception .instructionBus 0xFFC true false) := by
    decide +kernel
  obtain ⟨mem, mapped⟩ := brink_mapRam
  obtain ⟨e, held, here, ends⟩ := brink_cached
  have held' : (brinkHistory.act (.mapRam 0x1000 0x1000)).shared.cache.blocks[0]? = some e := by
    show (brinkHistory.mapped (brinkHistory.shared.mem.mapRam 0x1000 0x1000)).shared.cache.blocks[0]? = _
    rw [mapped]
    exact held
  refine ⟨careful_brink.reachable.act (.mapRam 0x1000 0x1000) trivial, ?_, ?_⟩
  · intro coherent
    obtain ⟨err, failed⟩ := coherent 0 e 0x1000 (some 0xFFC) held' ends
    rw [fetched] at failed
    cases failed
  · intro truthful
    obtain ⟨err, failed⟩ := truthful brinkCore 0 e rfl held' here 0xFFC true false raised
    rw [show (if true then (0xFFC : Word) + 4 else 0xFFC) = 0x1000 from rfl, fetched] at failed
    cases failed

end History

end EmotionEngine
