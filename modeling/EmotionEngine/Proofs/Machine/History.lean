import EmotionEngine.Proofs.Machine.Search

/-!
Histories of a machine: steps of its cores mixed in any order with what the outside does to the memory and
the cache that they share. Blocks may be built long before they are inserted, and the cores themselves may
be changed at will between steps.

The version of a page is a counter of 32 bits. A block is inserted only while none of its pages has been
written as often as that since it was built (`History.Allows`); then an unchanged version means that the
page is unchanged.

Main statement: at no time does the cache hold a block that memory does not have word for word
(`History.reachable_current`).
-/

namespace EmotionEngine

/-- A block that was built, and how much had been logged by then. -/
structure BuiltBlock where
  block : Block
  since : Nat

/-- A machine and the blocks built from its memory so far. -/
structure History where
  machine : Machine
  built : List BuiltBlock

namespace History

/-- What can happen to a machine. -/
inductive Action where
  /-- A step of one core. -/
  | step (core : Nat)
  /-- A core is changed from outside. -/
  | setCore (core : Nat) (c : Core)
  | build (limit : Nat) (stops : List Word) (entry : Word)
  /-- One of the blocks built so far is inserted, with any code. -/
  | insert (which : Nat) (t : Translation)
  | invalidatePage (page : Nat)
  | flush
  | markCode (page : Nat)
  | mapRam (base size : Nat)
  | mapRom (base : Nat) (image : List Byte)
  | mapDevice (base size : Nat) (device : Device)
  | write (w : Width) (vaddr : Word) (v : Quad)
  | writeBytes (vaddr : Word) (data : List Byte)

def start (size : Nat) (limits : Cache.Limits) (cores : List Core) (board : Board := .probes) : History :=
  { machine := { shared := Shared.ofMemory (Memory.empty size board) limits, cores }, built := [] }

def shared (s : History) : Shared := s.machine.shared

def withShared (s : History) (shared : Shared) : History :=
  { s with machine := { s.machine with shared } }

def mapped (s : History) : Except MemError Memory → History
  | .ok mem => s.withShared { s.shared with mem }
  | .error _ => s

/-- What was told since a block was built. -/
def told (s : History) (b : BuiltBlock) : List Event := s.shared.log.toList.drop b.since

def act (s : History) : Action → History
  | .step core =>
    match s.machine.step core with
    | some (_, machine) => { s with machine }
    | none => s
  | .setCore core c => { s with machine := { s.machine with cores := s.machine.cores.set core c } }
  | .build limit stops entry =>
    match Block.build s.shared.mem limit stops entry with
    | (.ok block, mem) =>
      { s.withShared { s.shared with mem } with
        built := s.built ++ [{ block, since := s.shared.log.size }] }
    | (.error _, mem) => s.withShared { s.shared with mem }
  | .insert which t =>
    match s.built[which]? with
    | some b => s.withShared { s.shared with cache := (s.shared.cache.insert b.block t s.shared.mem).2 }
    | none => s
  | .invalidatePage page => s.withShared { s.shared with cache := (s.shared.cache.invalidatePage page).2 }
  | .flush => s.withShared { s.shared with cache := s.shared.cache.flush }
  | .markCode page => s.withShared { s.shared with mem := (s.shared.mem.markCode page).2 }
  | .mapRam base size => s.mapped (s.shared.mem.mapRam base size)
  | .mapRom base image => s.mapped (s.shared.mem.mapRom base image)
  | .mapDevice base size device => s.mapped (s.shared.mem.mapDevice base size device)
  | .write w vaddr v => s.withShared { s.shared with mem := (s.shared.mem.write w vaddr v).2 }.absorb
  | .writeBytes vaddr data =>
    s.withShared { s.shared with mem := (s.shared.mem.writeBytes vaddr data).2 }.absorb

theorem act_step (s : History) (core : Nat) :
    s.act (.step core) =
      match s.machine.cores[core]? with
      | some c => { s with machine :=
          { shared := (c.step s.shared).2.2, cores := s.machine.cores.set core (c.step s.shared).2.1 } }
      | none => s := by
  unfold act Machine.step Machine.onCore shared
  dsimp only
  cases s.machine.cores[core]? <;> rfl

/-- A block may be inserted while the versions of its pages have not come full circle since it was
built; all else may happen at any time. -/
def Allows (s : History) : Action → Prop
  | .insert which _ =>
    ∀ b, s.built[which]? = some b → ∀ p ∈ b.block.pageNumbers,
      (s.told b).count (.codeWritten p) < twoPow 32
  | _ => True

/-- The histories that can come about. -/
inductive Reachable (start : History) : History → Prop where
  | start : Reachable start start
  | act {s : History} (a : Action) (h : Reachable start s) (allowed : s.Allows a) :
    Reachable start (s.act a)

/-! ## Blocks that wait -/

/-- What is known of a block that was built some time ago: the versions of its pages have gone up with
every report since, and without any report the block is current. -/
structure Tracked (s : Shared) (b : BuiltBlock) : Prop where
  earlier : b.since ≤ s.log.toList.length
  distinct : b.block.pageNumbers.Nodup
  version : ∀ p ∈ b.block.pages, s.mem.pageVersion p.page =
    p.version + BitVec.ofNat 32 ((s.log.toList.drop b.since).count (.codeWritten p.page))
  current : (∀ p ∈ b.block.pageNumbers, .codeWritten p ∉ s.log.toList.drop b.since) →
    b.block.Current s.mem

theorem Tracked.proceed {s s' : Shared} {b : BuiltBlock} (h : Tracked s b) (proceeds : s.Proceeds s') :
    Tracked s' b := by
  obtain ⟨told, log, evolves⟩ := proceeds.evolves
  have since : s'.log.toList.drop b.since = s.log.toList.drop b.since ++ told := by
    rw [log, List.drop_append_of_le_length h.earlier]
  refine ⟨?_, h.distinct, ?_, ?_⟩
  · have := h.earlier
    rw [log, List.length_append]
    omega
  · intro p hp
    rw [evolves.version, h.version p hp, since, List.count_append, BitVec.ofNat_add, BitVec.add_assoc]
  · intro quiet
    rw [since] at quiet
    have quiet' (p : Nat) (hp : p ∈ b.block.pageNumbers) :
        .codeWritten p ∉ s.log.toList.drop b.since ∧ .codeWritten p ∉ told := by
      rw [← not_or, ← List.mem_append]
      exact quiet p hp
    exact (h.current (fun p hp => (quiet' p hp).1)).evolve evolves (fun p hp => (quiet' p hp).2)

/-- A block that the cache does not find outdated is current, unless a version came full circle. -/
theorem Tracked.current_of_insert {s : Shared} {b : BuiltBlock} (h : Tracked s b)
    (few : ∀ p ∈ b.block.pageNumbers,
      (s.log.toList.drop b.since).count (.codeWritten p) < twoPow 32)
    (fits : Cache.stalePage? b.block s.mem = none) : b.block.Current s.mem := by
  apply h.current
  intro p hp
  obtain ⟨snapshot, mem, rfl⟩ := List.mem_map.1 hp
  unfold Cache.stalePage? at fits
  rw [Option.map_eq_none_iff, List.find?_eq_none] at fits
  have same := fits snapshot mem
  simp only [Bool.or_eq_true, decide_eq_true_eq, not_or, Decidable.not_not] at same
  have version := h.version snapshot mem
  rw [same.1] at version
  -- The counter of reports is zero modulo its range, and so zero.
  have zero : BitVec.ofNat 32 ((s.log.toList.drop b.since).count (.codeWritten snapshot.page)) = 0 := by
    exact BitVec.add_right_eq_self.1 version.symm
  have count := congrArg BitVec.toNat zero
  rw [BitVec.toNat_ofNat, Nat.mod_eq_of_lt (few _ hp)] at count
  exact List.count_eq_zero.1 count

/-! ## All histories -/

/-- What every history keeps: the cache is fresh, and the blocks that wait are tracked. -/
structure Sane (s : History) : Prop where
  fresh : s.shared.Fresh
  tracked : ∀ b ∈ s.built, Tracked s.shared b

theorem start_sane (size : Nat) (limits : Cache.Limits) (cores : List Core) (board : Board) :
    (start size limits cores board).Sane := by
  refine ⟨⟨Memory.sound_empty size board, rfl, Cache.consistent_ofLimits limits, ?_⟩, nofun⟩
  intro id e held
  simp [start, shared, Shared.ofMemory, Cache.ofLimits] at held

section
variable {s : History} (h : s.Sane)
include h

/-- What is shared goes on, and the blocks that wait stay tracked. -/
theorem Sane.proceed {sh : Shared} (proceeds : s.shared.Proceeds sh) : (s.withShared sh).Sane :=
  ⟨proceeds.fresh, fun b hb => (h.tracked b hb).proceed proceeds⟩

theorem Sane.map {r : Except MemError Memory}
    (evolves : ∀ mem, r = .ok mem → s.shared.mem.Evolves mem [] ∧ mem.events = s.shared.mem.events) :
    (s.mapped r).Sane := by
  cases r with
  | error e => exact h
  | ok mem =>
    obtain ⟨evolves, events⟩ := evolves mem rfl
    exact h.proceed (h.fresh.evolve evolves events)

theorem Sane.step (core : Nat) : (s.act (.step core)).Sane := by
  rw [act_step]
  cases s.machine.cores[core]? with
  | none => exact h
  | some c =>
    have proceeds := c.step_proceeds h.fresh
    exact ⟨proceeds.fresh, fun b hb => (h.tracked b hb).proceed proceeds⟩

theorem Sane.build (limit : Nat) (stops : List Word) (entry : Word) :
    (s.act (.build limit stops entry)).Sane := by
  unfold act
  dsimp only
  split
  · next block mem built =>
    have proceeds := h.fresh.build built
    obtain ⟨current, -, distinct⟩ := Block.build_spec h.fresh.sound built
    refine ⟨proceeds.fresh, ?_⟩
    intro b hb
    rcases List.mem_append.1 hb with old | new
    · exact (h.tracked b old).proceed proceeds
    · -- Nothing has been told since the block was built.
      rw [List.mem_singleton] at new
      subst new
      have none : s.shared.log.toList.drop s.shared.log.size = [] := by simp
      refine ⟨Nat.le_refl _, distinct, ?_, fun _ => current⟩
      intro p hp
      dsimp only [withShared, shared] at none ⊢
      rw [none, (current.pages p hp).2]
      exact (BitVec.add_zero _).symm
  · next e mem built => exact h.proceed (h.fresh.build built)

theorem Sane.insert (which : Nat) (t : Translation) (allowed : s.Allows (.insert which t)) :
    (s.act (.insert which t)).Sane := by
  unfold act
  dsimp only
  split
  · next b found =>
    have tracked := h.tracked b (List.mem_of_getElem? found)
    apply h.proceed
    apply h.fresh.insert tracked.distinct
    exact tracked.current_of_insert (allowed b found)
  · exact h

theorem Sane.act (a : Action) (allowed : s.Allows a) : (s.act a).Sane := by
  cases a with
  | step core => exact h.step core
  | setCore core c => exact ⟨h.fresh, h.tracked⟩
  | build limit stops entry => exact h.build limit stops entry
  | insert which t => exact h.insert which t allowed
  | invalidatePage page => exact h.proceed (h.fresh.keep (Cache.invalidatePage_keeps h.fresh.consistent page))
  | flush => exact h.proceed (h.fresh.keep (Cache.flush_keeps h.fresh.consistent))
  | markCode page =>
    have accesses := Memory.accesses_markCode h.fresh.sound page
    apply h.proceed
    apply h.fresh.evolve accesses.toEvolves
    apply Array.toList_inj.1
    rw [accesses.events, List.append_nil]
  | mapRam base size => exact h.map (fun _ mapped => Memory.evolves_mapRam h.fresh.sound mapped)
  | mapRom base image => exact h.map (fun _ mapped => Memory.evolves_mapRom h.fresh.sound mapped)
  | mapDevice base size device =>
    exact h.map (fun _ mapped => Memory.evolves_mapDevice h.fresh.sound mapped)
  | write w vaddr v => exact h.proceed (h.fresh.absorb ((Memory.pieces_write _ w vaddr v).leads h.fresh.sound))
  | writeBytes vaddr data =>
    exact h.proceed (h.fresh.absorb ((Memory.pieces_writeBytes _ vaddr data).leads h.fresh.sound))

end

theorem Reachable.sane {start s : History} (h : Reachable start s) (sane : start.Sane) : s.Sane := by
  induction h with
  | start => exact sane
  | act a _ allowed ih => exact ih.act a allowed

/-- Cached code is never stale: at any time, every page of a cached block is marked, at the version that
the block was built from, and memory has every instruction of the block word for word. -/
theorem reachable_current {size : Nat} {limits : Cache.Limits} {cores : List Core} {board : Board} {s : History}
    (h : Reachable (start size limits cores board) s) (id : BlockId) (e : Cache.Entry)
    (held : s.shared.cache.blocks[id]? = some e) :
    (∀ p ∈ e.block.pages,
      s.shared.mem.isCodePage p.page = true ∧ s.shared.mem.pageVersion p.page = p.version) ∧
    ∀ i ∈ e.block.insns, s.shared.mem.fetch i.addr = .ok i.word := by
  have current := (h.sane (start_sane size limits cores board)).fresh.current held
  exact ⟨current.pages, current.words⟩

/-- A page of RAM with a trap at its start, whose block is built and inserted. -/
def trapHistory : History :=
  [.mapRam 0 4096, .write .word 0 0xD, .build 1 [] 0,
    .insert 0 { code := [], spills := 0, clobbers := .empty }].foldl act (start 4096 {} [])

theorem reachable_current_trap :
    ∃ e, Reachable (start 4096 {} []) trapHistory ∧ trapHistory.shared.cache.blocks[0]? = some e ∧
      (∀ p ∈ e.block.pages, trapHistory.shared.mem.isCodePage p.page = true ∧
        trapHistory.shared.mem.pageVersion p.page = p.version) ∧
      ∀ i ∈ e.block.insns, trapHistory.shared.mem.fetch i.addr = .ok i.word := by
  have reachable : Reachable (start 4096 {} []) trapHistory := by
    have mapped : Reachable (start 4096 {} []) _ := .act (.mapRam 0 4096) .start trivial
    have written := mapped.act (.write .word 0 0xD) trivial
    have built := written.act (.build 1 [] 0) trivial
    refine built.act (.insert 0 { code := [], spills := 0, clobbers := .empty }) ?_
    intro b _ p _
    show ((#[] : Array Event).toList.drop b.since).count _ < _
    rw [List.drop_nil, List.count_nil]
    decide
  obtain ⟨e, held⟩ : ∃ e, trapHistory.shared.cache.blocks[0]? = some e :=
    Option.isSome_iff_exists.1 (by decide)
  exact ⟨e, reachable, held, reachable_current reachable 0 e held⟩

end History

end EmotionEngine
