import EmotionEngine.Proofs.Machine.Native

/-!
Steps do not fail. Any number of cores share a memory and a cache, and each of them is stepped, stopped,
changed and reset in any order, while anything is mapped and written. A step has many ways to fail: the
block cannot be translated, the cache finds itself corrupted, the code returns an exit that nobody knows, or
an exception without a known code. None of them is ever taken, neither where blocks are run nor where their code is
entered.

Main statement: `Machine.session_dependable`, over `Machine.Dependable`, which says for each way to fail why
it is not taken.
-/

namespace EmotionEngine

/-! ## Machines -/

namespace Machine

/-- What can be done to a machine; cores have numbers. -/
inductive Op where
  | step (core : Nat)
  /-- A call on the memory. -/
  | call (op : Memory.Op)
  | addBreakpoint (core : Nat) (pc : Word)
  | removeBreakpoint (core : Nat) (pc : Word)
  | raiseLine (core : Nat) (bit : Word)
  | clearLine (core : Nat) (bit : Word)
  | requestStop (core : Nat)
  | setPc (core : Nat) (pc : Word)
  /-- The registers of a core are changed from outside. -/
  | edit (core : Nat) (f : Cpu → Cpu)
  | reset (core : Nat)
  | invalidatePage (page : Nat)
  | flush

/-- Register 0 stays zero whatever is edited. -/
def Op.Fair : Op → Prop
  | edit _ f => ∀ cpu : Cpu, cpu.regQuad 0 = 0 → (f cpu).regQuad 0 = 0
  | _ => True

def change (m : Machine) (core : Nat) (f : Core → Shared → Core × Shared) : Machine :=
  ((m.onCore core fun c s => ((), f c s)).map Prod.snd).getD m

/-- An operation: what a step returned, and the machine afterwards. -/
def apply (m : Machine) : Op → Option (Except CoreError StepOutcome) × Machine
  | .step core =>
    match m.step core with
    | some (r, m') => (some r, m')
    | none => (none, m)
  | .call op =>
    (none, { m with shared := { m.shared with mem := (m.shared.mem.apply op).2 }.absorb })
  | .addBreakpoint core pc => (none, m.change core fun c s => c.addBreakpoint s pc)
  | .removeBreakpoint core pc => (none, m.change core fun c s => (c.removeBreakpoint pc, s))
  | .raiseLine core bit => (none, m.change core fun c s => (c.raiseLine bit, s))
  | .clearLine core bit => (none, m.change core fun c s => (c.clearLine bit, s))
  | .requestStop core => (none, m.change core fun c s => (c.requestStop, s))
  | .setPc core pc => (none, m.change core fun c s => (c.setPc pc, s))
  | .edit core f => (none, m.change core fun c s => ({ c with cpu := f c.cpu }, s))
  | .reset core => (none, m.change core fun c s => c.reset s)
  | .invalidatePage page =>
    (none, { m with shared := { m.shared with cache := (m.shared.cache.invalidatePage page).2 } })
  | .flush => (none, { m with shared := { m.shared with cache := m.shared.cache.flush } })

/-- Operations in order: what the steps returned, and the machine afterwards. -/
def session (m : Machine) : List Op → List (Except CoreError StepOutcome) × Machine
  | [] => ([], m)
  | op :: rest =>
    let first := m.apply op
    let later := first.2.session rest
    (first.1.toList ++ later.1, later.2)

/-- An operation where a step enters the code of its block: `none` if the host cannot go on with the code. -/
def applyNative (m : Machine) (f : Frame) : Op → Option (Option (Except CoreError StepOutcome) × Machine)
  | .step core =>
    match m.cores[core]? with
    | some c =>
      (c.stepNative f m.shared).map fun (r, c, shared) => (some r, { shared, cores := m.cores.set core c })
    | none => some (none, m)
  | op => some (m.apply op)

/-- Operations in order, with what the host has at each of them. -/
def sessionNative (m : Machine) (frames : Nat → Frame) :
    List Op → Option (List (Except CoreError StepOutcome) × Machine)
  | [] => some ([], m)
  | op :: rest => do
    let first ← m.applyNative (frames rest.length) op
    let later ← first.2.sessionNative frames rest
    pure (first.1.toList ++ later.1, later.2)

/-- Cores of any configurations over a memory with nothing mapped and an empty cache. -/
def start (size : Nat) (limits : Cache.Limits) (configs : List Core.Config) (board : Board := .probes) : Machine :=
  { shared := Shared.ofMemory (Memory.empty size board) limits, cores := configs.map Core.ofConfig }

/-- No step can fail, and why. -/
structure Dependable (m : Machine) : Prop where
  /-- Whatever its state and configuration, the next step of a core succeeds. -/
  steps : ∀ c : Core, ∃ o, (c.step m.shared).1 = .ok o
  /-- A block that is built can be translated. -/
  translates : ∀ {limit stops entry b mem}, Block.build m.shared.mem limit stops entry = (.ok b, mem) →
    ∃ t, b.translate = .ok t
  /-- Inserting it may find no room, or find it outdated, but the cache is in order. -/
  inserts : ∀ {limit stops entry b mem}, Block.build m.shared.mem limit stops entry = (.ok b, mem) →
    ∀ t mem' what, (m.shared.cache.insert b t mem').1 ≠ .error (.corrupted what)
  /-- No block is built only where its first instruction cannot be fetched. -/
  builds : ∀ {limit stops entry e mem}, Block.build m.shared.mem limit stops entry = (.error e, mem) →
    e = .invalidAddress entry
  /-- A core at such a place has the guest take an exception. -/
  faults : ∀ {c : Core} {e mem}, c.build c.cpu.pc m.shared.mem = (.error e, mem) →
    (c.stepBlock m.shared).1 =
      .ok (.exception .instructionBus c.cpu.pc false (c.config.exceptionPolicy = .vector))
  /-- A block that raises an exception has recorded which. -/
  raises : ∀ (b : Block) (g : Guest), (b.run g).1 = .exception →
    ∃ code, ExcCode.ofNat? (b.run g).2.cpu.excCode.toNat = some code
  /-- When a core comes to enter a cached block, the cache holds code for it that returns. -/
  enters : ∀ {c : Core} {h s}, c.findBlock c.cpu.pc m.shared = (.ok (some (.cached h)), s) →
    ∃ e : Cache.Entry, s.cache.blocks[h.id]? = some e ∧ e.block = h.block ∧
      h.block.Returns (s.cache.arena.read e.offset e.size)
  /-- So a step that enters it succeeds too. -/
  native : ∀ (c : Core) (f : Frame), ∃ r, c.stepNative f m.shared = some r ∧ ∃ o, r.1 = .ok o

/-- A machine whose shared part is prepared cannot fail. -/
theorem dependable_of_prepared {m : Machine} (h : m.shared.Prepared) : m.Dependable where
  steps c := (c.step_succeeds h).ok
  translates {limit stops entry b mem} _ := by
    obtain ⟨-, t, -, -, translated, -⟩ := Code.translate_ok b
    exact ⟨t, translated⟩
  inserts built t mem' what corrupted := by
    obtain ⟨-, -, distinct⟩ := Block.build_spec h.fresh.sound built
    have inserted := Cache.insert_spec h.fresh.consistent distinct t mem'
    revert inserted corrupted
    generalize m.shared.cache.insert _ t mem' = result
    intro corrupted inserted
    cases inserted <;> cases corrupted
  builds := Core.build_error
  faults failed := Core.stepBlock_unfetched h (Block.not_executable_of_build failed)
  raises := Block.raises_known
  enters {c handle s'} found := by
    have searched := c.findBlock_searched c.cpu.pc h
    rw [found] at searched
    cases searched with
    | block _ _ entry prepared held =>
      obtain ⟨e, held, block⟩ := held handle rfl
      obtain ⟨formed, -, t, translated, code⟩ := prepared.fit held
      rw [block] at formed translated
      refine ⟨e, held, block, ?_⟩
      rw [code]
      exact Block.returns_translated formed translated
  native c f := by
    obtain ⟨r, native, succeeds, -⟩ := c.stepNative_succeeds f h
    exact ⟨r, native, succeeds.ok⟩

/-! ## Sessions -/

/-- Register 0 is zero in every core. -/
def Zeroed (m : Machine) : Prop := ∀ c ∈ m.cores, c.cpu.regQuad 0 = 0

section
variable {m : Machine}

theorem change_eq (m : Machine) (core : Nat) (f : Core → Shared → Core × Shared) :
    m.change core f =
      match m.cores[core]? with
      | some c => { shared := (f c m.shared).2, cores := m.cores.set core (f c m.shared).1 }
      | none => m := by
  unfold change onCore
  cases m.cores[core]? <;> rfl

theorem change_prepared (h : m.shared.Prepared) (core : Nat) {f : Core → Shared → Core × Shared}
    (prepared : ∀ c, (f c m.shared).2.Prepared) : (m.change core f).shared.Prepared := by
  rw [change_eq]
  cases m.cores[core]? with
  | none => exact h
  | some c => exact prepared c

theorem apply_step (m : Machine) (core : Nat) :
    m.apply (.step core) =
      match m.cores[core]? with
      | some c => (some (c.step m.shared).1,
          { shared := (c.step m.shared).2.2, cores := m.cores.set core (c.step m.shared).2.1 })
      | none => (none, m) := by
  unfold apply step onCore
  dsimp only
  cases m.cores[core]? <;> rfl

/-- Every operation keeps what is shared prepared, and a step succeeds. -/
theorem apply_prepared (h : m.shared.Prepared) (op : Op) :
    (∀ r, (m.apply op).1 = some r → ∃ o, r = .ok o) ∧ (m.apply op).2.shared.Prepared := by
  have flushed := h.keep (Cache.flush_keeps h.fresh.consistent)
  cases op with
  | step core =>
    rw [apply_step]
    cases m.cores[core]? with
    | none => exact ⟨nofun, h⟩
    | some c =>
      have stepped := c.step_succeeds h
      refine ⟨?_, stepped.prepared⟩
      rintro r ⟨⟩
      exact stepped.ok
  | call op => exact ⟨nofun, h.call op⟩
  | addBreakpoint core pc =>
    refine ⟨nofun, change_prepared h core fun c => ?_⟩
    unfold Core.addBreakpoint
    split
    · exact h
    · exact flushed
  | reset core => exact ⟨nofun, change_prepared h core fun _ => flushed⟩
  | invalidatePage page => exact ⟨nofun, h.keep (Cache.invalidatePage_keeps h.fresh.consistent page)⟩
  | flush => exact ⟨nofun, flushed⟩
  | removeBreakpoint core _ | raiseLine core _ | clearLine core _ | requestStop core | setPc core _
  | edit core _ => exact ⟨nofun, change_prepared h core fun _ => h⟩

/-- What the registers of every core have, they have after an operation, if a step keeps it, an edit keeps it
and a reset brings it about. -/
theorem apply_registers {P : Cpu → Prop} (h : ∀ c ∈ m.cores, P c.cpu) (op : Op)
    (step : ∀ c : Core, P c.cpu → P (c.step m.shared).2.1.cpu)
    (edit : ∀ core f, op = .edit core f → ∀ s, P s → P (f s))
    (setPc : ∀ s pc, P s → P { s with pc }) (reset : ∀ s : Cpu, P s.reset) :
    ∀ c ∈ (m.apply op).2.cores, P c.cpu := by
  have replaced {c c' : Core} {core : Nat} (found : m.cores[core]? = some c) (keeps : P c.cpu → P c'.cpu) :
      ∀ d ∈ m.cores.set core c', P d.cpu := by
    intro d mem
    obtain old | rfl := List.mem_or_eq_of_mem_set mem
    · exact h d old
    · exact keeps (h c (List.mem_of_getElem? found))
  have changed (core : Nat) {f : Core → Shared → Core × Shared}
      (keeps : ∀ c : Core, P c.cpu → P (f c m.shared).1.cpu) : ∀ c ∈ (m.change core f).cores, P c.cpu := by
    rw [change_eq]
    cases found : m.cores[core]? with
    | none => exact h
    | some c => exact replaced found (keeps c)
  cases op with
  | step core =>
    rw [apply_step]
    cases found : m.cores[core]? with
    | none => exact h
    | some c => exact replaced found (step c)
  | addBreakpoint core pc =>
    refine changed core fun c keeps => ?_
    unfold Core.addBreakpoint
    split <;> exact keeps
  | setPc core pc => exact changed core fun c => setPc c.cpu pc
  | edit core f => exact changed core fun c => edit core f rfl c.cpu
  | reset core => exact changed core fun c _ => reset c.cpu
  | removeBreakpoint core _ | raiseLine core _ | clearLine core _ | requestStop core =>
    exact changed core fun _ keeps => keeps
  | call _ | invalidatePage _ | flush => exact h

theorem apply_zeroed (h : m.shared.Prepared) (zeroed : m.Zeroed) {op : Op} (fair : op.Fair) :
    (m.apply op).2.Zeroed := by
  refine apply_registers (P := fun s => s.regQuad 0 = 0) zeroed op ?step ?edit ?setPc ?reset
  case step => exact fun c zero => (c.step_succeeds h).zero.trans zero
  case edit =>
    rintro core f rfl
    exact fair
  case setPc => exact fun _ _ zero => zero
  case reset => exact fun _ => rfl

theorem session_prepared (h : m.shared.Prepared) (ops : List Op) :
    (∀ r ∈ (m.session ops).1, ∃ o, r = .ok o) ∧ (m.session ops).2.shared.Prepared := by
  induction ops generalizing m with
  | nil => exact ⟨nofun, h⟩
  | cons op rest ih =>
    obtain ⟨ok, prepared⟩ := apply_prepared h op
    obtain ⟨later, prepared'⟩ := ih prepared
    refine ⟨?_, prepared'⟩
    intro r mem
    obtain first | rest := List.mem_append.1 mem
    · exact ok r (Option.mem_toList.1 first)
    · exact later r rest

theorem session_zeroed (h : m.shared.Prepared) (zeroed : m.Zeroed) {ops : List Op}
    (fair : ∀ op ∈ ops, op.Fair) : (m.session ops).2.Zeroed := by
  induction ops generalizing m with
  | nil => exact zeroed
  | cons op rest ih =>
    have first := apply_zeroed h zeroed (fair op List.mem_cons_self)
    exact ih (apply_prepared h op).2 first fun o ho => fair o (List.mem_cons_of_mem _ ho)

/-- An operation by the code of blocks: it is the operation itself where register 0 is zero. -/
theorem applyNative_prepared (h : m.shared.Prepared) (f : Frame) (op : Op) :
    ∃ r, m.applyNative f op = some r ∧ (∀ o, r.1 = some o → ∃ outcome, o = .ok outcome) ∧ r.2.shared.Prepared ∧
      (m.Zeroed → m.apply op = r) := by
  obtain ⟨ok, prepared⟩ := apply_prepared h op
  cases op with
  | step core =>
    rw [apply_step]
    unfold applyNative
    dsimp only
    cases found : m.cores[core]? with
    | none => exact ⟨_, rfl, nofun, h, fun _ => rfl⟩
    | some c =>
      obtain ⟨r, native, succeeds, same⟩ := c.stepNative_succeeds f h
      dsimp only
      rw [native]
      refine ⟨_, rfl, ?_, succeeds.prepared, fun zeroed => ?_⟩
      · rintro o ⟨⟩
        exact succeeds.ok
      · rw [same (zeroed c (List.mem_of_getElem? found))]
  | _ => exact ⟨_, rfl, ok, prepared, fun _ => rfl⟩

theorem sessionNative_prepared (h : m.shared.Prepared) (frames : Nat → Frame) (ops : List Op) :
    ∃ ran, m.sessionNative frames ops = some ran ∧ (∀ r ∈ ran.1, ∃ o, r = .ok o) ∧ ran.2.shared.Prepared ∧
      (m.Zeroed → (∀ op ∈ ops, op.Fair) → m.session ops = ran) := by
  induction ops generalizing m with
  | nil => exact ⟨_, rfl, nofun, h, fun _ _ => rfl⟩
  | cons op rest ih =>
    obtain ⟨first, native, ok, prepared, same⟩ := applyNative_prepared h (frames rest.length) op
    obtain ⟨later, native', ok', prepared', same'⟩ := ih prepared
    refine ⟨(first.1.toList ++ later.1, later.2), ?_, ?_, prepared', fun zeroed fair => ?_⟩
    · unfold sessionNative
      rw [native]
      dsimp only [Option.bind_eq_bind, Option.bind_some]
      rw [native']
      rfl
    · intro r mem
      obtain now | afterwards := List.mem_append.1 mem
      · exact ok r (Option.mem_toList.1 now)
      · exact ok' r afterwards
    · have zeroed' := apply_zeroed h zeroed (fair op List.mem_cons_self)
      rw [same zeroed] at zeroed'
      unfold session
      dsimp only
      rw [same zeroed, same' zeroed' fun o ho => fair o (List.mem_cons_of_mem _ ho)]

end

/-- Whatever is done to a machine, every step of every core succeeds and no later step can fail. So it is where the
steps enter the code of blocks, with whatever the host has in its spill slots: the code is never stuck and always
returns a known exit. Register 0 is zero throughout, if no edit sets it, and then entering the code of blocks and
running them come to the same. -/
theorem session_dependable (size : Nat) (limits : Cache.Limits) (configs : List Core.Config) (board : Board)
    (ops : List Op) :
    let machine := start size limits configs board
    let ran := machine.session ops
    (∀ r ∈ ran.1, ∃ o, r = .ok o) ∧ ran.2.Dependable ∧ ((∀ op ∈ ops, op.Fair) → ran.2.Zeroed) ∧
      ∀ frames : Nat → Frame, ∃ native, machine.sessionNative frames ops = some native ∧
        (∀ r ∈ native.1, ∃ o, r = .ok o) ∧ native.2.Dependable ∧ ((∀ op ∈ ops, op.Fair) → ran = native) := by
  have prepared : (start size limits configs board).shared.Prepared := Shared.prepared_ofMemory size board limits
  have zeroed : (start size limits configs board).Zeroed := by
    intro c mem
    obtain ⟨config, -, rfl⟩ := List.mem_map.1 mem
    rfl
  obtain ⟨ok, prepared'⟩ := session_prepared prepared ops
  refine ⟨ok, dependable_of_prepared prepared', session_zeroed prepared zeroed, fun frames => ?_⟩
  obtain ⟨native, ran, ok, prepared', same⟩ := sessionNative_prepared prepared frames ops
  exact ⟨native, ran, ok, dependable_of_prepared prepared', same zeroed⟩

/-- Two cores over a page of RAM, with room for one block. The first caches the trap that it runs into; the
second fetches where nothing is mapped, then finds the trap in the cache; then the trap is overwritten. -/
def pairOps : List Op :=
  [.call (.mapRam 0 4096), .call (.write .word 0 0xD), .setPc 0 0, .step 0, .setPc 1 0x2000, .step 1,
    .setPc 1 0, .step 1, .call (.write .word 0 0), .setPc 0 0, .step 0]

/-- The cores: one that halts on exceptions, and one that has its guest handle them. -/
def pairConfigs : List Core.Config := [{ exceptionPolicy := .halt, maxBlockInsns := 2 }, {}]

theorem session_dependable_pair :
    let ran := (start 4096 ⟨1, 4096⟩ pairConfigs).session pairOps
    ran.1.map Except.toOption =
        [some (.exception .breakpoint 0 false false), some (.exception .instructionBus 0x2000 false true),
          some (.exception .breakpoint 0 false true), some .continue] ∧
      ran.2.Dependable ∧ ran.2.Zeroed := by
  obtain ⟨-, dependable, zeroed, -⟩ := session_dependable 4096 ⟨1, 4096⟩ pairConfigs .probes pairOps
  refine ⟨by decide +kernel, dependable, zeroed ?_⟩
  intro op mem
  simp only [pairOps, List.mem_cons, List.not_mem_nil, or_false] at mem
  obtain rfl | rfl | rfl | rfl | rfl | rfl | rfl | rfl | rfl | rfl | rfl := mem
  all_goals trivial

end Machine

end EmotionEngine
