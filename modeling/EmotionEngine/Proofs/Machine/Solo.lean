import EmotionEngine.Proofs.Machine.Native

/-!
A core on its own, with a memory and a cache that nobody else uses, led through operations from outside:
steps, writes, interrupt lines, breakpoints, changes of registers, resets and flushes. Nothing is mapped
and no breakpoint is taken away once stepping has begun (`Orderly`).

Main statement: two such cores that differ in how they execute blocks and in the bounds of their caches
cannot be told apart by the outcomes of their steps, their processors, their memories or their logs; the code
that lies in their caches does what running the blocks does, and steps that enter it are the steps of the core
(`Solo.modes_agree`).
-/

namespace EmotionEngine

/-- A core with what is its own. -/
structure Solo where
  core : Core
  shared : Shared

namespace Solo

/-- Operations on a core and its memory. -/
inductive Op where
  | step
  | write (w : Width) (vaddr : Word) (v : Quad)
  | writeBytes (vaddr : Word) (data : List Byte)
  | raiseLine (bit : Word)
  | clearLine (bit : Word)
  | setPc (pc : Word)
  /-- The registers are changed from outside. -/
  | edit (f : Cpu → Cpu)
  | addBreakpoint (pc : Word)
  | removeBreakpoint (pc : Word)
  | reset
  | flush
  | mapRam (base size : Nat)
  | mapRom (base : Nat) (image : List Byte)
  | mapDevice (base size : Nat) (device : Device)

/-- Operations for before the first step. -/
def Op.isSetup : Op → Bool
  | removeBreakpoint _ => true
  | mapRam .. => true
  | mapRom .. => true
  | mapDevice .. => true
  | _ => false

/-- Register 0 stays zero whatever is edited. -/
def Op.Fair : Op → Prop
  | edit f => ∀ cpu : Cpu, cpu.regQuad 0 = 0 → (f cpu).regQuad 0 = 0
  | _ => True

/-- Once stepping has begun, nothing is set up any more. -/
def Orderly : List Op → Prop
  | [] => True
  | op :: rest => (op = .step → ∀ o ∈ rest, o.isSetup = false) ∧ Orderly rest

def start (mem : Memory) (config : Core.Config) (cpu : Cpu) : Solo :=
  { core := { Core.ofConfig config with cpu }, shared := (Shared.ofMemory mem config.cache).absorb }

def mapped (s : Solo) : Except MemError Memory → Solo
  | .ok mem => { s with shared := { s.shared with mem } }
  | .error _ => s

/-- An operation: what a step returned, and what is there afterwards. -/
def apply (s : Solo) : Op → Option (Except CoreError StepOutcome) × Solo
  | .step =>
    let (r, core, shared) := s.core.step s.shared
    (some r, { core, shared })
  | .write w vaddr v =>
    (none, { s with shared := { s.shared with mem := (s.shared.mem.write w vaddr v).2 }.absorb })
  | .writeBytes vaddr data =>
    (none, { s with shared := { s.shared with mem := (s.shared.mem.writeBytes vaddr data).2 }.absorb })
  | .raiseLine bit => (none, { s with core := s.core.raiseLine bit })
  | .clearLine bit => (none, { s with core := s.core.clearLine bit })
  | .setPc pc => (none, { s with core := s.core.setPc pc })
  | .edit f => (none, { s with core := { s.core with cpu := f s.core.cpu } })
  | .addBreakpoint pc =>
    let (core, shared) := s.core.addBreakpoint s.shared pc
    (none, { core, shared })
  | .removeBreakpoint pc => (none, { s with core := s.core.removeBreakpoint pc })
  | .reset =>
    let (core, shared) := s.core.reset s.shared
    (none, { core, shared })
  | .flush => (none, { s with shared := { s.shared with cache := s.shared.cache.flush } })
  | .mapRam base size => (none, s.mapped (s.shared.mem.mapRam base size))
  | .mapRom base image => (none, s.mapped (s.shared.mem.mapRom base image))
  | .mapDevice base size device => (none, s.mapped (s.shared.mem.mapDevice base size device))

/-- Every operation of a list with what it leaves. -/
def trace (s : Solo) : List Op → List (Option (Except CoreError StepOutcome) × Solo)
  | [] => []
  | op :: rest => s.apply op :: (s.apply op).2.trace rest

/-- An operation where a step enters the code of its block: `none` if the host cannot go on with the code. -/
def applyNative (s : Solo) (f : Frame) : Op → Option (Option (Except CoreError StepOutcome) × Solo)
  | .step => (s.core.stepNative f s.shared).map fun (r, core, shared) => (some r, { core, shared })
  | op => some (s.apply op)

/-- Every operation of a list like that, with what the host has at each of them. -/
def traceNative (s : Solo) (frames : Nat → Frame) :
    List Op → Option (List (Option (Except CoreError StepOutcome) × Solo))
  | [] => some []
  | op :: rest => do
    let first ← s.applyNative (frames rest.length) op
    let later ← first.2.traceNative frames rest
    pure (first :: later)

/-! ## What operations keep -/

/-- Nothing is cached. -/
def Idle (s : Solo) : Prop := ∀ id : BlockId, s.shared.cache.blocks[id]? = none

/-- The cache serves the core, and register 0 is zero. -/
structure Good (s : Solo) : Prop where
  serves : s.core.Serves s.shared
  zero : s.core.cpu.regQuad 0 = 0

theorem idle_of_keeps {s s' : Solo} (idle : s.Idle) (keeps : s.shared.cache.Keeps s'.shared.cache) :
    s'.Idle := by
  intro id
  rw [Option.eq_none_iff_forall_ne_some]
  intro e held
  obtain ⟨e', held', -⟩ := keeps.within held
  rw [idle id] at held'
  cases held'

section
variable {s : Solo} (h : s.Good)
include h

theorem Good.absorb {mem : Memory} (leads : s.shared.mem.Leads mem) :
    Good { s with shared := { s.shared with mem }.absorb } := ⟨h.serves.absorb leads, h.zero⟩

theorem Good.flush {core : Core} (zero : core.cpu.regQuad 0 = 0) :
    Good { core, shared := { s.shared with cache := s.shared.cache.flush } } := by
  have flushed := h.serves.fresh.keep (Cache.flush_keeps h.serves.fresh.consistent)
  exact ⟨flushed.fresh.ready s.shared.cache.flush_blocks _ _, zero⟩

theorem Good.map (idle : s.Idle) {r : Except MemError Memory}
    (evolves : ∀ mem, r = .ok mem → s.shared.mem.Evolves mem [] ∧ mem.events = s.shared.mem.events) :
    (s.mapped r).Good := by
  cases r with
  | error e => exact h
  | ok mem =>
    obtain ⟨evolves, events⟩ := evolves mem rfl
    have mapped := h.serves.fresh.evolve evolves events
    exact ⟨mapped.fresh.ready idle _ _, h.zero⟩

theorem Good.apply {op : Op} (fair : op.Fair) (setup : op.isSetup = true → s.Idle) :
    (s.apply op).2.Good := by
  have sound := h.serves.fresh.sound
  cases op with
  | step =>
    have steady := s.core.step_steady h.serves
    refine ⟨?_, steady.zero.trans h.zero⟩
    have serves := steady.serves
    unfold Core.Serves at serves ⊢
    rw [← steady.config, ← steady.breakpoints] at serves
    exact serves
  | write w vaddr v => exact h.absorb ((Memory.pieces_write _ w vaddr v).leads sound)
  | writeBytes vaddr data => exact h.absorb ((Memory.pieces_writeBytes _ vaddr data).leads sound)
  | raiseLine bit => exact ⟨h.serves, h.zero⟩
  | clearLine bit => exact ⟨h.serves, h.zero⟩
  | setPc pc => exact ⟨h.serves, h.zero⟩
  | edit f => exact ⟨h.serves, fair s.core.cpu h.zero⟩
  | addBreakpoint pc =>
    unfold Solo.apply Core.addBreakpoint
    dsimp only
    split
    · exact h
    · exact h.flush h.zero
  | removeBreakpoint pc => exact ⟨h.serves.fresh.ready (setup rfl) _ _, h.zero⟩
  | reset => exact h.flush (by rfl)
  | flush => exact h.flush h.zero
  | mapRam base size => exact h.map (setup rfl) (fun _ mapped => Memory.evolves_mapRam sound mapped)
  | mapRom base image => exact h.map (setup rfl) (fun _ mapped => Memory.evolves_mapRom sound mapped)
  | mapDevice base size device =>
    exact h.map (setup rfl) (fun _ mapped => Memory.evolves_mapDevice sound mapped)

theorem Good.idle {op : Op} (other : op ≠ .step) (idle : s.Idle) : (s.apply op).2.Idle := by
  have consistent := h.serves.fresh.consistent
  have mapped (r : Except MemError Memory) : (s.mapped r).Idle := by
    cases r with
    | error e => exact idle
    | ok mem => exact idle
  cases op with
  | step => exact absurd rfl other
  | write w vaddr v => exact idle_of_keeps idle (Cache.notice_heard consistent _).toKeeps
  | writeBytes vaddr data => exact idle_of_keeps idle (Cache.notice_heard consistent _).toKeeps
  | addBreakpoint pc =>
    unfold Solo.apply Core.addBreakpoint
    dsimp only
    split
    · exact idle
    · exact s.shared.cache.flush_blocks
  | reset => exact s.shared.cache.flush_blocks
  | flush => exact s.shared.cache.flush_blocks
  | mapRam base size => exact mapped _
  | mapRom base image => exact mapped _
  | mapDevice base size device => exact mapped _
  | _ => exact idle

end

/-- A cache that serves a core holds what is fit to be entered. -/
theorem Good.prepared {s : Solo} (h : s.Good) : s.shared.Prepared := by
  refine ⟨h.serves.fresh, fun held => ?_⟩
  have again := h.serves.again held
  exact ⟨Block.build_formed again, Block.executable_of_build again, h.serves.loaded held⟩

theorem Good.applyNative {s : Solo} (h : s.Good) (f : Frame) (op : Op) : s.applyNative f op = some (s.apply op) := by
  cases op with
  | step =>
    obtain ⟨r, native, -, same⟩ := s.core.stepNative_succeeds f h.prepared
    unfold Solo.applyNative Solo.apply
    dsimp only
    rw [native, same h.zero]
    rfl
  | _ => rfl

/-- Operations like that are the operations themselves. -/
theorem traceNative_eq (frames : Nat → Frame) {s : Solo} {ops : List Op} (orderly : Orderly ops)
    (fair : ∀ op ∈ ops, op.Fair) (h : s.Good) (settled : s.Idle ∨ ∀ op ∈ ops, op.isSetup = false) :
    s.traceNative frames ops = some (s.trace ops) := by
  induction ops generalizing s with
  | nil => rfl
  | cons op rest ih =>
    have setup (set : op.isSetup = true) : s.Idle := by
      obtain idle | never := settled
      · exact idle
      · rw [never op List.mem_cons_self] at set
        cases set
    have good := h.apply (fair op List.mem_cons_self) setup
    have later : (s.apply op).2.traceNative frames rest = some ((s.apply op).2.trace rest) := by
      refine ih orderly.2 (fun o ho => fair o (List.mem_cons_of_mem _ ho)) good ?_
      by_cases stepped : op = .step
      · exact .inr (orderly.1 stepped)
      · exact settled.imp (h.idle stepped) fun never o ho => never o (List.mem_cons_of_mem _ ho)
    unfold traceNative
    rw [h.applyNative]
    dsimp only [Option.bind_eq_bind, Option.bind_some]
    rw [later]
    rfl

theorem start_good {mem : Memory} (arises : mem.Arises) (config : Core.Config) {cpu : Cpu}
    (zero : cpu.regQuad 0 = 0) : (start mem config cpu).Good ∧ (start mem config cpu).Idle := by
  have heard := Cache.notice_heard (Cache.consistent_ofLimits config.cache) mem.events
  have idle : (start mem config cpu).Idle := by
    intro id
    rw [Option.eq_none_iff_forall_ne_some]
    intro e held
    obtain ⟨e', held', -⟩ := heard.within held
    simp [Cache.ofLimits] at held'
  refine ⟨⟨Shared.Fresh.ready ?_ idle _ _, zero⟩, idle⟩
  refine ⟨arises.sound.of_regions rfl rfl, rfl, heard.consistent, ?_⟩
  intro id e held
  rw [idle id] at held
  cases held

/-! ## Two cores -/

/-- Cores that differ in how they execute blocks, over memories and logs that are the same. -/
structure Related (mode : ExecMode) (limits : Cache.Limits) (s s' : Solo) : Prop where
  core : s'.core = s.core.retuned mode limits
  mem : s'.shared.mem = s.shared.mem
  log : s'.shared.log = s.shared.log

theorem start_shared (mem : Memory) (config : Core.Config) (cpu : Cpu) :
    (start mem config cpu).shared.mem = { mem with events := #[] } ∧
      (start mem config cpu).shared.log = #[] ++ mem.events := ⟨rfl, rfl⟩

theorem start_related (mem : Memory) (config : Core.Config) (cpu : Cpu) {mode mode' : ExecMode}
    {limits limits' : Cache.Limits} :
    Related mode' limits' (start mem { config with execMode := mode, cache := limits } cpu)
      (start mem { config with execMode := mode', cache := limits' } cpu) := by
  refine ⟨rfl, ?_, ?_⟩
  · rw [(start_shared mem _ cpu).1, (start_shared mem _ cpu).1]
  · rw [(start_shared mem _ cpu).2, (start_shared mem _ cpu).2]

section
variable {mode : ExecMode} {limits : Cache.Limits} {s s' : Solo}

theorem Related.absorb (rel : Related mode limits s s') (f : Memory → Memory) :
    Related mode limits { s with shared := { s.shared with mem := f s.shared.mem }.absorb }
      { s' with shared := { s'.shared with mem := f s'.shared.mem }.absorb } := by
  refine ⟨rel.core, ?_, ?_⟩
  · show { f s'.shared.mem with events := #[] } = { f s.shared.mem with events := #[] }
    rw [rel.mem]
  · show s'.shared.log ++ (f s'.shared.mem).events = s.shared.log ++ (f s.shared.mem).events
    rw [rel.log, rel.mem]

theorem Related.map (rel : Related mode limits s s') (f : Memory → Except MemError Memory) :
    Related mode limits (s.mapped (f s.shared.mem)) (s'.mapped (f s'.shared.mem)) := by
  rw [rel.mem]
  cases f s.shared.mem with
  | error e => exact rel
  | ok mem => exact ⟨rel.core, rfl, rel.log⟩

theorem Related.apply (rel : Related mode limits s s') (h : s.Good) (h' : s'.Good) (op : Op) :
    (s'.apply op).1 = (s.apply op).1 ∧ Related mode limits (s.apply op).2 (s'.apply op).2 := by
  obtain ⟨core', shared'⟩ := s'
  obtain ⟨core, mem, log⟩ := rel
  dsimp only at core mem log
  subst core
  have rel : Related mode limits s ⟨s.core.retuned mode limits, shared'⟩ := ⟨rfl, mem, log⟩
  cases op with
  | step =>
    have alike := s.core.step_alike mode limits h.serves h'.serves mem log
    exact ⟨congrArg some alike.result, alike.core, alike.mem, alike.log⟩
  | write w vaddr v => exact ⟨rfl, rel.absorb (fun m => (m.write w vaddr v).2)⟩
  | writeBytes vaddr data => exact ⟨rfl, rel.absorb (fun m => (m.writeBytes vaddr data).2)⟩
  | addBreakpoint pc =>
    unfold Solo.apply Core.addBreakpoint
    dsimp only
    rw [show (s.core.retuned mode limits).breakpoints = s.core.breakpoints from rfl]
    split
    · exact ⟨rfl, rfl, mem, log⟩
    · exact ⟨rfl, rfl, mem, log⟩
  | mapRam base size => exact ⟨rfl, rel.map (fun m => m.mapRam base size)⟩
  | mapRom base image => exact ⟨rfl, rel.map (fun m => m.mapRom base image)⟩
  | mapDevice base size device =>
    exact ⟨rfl, rel.map (fun m => m.mapDevice base size device)⟩
  | _ => exact ⟨rfl, rfl, mem, log⟩

end

/-- The code in the cache does to any guest what running its block does. -/
def Native (s : Solo) : Prop :=
  ∀ (id : BlockId) (e : Cache.Entry), s.shared.cache.blocks[id]? = some e →
    ∀ (base : Dword) (spill : Vector Dword GuestReg.count) (g : Guest), g.cpu.regQuad 0 = 0 →
      ∃ host, Code.run? (s.shared.cache.arena.read e.offset e.size)
          (Code.start base spill (g.enter e.block)) = some ((e.block.run g).1, host) ∧
        host.guest = (e.block.run g).2

theorem Good.native {s : Solo} (h : s.Good) : s.Native := by
  intro id e held base spill g zero
  obtain ⟨t, translated, code⟩ := h.serves.loaded held
  rw [code]
  exact Code.run_translated (Block.build_formed (h.serves.again held)) translated base spill g zero

/-- After an operation on each, two cores have reported the same and look the same: the processor, the
memory with the code marks and versions of its pages, and the log. -/
structure Indistinguishable (x y : Option (Except CoreError StepOutcome) × Solo) : Prop where
  outcome : y.1 = x.1
  ok : ∀ r, x.1 = some r → ∃ o, r = .ok o
  cpu : y.2.core.cpu = x.2.core.cpu
  mem : y.2.shared.mem = x.2.shared.mem
  log : y.2.shared.log = x.2.shared.log
  native : x.2.Native ∧ y.2.Native
  zero : x.2.core.cpu.regQuad 0 = 0

theorem Good.ok {s : Solo} (h : s.Good) (op : Op) {r : Except CoreError StepOutcome}
    (returned : (s.apply op).1 = some r) : ∃ o, r = .ok o := by
  cases op with
  | step =>
    obtain ⟨o, ok⟩ := (s.core.step_steady h.serves).ok
    exact ⟨o, (Option.some.inj returned).symm.trans ok⟩
  | _ => cases returned

theorem trace_indistinguishable (mode : ExecMode) (limits : Cache.Limits) {s s' : Solo} {ops : List Op}
    (orderly : Orderly ops) (fair : ∀ op ∈ ops, op.Fair) (rel : Related mode limits s s') (h : s.Good)
    (h' : s'.Good) (settled : (s.Idle ∧ s'.Idle) ∨ ∀ op ∈ ops, op.isSetup = false) :
    List.Forall₂ Indistinguishable (s.trace ops) (s'.trace ops) := by
  induction ops generalizing s s' with
  | nil => exact .nil
  | cons op rest ih =>
    have fair' := fair op List.mem_cons_self
    -- What is set up is set up while nothing is cached.
    have setup (set : op.isSetup = true) : s.Idle ∧ s'.Idle := by
      obtain idle | never := settled
      · exact idle
      · rw [never op List.mem_cons_self] at set
        cases set
    have good := h.apply fair' (fun set => (setup set).1)
    have good' := h'.apply fair' (fun set => (setup set).2)
    obtain ⟨outcome, rel'⟩ := rel.apply h h' op
    refine .cons ⟨outcome, fun r => h.ok op, ?_, rel'.mem, rel'.log, ⟨good.native, good'.native⟩, good.zero⟩
      (ih orderly.2 (fun o ho => fair o (List.mem_cons_of_mem _ ho)) rel' good good' ?_)
    · rw [rel'.core]
      rfl
    · by_cases stepped : op = .step
      · exact .inr (orderly.1 stepped)
      · obtain ⟨idle, idle'⟩ | never := settled
        · exact .inl ⟨h.idle stepped idle, h'.idle stepped idle'⟩
        · exact .inr (fun o ho => never o (List.mem_cons_of_mem _ ho))

/-- Translating blocks or not, and with whatever bounds for the cache, makes no difference to the guest:
after every operation of any orderly list, the two cores have returned the same outcome and have the same
processor, memory and log. Nor does it matter whether the blocks in the cache are run or their code is entered. -/
theorem modes_agree {mem : Memory} (arises : mem.Arises) {cpu : Cpu} (zero : cpu.regQuad 0 = 0)
    (config : Core.Config) (mode mode' : ExecMode) (limits limits' : Cache.Limits) {ops : List Op}
    (orderly : Orderly ops) (fair : ∀ op ∈ ops, op.Fair) :
    let s := start mem { config with execMode := mode, cache := limits } cpu
    let s' := start mem { config with execMode := mode', cache := limits' } cpu
    List.Forall₂ Indistinguishable (s.trace ops) (s'.trace ops) ∧
      ∀ frames : Nat → Frame,
        s.traceNative frames ops = some (s.trace ops) ∧ s'.traceNative frames ops = some (s'.trace ops) := by
  obtain ⟨good, idle⟩ := start_good arises { config with execMode := mode, cache := limits } zero
  obtain ⟨good', idle'⟩ := start_good arises { config with execMode := mode', cache := limits' } zero
  exact ⟨trace_indistinguishable mode' limits' orderly fair (start_related mem config cpu) good good'
      (.inl ⟨idle, idle'⟩),
    fun frames => ⟨traceNative_eq frames orderly fair good (.inl idle),
      traceNative_eq frames orderly fair good' (.inl idle')⟩⟩

/-- A page of RAM with a trap at its start, which is run into twice. -/
def trapOps : List Op := [.mapRam 0 4096, .write .word 0 0xD, .setPc 0, .step, .setPc 0, .step]

/-- A core without room for a block agrees with one that finds the trap in its cache the second time. -/
theorem modes_agree_trap :
    let s := start (Memory.empty 4096) {} Cpu.new
    let s' := start (Memory.empty 4096) { execMode := .interpreter, cache := ⟨0, 0⟩ } Cpu.new
    (s.trace trapOps).map (fun x => x.2.shared.cache.counts.hits) = [0, 0, 0, 1, 1, 2] ∧
      List.Forall₂ Indistinguishable (s.trace trapOps) (s'.trace trapOps) ∧
      ∀ frames : Nat → Frame,
        s.traceNative frames trapOps = some (s.trace trapOps) ∧
          s'.traceNative frames trapOps = some (s'.trace trapOps) := by
  refine ⟨by decide +kernel, modes_agree (.empty 4096) (by decide) {} .jit .interpreter {} ⟨0, 0⟩ ?_ ?_⟩
  · refine ⟨nofun, nofun, nofun, fun _ => ?_, nofun, fun _ => ?_, trivial⟩
    all_goals simp [Op.isSetup]
  · intro op hop
    simp only [trapOps, List.mem_cons, List.not_mem_nil, or_false] at hop
    obtain rfl | rfl | rfl | rfl | rfl | rfl := hop
    all_goals trivial

end Solo

end EmotionEngine
