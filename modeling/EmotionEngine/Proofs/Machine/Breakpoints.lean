import EmotionEngine.Proofs.Machine.Solo

/-!
Breakpoints. A core on its own is stepped, run and changed in any order; breakpoints come and go while
blocks that were cut at them live on in the cache.

1. A block that is built ends before each stop (`Block.build_cutBefore`). Blocks that were built before a
   breakpoint was added are dropped with it, and a breakpoint that is taken away leaves blocks that are cut
   more than they need be. So every cached block is cut at the breakpoints there are.
2. A breakpoint at the program counter is reported unless it was reported last. The latch that remembers it
   is set by the step that reports and cleared by every other, so it tells what the last step returned
   (`Heeds.latch`), whatever happened to the core since.

Main statement: `Solo.breakpoints_heeded`, over `Solo.calls`, the calls of `step` that a list of commands
makes, those of its runs included.
-/

namespace EmotionEngine

/-! ## Blocks and stops -/

namespace Block

/-- Of the instructions of a block, only the first, which is where the block starts, and one in a delay slot
may lie at one of the stops. -/
structure CutBefore (stops : List Word) (b : Block) : Prop where
  first : ∀ i, b.insns[0]? = some i → i.addr = b.start
  later : ∀ (k : Nat) (i : DecodedInsn), b.insns[k]? = some i → i.addr ∈ stops → k = 0 ∨ i.inDelaySlot = true

theorem CutBefore.mono {stops stops' : List Word} {b : Block} (h : b.CutBefore stops)
    (fewer : ∀ pc ∈ stops', pc ∈ stops) : b.CutBefore stops' :=
  ⟨h.first, fun k i at_k stop => h.later k i at_k (fewer i.addr stop)⟩

/-- Only the first instruction of a stretch and a delay slot may be at a stop. -/
theorem scan_cutBefore (stops : List Word) (left : Nat) (st : Building) (pc word : Word) :
    ∀ (k : Nat) (i : DecodedInsn), (scan stops left st pc word).1[k]? = some i → i.addr ∈ stops →
      k = 0 ∨ i.inDelaySlot = true := by
  have single {here i : DecodedInsn} {k : Nat} (found : [here][k]? = some i) : k = 0 := by
    simpa using (List.getElem?_eq_some_iff.1 found).1
  fun_induction scan stops left st pc word with
  | case1 left st pc word insn here next branch w st' fetched =>
    rintro (_ | _ | k) i found stop
    · exact .inl rfl
    · right
      obtain rfl : _ = i := Option.some.inj found
      rfl
    · simp at found
  | case2 => simp
  | case3 left st pc word insn here branch ends => exact fun k i found _ => .inl (single found)
  | case4 st pc word insn here branch ends => exact fun k i found _ => .inl (single found)
  | case5 st pc word insn here next branch ends left pageEnd =>
    exact fun k i found _ => .inl (single found)
  | case6 st pc word insn here next branch ends left pageEnd stop =>
    exact fun k i found _ => .inl (single found)
  | case7 st pc word insn here next branch ends left pageEnd stop e st' =>
    exact fun k i found _ => .inl (single found)
  | case8 st pc word insn here next branch ends left pageEnd free w st' fetched rest t st'' scanned ih =>
    have stands := scan_stands stops left st' next w
    rw [scanned] at ih stands
    rintro (_ | k) i found stop
    · exact .inl rfl
    · -- The rest starts at the next address, where the scan would have stopped.
      right
      rw [List.getElem?_cons_succ] at found
      obtain rfl | slot := ih k i found stop
      · have first : i.addr = next := by simpa using stands.addr 0 i found
        rw [first] at stop
        simp [stop] at free
      · exact slot

theorem build_cutBefore {mem mem' : Memory} {limit : Nat} {stops : List Word} {entry : Word} {b : Block}
    (built : build mem limit stops entry = (.ok b, mem')) : b.CutBefore stops := by
  have stands := build_stands built
  unfold build at built
  split at built
  · cases (Prod.mk.inj built).1
  · next w st fetched =>
    have later := scan_cutBefore stops (max limit 1 - 1) st entry w
    cases (Prod.mk.inj built).1
    exact ⟨fun i found => by simpa using stands.addr 0 i found, later⟩

end Block

/-! ## What a cache holds -/

namespace Shared

/-- Every cached block has a property. -/
def Stocks (P : Block → Prop) (s : Shared) : Prop :=
  ∀ (id : BlockId) (e : Cache.Entry), s.cache.blocks[id]? = some e → P e.block

section
variable {P : Block → Prop} {s : Shared}

theorem Stocks.mono {Q : Block → Prop} (h : s.Stocks P) (weaker : ∀ b, P b → Q b) : s.Stocks Q :=
  fun id e held => weaker _ (h id e held)

theorem Stocks.keep {s' : Shared} (h : s.Stocks P) (keeps : s.cache.Keeps s'.cache) : s'.Stocks P := by
  intro id e held
  obtain ⟨e', held', same⟩ := keeps.within held
  rw [← same.block]
  exact h id e' held'

theorem stocks_flush (s : Shared) : Stocks P { s with cache := s.cache.flush } := by
  intro id e held
  rw [Cache.flush_blocks] at held
  cases held

theorem Stocks.gain (h : s.Stocks P) {b : Block} (own : P b) {cache : Cache} {code : List Host.CodeByte}
    {id : BlockId} (gains : s.cache.Gains cache b code id) : Stocks P { s with cache } := by
  intro a e held
  obtain ⟨block, -⟩ | ⟨e', held', same, -⟩ := gains.cases held
  · rwa [block]
  · rw [← same.block]
    exact h a e' held'

end

end Shared

namespace Core

open Shared (Fresh Stocks)

/-- What the search for a block comes to, where all blocks have the property `P`: the cache has only such
blocks afterwards, and what is found is one of them, at the right address. -/
structure Finds (P : Block → Prop) (pc : Word) (r : Except CoreError (Option Runnable) × Shared) : Prop where
  stocks : r.2.Stocks P
  found : ∀ run, r.1 = .ok (some run) → P run.block ∧ run.block.start = pc

section
variable {P : Block → Prop} (c : Core) (pc : Word) {s : Shared}

/-- The property holds of every block that the core builds at an address. -/
def Makes (P : Block → Prop) : Prop := ∀ {mem mem' : Memory} {b : Block}, c.build pc mem = (.ok b, mem') → P b

theorem findBlock_finds (h : s.Fresh) (stocks : s.Stocks P) (makes : c.Makes pc P) :
    Finds P pc (c.findBlock pc s) := by
  have sought := c.findBlock_sought pc h
  generalize c.findBlock pc s = result at sought
  cases sought with
  | hit handle keeps held start =>
    refine ⟨stocks.keep keeps, ?_⟩
    rintro run ⟨⟩
    obtain ⟨e, before, block⟩ := held_before keeps held
    refine ⟨?_, start⟩
    show P handle.block
    rw [← block]
    exact stocks handle.id e before
  | loose built keeps =>
    refine ⟨stocks.keep keeps, ?_⟩
    rintro run ⟨⟩
    exact ⟨makes built, (Block.build_spec h.sound built).2.1⟩
  | stored built _ gains =>
    refine ⟨stocks.gain (makes built) gains, ?_⟩
    rintro run ⟨⟩
    exact ⟨makes built, (Block.build_spec h.sound built).2.1⟩
  | bare _ keeps => exact ⟨stocks.keep keeps, nofun⟩

end

theorem execute_stocks {P : Block → Prop} (c : Core) {s : Shared} (h : s.Fresh) (stocks : s.Stocks P)
    (r : Runnable) : (c.execute s r).2.2.Stocks P := by
  let g := (r.block.run { cpu := c.cpu, mem := s.mem }).2
  have ran := h.absorb (r.block.leads_run { cpu := c.cpu, mem := s.mem } h.sound)
  have heard : Stocks P (Shared.absorb { s with mem := g.mem }) :=
    stocks.keep (Cache.notice_heard h.consistent g.mem.events).toKeeps
  cases r with
  | uncached b => exact heard
  | cached handle => exact heard.keep (Cache.unpin_keeps ran.fresh.consistent handle.id)

/-! ## Steps -/

def found? : Except CoreError (Option Runnable) → Option Block
  | .ok (some r) => some r.block
  | _ => none

/-- The block that a step executes, if it executes one. -/
def runs? (c : Core) (s : Shared) : Option Block :=
  if c.atBreakpoint || c.passing.cpu.interruptDeliverable then none
  else found? (c.passing.findBlock c.cpu.pc s).1

theorem takeException_core (c : Core) : ∃ cpu, c.takeException.2 = { c with cpu } := by
  have takes := c.takeException_takes
  generalize c.takeException = result at takes ⊢
  cases takes with
  | unknown => exact ⟨c.cpu, rfl⟩
  | vectors | halts => exact ⟨_, rfl⟩

theorem settle_core (exit : BlockExit) (c : Core) (s : Shared) :
    ∃ cpu, (settle (exit, c, s)).2 = ({ c with cpu }, s) := by
  cases exit with
  | exception =>
    obtain ⟨cpu, taken⟩ := c.takeException_core
    exact ⟨cpu, by simp [settle, taken]⟩
  | _ => exact ⟨c.cpu, rfl⟩

theorem runs?_eq {c : Core} {s s' : Shared} (searches : c.Searches) {found : Except CoreError (Option Runnable)}
    (e : c.passing.findBlock c.cpu.pc s = (found, s')) : c.runs? s = found? found := by
  simp [runs?, searches.free, searches.calm, e]

/-- What a step does to the core: it counts the block it executes, and the latch tells of a breakpoint only
if the step reported it. -/
theorem step_core (c : Core) (s : Shared) :
    ∃ cpu reported, (c.step s).2.1 =
        { c with cpu, reported, executed := c.executed + (c.runs? s).toList.length } ∧
      ∀ pc, reported = some pc → (c.step s).1 = .ok (.breakpoint pc) := by
  have stepped := c.step_stepped s
  generalize c.step s = result at stepped ⊢
  cases stepped with
  | stops stopped =>
    refine ⟨c.cpu, some c.cpu.pc, by simp [runs?, stopped], ?_⟩
    rintro pc ⟨⟩
    rfl
  | interrupts free deliverable =>
    refine ⟨c.passing.cpu.enterException .interrupt c.cpu.pc false, none, ?_, nofun⟩
    simp only [runs?, deliverable, Bool.or_true, if_true]
    rfl
  | fails searches e =>
    refine ⟨c.passing.cpu, none, ?_, nofun⟩
    rw [runs?_eq searches e]
    rfl
  | faults searches e =>
    obtain ⟨cpu, taken⟩ := (c.passing.fetchFault c.cpu.pc).takeException_core
    refine ⟨cpu, none, ?_, nofun⟩
    rw [runs?_eq searches e, taken]
    rfl
  | @runs r s' searches e =>
    obtain ⟨-, core, -, -⟩ := c.passing.execute_eq s' r
    obtain ⟨cpu, settled⟩ := settle_core (c.passing.execute s' r).1 (c.passing.execute s' r).2.1
      (c.passing.execute s' r).2.2
    refine ⟨cpu, none, ?_, nofun⟩
    rw [runs?_eq searches e, settled, core]
    rfl

/-- A step that executes a block has found it at the program counter, and it reports no breakpoint. -/
theorem runs?_found {c : Core} {s : Shared} {b : Block} (runs : c.runs? s = some b) :
    c.atBreakpoint = false ∧
      ∃ s' r, c.passing.findBlock c.cpu.pc s = (.ok (some r), s') ∧ r.block = b ∧
        c.step s = settle (c.passing.execute s' r) := by
  have stepped := c.step_stepped s
  generalize c.step s = result at stepped ⊢
  cases stepped with
  | stops stopped => simp [runs?, stopped] at runs
  | interrupts free deliverable => simp [runs?, deliverable] at runs
  | fails searches e | faults searches e =>
    rw [runs?_eq searches e] at runs
    cases runs
  | @runs r s' searches e =>
    rw [runs?_eq searches e] at runs
    exact ⟨searches.free, s', r, e, Option.some.inj runs, rfl⟩

theorem runs?_of_executed {c : Core} {s : Shared} (executes : c.executed < (c.step s).2.1.executed) :
    ∃ b, c.runs? s = some b := by
  obtain ⟨cpu, reported, core, -⟩ := c.step_core s
  rw [core] at executes
  cases runs : c.runs? s with
  | none => simp [runs] at executes
  | some b => exact ⟨b, rfl⟩

theorem step_stocks {P : Block → Prop} {c : Core} {s : Shared} (h : s.Fresh) (stocks : s.Stocks P)
    (makes : c.Makes c.cpu.pc P) : (c.step s).2.2.Stocks P := by
  have finds := c.passing.findBlock_finds c.cpu.pc h stocks makes
  have fresh := (c.passing.findBlock_proceeds c.cpu.pc h).fresh
  have stepped := c.step_stepped s
  generalize c.step s = result at stepped ⊢
  cases stepped with
  | stops | interrupts => exact stocks
  | fails _ e | faults _ e =>
    rw [e] at finds
    exact finds.stocks
  | @runs r s' _ e =>
    rw [e] at finds fresh
    rw [settle_shared]
    exact c.passing.execute_stocks fresh finds.stocks r

end Core

/-! ## Calls of `step` -/

namespace Solo

/-- What can be done with a core on its own: what `Op` has, runs, and requests to stop them. -/
inductive Command where
  | op (o : Op)
  /-- Run for at most so many steps; a run without a budget has `Core.unlimited`. -/
  | run (limit : Nat)
  | requestStop

def stepped (s : Solo) : Solo := ⟨(s.core.step s.shared).2.1, (s.core.step s.shared).2.2⟩

def outcome (s : Solo) : Except CoreError StepOutcome := (s.core.step s.shared).1

def goesOn : Except CoreError StepOutcome → Bool
  | .error _ | .ok (.breakpoint _) | .ok (.exception _ _ _ false) => false
  | .ok _ => true

def runCalls (s : Solo) : Nat → List Solo
  | 0 => []
  | n + 1 =>
    if s.core.stopRequested then []
    else s :: if goesOn s.outcome then s.stepped.runCalls n else []

def ran (s : Solo) (n : Nat) : Solo :=
  ⟨(s.core.runBlocks s.shared n).2.1, (s.core.runBlocks s.shared n).2.2⟩

def after (s : Solo) : Command → Solo
  | .op o => (s.apply o).2
  | .run limit => s.ran limit
  | .requestStop => { s with core := s.core.requestStop }

def callsOf (s : Solo) : Command → List Solo
  | .op .step => [s]
  | .run limit => s.runCalls limit
  | _ => []

/-- The states in which a list of commands calls `step`, in order. -/
def calls (s : Solo) : List Command → List Solo
  | [] => []
  | command :: rest => s.callsOf command ++ (s.after command).calls rest

/-- A run that is not asked to stop goes on from where its first step leads. -/
theorem ran_succ (s : Solo) (n : Nat) :
    s.ran (n + 1) =
      if s.core.stopRequested then { s with core := { s.core with stopRequested := false } }
      else if goesOn s.outcome then s.stepped.ran n
      else s.stepped := by
  unfold ran
  rw [Core.runBlocks]
  split
  · rfl
  · unfold outcome stepped
    generalize s.core.step s.shared = r
    obtain ⟨result, core, shared⟩ := r
    rcases result with e | o
    · rfl
    · cases o with
      | «continue» => rfl
      | breakpoint pc => rfl
      | interrupt => rfl
      | exception code pc slot vectored => cases vectored <;> rfl

/-! ## What the calls before have to do with a core -/

/-- After the calls `past` the cache is cut at the breakpoints there are, and the latch tells of a breakpoint
that the last call reported. -/
structure Heeds (past : List Solo) (s : Solo) : Prop where
  fresh : s.shared.Fresh
  cut : s.shared.Stocks (Block.CutBefore s.core.breakpoints)
  latch : ∀ pc, s.core.reported = some pc →
    ∃ prev, past.getLast? = some prev ∧ prev.outcome = .ok (.breakpoint pc)

section
variable {past : List Solo} {s : Solo} (h : Heeds past s)
include h

theorem Heeds.remember {core : Core} (reported : core.reported = s.core.reported ∨ core.reported = none)
    (pc : Word) (latched : core.reported = some pc) :
    ∃ prev, past.getLast? = some prev ∧ prev.outcome = .ok (.breakpoint pc) := by
  obtain same | cleared := reported
  · exact h.latch pc (same.symm.trans latched)
  · rw [cleared] at latched
    cases latched

/-- Between calls the core may change in any way that brings in no breakpoint and does not set the latch. -/
theorem Heeds.change {core : Core} (fewer : ∀ pc ∈ core.breakpoints, pc ∈ s.core.breakpoints)
    (reported : core.reported = s.core.reported ∨ core.reported = none) : Heeds past { s with core } :=
  ⟨h.fresh, h.cut.mono fun _ cut => cut.mono fewer, h.remember reported⟩

/-- Breakpoints may be brought in when every block is dropped. -/
theorem Heeds.flush {core : Core} (reported : core.reported = s.core.reported ∨ core.reported = none) :
    Heeds past { core, shared := { s.shared with cache := s.shared.cache.flush } } := by
  have flushed := h.fresh.keep (Cache.flush_keeps h.fresh.consistent)
  exact ⟨flushed.fresh, Shared.stocks_flush _, h.remember reported⟩

theorem Heeds.absorb {mem : Memory} (leads : s.shared.mem.Leads mem) :
    Heeds past { s with shared := { s.shared with mem }.absorb } := by
  have heard := Cache.notice_heard h.fresh.consistent mem.events
  exact ⟨(h.fresh.absorb leads).fresh, h.cut.keep heard.toKeeps, h.latch⟩

theorem Heeds.map {r : Except MemError Memory}
    (evolves : ∀ mem, r = .ok mem → s.shared.mem.Evolves mem [] ∧ mem.events = s.shared.mem.events) :
    Heeds past (s.mapped r) := by
  cases r with
  | error e => exact h
  | ok mem =>
    obtain ⟨evolves, events⟩ := evolves mem rfl
    exact ⟨(h.fresh.evolve evolves events).fresh, h.cut, h.latch⟩

/-- A call is the last one for what follows. -/
theorem Heeds.step : Heeds (past ++ [s]) s.stepped := by
  have makes : s.core.Makes s.core.cpu.pc (Block.CutBefore s.core.breakpoints) :=
    Block.build_cutBefore
  have cut := Core.step_stocks h.fresh h.cut makes
  obtain ⟨cpu, reported, core, told⟩ := s.core.step_core s.shared
  refine ⟨(s.core.step_proceeds h.fresh).fresh, ?_, fun pc latched => ⟨s, by simp, told pc ?_⟩⟩
  · unfold stepped
    rw [core]
    exact cut
  · unfold stepped at latched
    rw [core] at latched
    exact latched

theorem Heeds.apply {op : Op} (other : op ≠ .step) : Heeds past (s.apply op).2 := by
  have sound := h.fresh.sound
  cases op with
  | step => exact absurd rfl other
  | write w vaddr v => exact h.absorb ((Memory.pieces_write _ w vaddr v).leads sound)
  | writeBytes vaddr data => exact h.absorb ((Memory.pieces_writeBytes _ vaddr data).leads sound)
  | raiseLine bit => exact h.change (fun _ set => set) (.inl rfl)
  | clearLine bit => exact h.change (fun _ set => set) (.inl rfl)
  | setPc pc => exact h.change (fun _ set => set) (.inr rfl)
  | edit f => exact h.change (fun _ set => set) (.inl rfl)
  | addBreakpoint pc =>
    unfold Solo.apply Core.addBreakpoint
    dsimp only
    split
    · exact h
    · exact h.flush (.inl rfl)
  | removeBreakpoint pc => exact h.change (fun _ set => List.mem_of_mem_filter set) (.inl rfl)
  | reset => exact h.flush (.inr rfl)
  | flush => exact h.flush (.inl rfl)
  | mapRam base size => exact h.map fun _ mapped => Memory.evolves_mapRam sound mapped
  | mapRom base image => exact h.map fun _ mapped => Memory.evolves_mapRom sound mapped
  | mapDevice base size device => exact h.map fun _ mapped => Memory.evolves_mapDevice sound mapped

end

/-- Each of the calls is made by a core that heeds the calls before it. -/
def EachHeeds (past : List Solo) : List Solo → Prop
  | [] => True
  | s :: rest => Heeds past s ∧ EachHeeds (past ++ [s]) rest

theorem EachHeeds.append {past calls rest : List Solo} (h : EachHeeds past calls)
    (h' : EachHeeds (past ++ calls) rest) : EachHeeds past (calls ++ rest) := by
  induction calls generalizing past with
  | nil => simpa using h'
  | cons s calls ih => exact ⟨h.1, ih h.2 (by simpa using h')⟩

theorem EachHeeds.get {past calls : List Solo} (h : EachHeeds past calls) {i : Nat} {call : Solo}
    (made : calls[i]? = some call) : Heeds (past ++ calls.take i) call := by
  induction calls generalizing past i with
  | nil => simp at made
  | cons s calls ih =>
    cases i with
    | zero =>
      obtain rfl : s = call := by simpa using made
      simpa using h.1
    | succ i => simpa using ih h.2 (by simpa using made)

theorem Heeds.run {past : List Solo} {s : Solo} (h : Heeds past s) (n : Nat) :
    EachHeeds past (s.runCalls n) ∧ Heeds (past ++ s.runCalls n) (s.ran n) := by
  induction n generalizing past s with
  | zero =>
    refine ⟨trivial, ?_⟩
    unfold ran Core.runBlocks runCalls
    rw [List.append_nil]
    split
    · exact h.change (fun _ set => set) (.inl rfl)
    · exact h
  | succ n ih =>
    rw [ran_succ]
    unfold runCalls
    split
    · rw [List.append_nil]
      exact ⟨trivial, h.change (fun _ set => set) (.inl rfl)⟩
    · split
      · obtain ⟨each, after⟩ := ih h.step
        exact ⟨⟨h, each⟩, by simpa using after⟩
      · exact ⟨⟨h, trivial⟩, h.step⟩

theorem Heeds.after {past : List Solo} {s : Solo} (h : Heeds past s) (command : Command) :
    EachHeeds past (s.callsOf command) ∧ Heeds (past ++ s.callsOf command) (s.after command) := by
  cases command with
  | op o =>
    by_cases step : o = .step
    · subst step
      exact ⟨⟨h, trivial⟩, h.step⟩
    · have none : s.callsOf (.op o) = [] := by
        cases o <;> first | rfl | exact absurd rfl step
      rw [none, List.append_nil]
      exact ⟨trivial, h.apply step⟩
  | run limit => exact h.run limit
  | requestStop =>
    rw [show s.callsOf .requestStop = [] from rfl, List.append_nil]
    exact ⟨trivial, h.change (fun _ set => set) (.inl rfl)⟩

theorem Heeds.calls {past : List Solo} {s : Solo} (h : Heeds past s) (commands : List Command) :
    EachHeeds past (s.calls commands) := by
  induction commands generalizing past s with
  | nil => trivial
  | cons command rest ih =>
    obtain ⟨each, after⟩ := h.after command
    exact each.append (ih after)

theorem start_heeds {mem : Memory} (arises : mem.Arises) (config : Core.Config) (cpu : Cpu) :
    Heeds [] (start mem config cpu) := by
  -- What is shared does not depend on the registers.
  obtain ⟨good, idle⟩ := start_good arises config (show Cpu.new.regQuad 0 = 0 from rfl)
  refine ⟨good.serves.fresh, fun id e held => ?_, nofun⟩
  cases (idle id).symm.trans held

/-- Breakpoints are never run over. Whatever is done with a core on its own, in either mode: when a call of
`step` executes a block, each instruction of the block at a breakpoint that is set is its first one or in a
delay slot; and if the block starts at a breakpoint that is set, the call before this one reported it. -/
theorem breakpoints_heeded {mem : Memory} (arises : mem.Arises) (config : Core.Config) (cpu : Cpu)
    (commands : List Command) {i : Nat} {call : Solo}
    (made : ((start mem config cpu).calls commands)[i]? = some call)
    (executes : call.core.executed < call.stepped.core.executed) :
    ∃ r s, call.core.passing.findBlock call.core.cpu.pc call.shared = (.ok (some r), s) ∧
      call.core.step call.shared = Core.settle (call.core.passing.execute s r) ∧
      r.block.CutBefore call.core.breakpoints ∧
      (r.block.start ∈ call.core.breakpoints →
        ∃ j prev, i = j + 1 ∧ ((start mem config cpu).calls commands)[j]? = some prev ∧
          prev.outcome = .ok (.breakpoint r.block.start)) := by
  have heeds := ((start_heeds arises config cpu).calls commands).get made
  obtain ⟨b, runs⟩ := Core.runs?_of_executed executes
  obtain ⟨free, s, r, found, -, step⟩ := Core.runs?_found runs
  have finds := call.core.passing.findBlock_finds call.core.cpu.pc heeds.fresh heeds.cut Block.build_cutBefore
  obtain ⟨cut, start⟩ := finds.found r (congrArg Prod.fst found)
  refine ⟨r, s, found, step, cut, fun stop => ?_⟩
  -- The core is at the breakpoint and does not report it, so the latch is set.
  have latched : call.core.reported = some r.block.start := by
    rw [start] at stop ⊢
    simpa [Core.atBreakpoint, stop] using free
  obtain ⟨prev, last, told⟩ := heeds.latch _ latched
  cases i with
  | zero => simp at last
  | succ j =>
    refine ⟨j, prev, rfl, ?_, told⟩
    have in_range := (List.getElem?_eq_some_iff.1 made).1
    rw [List.nil_append, List.getLast?_eq_getElem?, List.length_take, Nat.min_eq_left (by omega)] at last
    simpa using last

/-- A trap after an instruction that does nothing, with a breakpoint on it that a run stops at. -/
def trapStop : List Command :=
  [.op (.mapRam 0 4096), .op (.write .word 4 0xD), .op (.addBreakpoint 4), .op (.setPc 0), .run 8, .op .step]

/-- The step after the run executes the trap, because the last step of the run has reported it. -/
theorem breakpoints_heeded_trapStop :
    let calls := (start (Memory.empty 4096) {} Cpu.new).calls trapStop
    ∃ call, calls[2]? = some call ∧ call.core.executed < call.stepped.core.executed ∧
      call.core.cpu.pc ∈ call.core.breakpoints ∧
      ∃ r s, call.core.step call.shared = Core.settle (call.core.passing.execute s r) ∧
        (r.block.start ∈ call.core.breakpoints →
          ∃ prev, calls[1]? = some prev ∧ prev.outcome = .ok (.breakpoint r.block.start)) := by
  intro calls
  let call := calls[2]?.get (by decide +kernel)
  have made : calls[2]? = some call := (Option.some_get _).symm
  have executes : call.core.executed < call.stepped.core.executed := by decide +kernel
  obtain ⟨r, s, -, step, -, reported⟩ :=
    breakpoints_heeded (.empty 4096) {} Cpu.new trapStop made executes
  refine ⟨call, made, executes, by decide +kernel, r, s, step, fun stop => ?_⟩
  obtain ⟨j, prev, last, before, told⟩ := reported stop
  obtain rfl : j = 1 := by omega
  exact ⟨prev, before, told⟩

end Solo

end EmotionEngine
