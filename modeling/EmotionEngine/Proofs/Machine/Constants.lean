import EmotionEngine.Proofs.Block.Constants
import EmotionEngine.Proofs.Machine.Enduring

/-!
Constants of the architecture. Register 0 is zero, the identification register has its value, and the control and
status register of the floating point unit has no bit that cannot be written; its sticky bits stay set until a
control move clears them.

1. Latching lines, counting and entering a handler write control registers, but not the identification. So a step
   of a core upholds what the block that it runs upholds (`Core.step_upholds`).
2. All other operations on a machine move or reset its cores, so what holds after a reset and is upheld holds
   throughout (`Machine.session_constants`).
3. Translated code does what its block does, so it upholds the same (`Machine.cached_upholds`).

Main statement: `Machine.constants_survive`.
-/

namespace EmotionEngine

namespace Cpu

/-- What is the same in every processor that only ever ran code. -/
structure Constants (s : Cpu) : Prop where
  zero : s.regQuad 0 = 0
  prId : s.creg Cop0.prId = Cop0.prIdValue
  within : s.fcr31 &&& ~~~Fcr31.writable = 0

theorem constants_reset (s : Cpu) : s.reset.Constants := ⟨rfl, rfl, BitVec.zero_and⟩

theorem Upholds.constants {moved : Prop} {s t : Cpu} (h : Upholds moved s t) (before : s.Constants) : t.Constants :=
  ⟨h.zero.trans before.zero, h.prId.trans before.prId, h.within before.within⟩

theorem Upholds.mark {moved : Prop} {s t : Cpu} (h : Upholds moved s t) (still : ¬ moved) {mark : Word}
    (sticks : mark &&& Fcr31.sticky = mark) (set : s.fcr31 &&& mark = mark) : t.fcr31 &&& mark = mark := by
  apply BitVec.eq_of_getLsbD_eq
  intro i _
  rw [BitVec.getLsbD_and]
  cases here : mark.getLsbD i with
  | false => exact Bool.and_false _
  | true =>
    have sticky : Fcr31.sticky.getLsbD i = true := by
      rw [← sticks, BitVec.getLsbD_and, Bool.and_eq_true] at here
      exact here.2
    have before : s.fcr31.getLsbD i = true := by
      rw [← set, BitVec.getLsbD_and, Bool.and_eq_true] at here
      exact here.1
    rw [h.sticky still i sticky before, Bool.true_and]

section
variable {moved : Prop} (s : Cpu)

theorem latchInterrupts_upholds (lines : Word) : Upholds moved s (s.latchInterrupts lines) :=
  upholds_of_same rfl (s.creg_latchInterrupts lines (by decide)) rfl

theorem advanceCount_upholds (insns : Word) : Upholds moved s (s.advanceCount insns) := by
  refine upholds_of_same (Core.advanceCount_spec s insns).1 (s.creg_advanceCount insns (by decide) (by decide)) ?_
  unfold advanceCount
  dsimp only
  split <;> rfl

theorem enterException_upholds (code : ExcCode) (pc : Word) (slot : Bool) :
    Upholds moved s (s.enterException code pc slot) := by
  refine upholds_of_same (Core.enterException_zero s code pc slot)
    (s.creg_enterException code pc slot (by decide) (by decide) (by decide)) ?_
  unfold enterException
  dsimp only
  split <;> rfl

end

end Cpu

/-! ## Steps -/

namespace Core

theorem takeException_upholds {moved : Prop} (c : Core) : c.cpu.Upholds moved c.takeException.2.cpu := by
  have settled : c.cpu.Upholds moved { c.cpu with faultPending := false } := Cpu.upholds_of_same rfl rfl rfl
  have takes := c.takeException_takes
  generalize c.takeException = result at takes ⊢
  cases takes with
  | unknown => exact c.cpu.upholds_refl
  | vectors => exact settled.trans (Cpu.enterException_upholds _ _ _ _)
  | halts => exact settled

theorem fetchFault_upholds {moved : Prop} (c : Core) (pc : Word) : c.cpu.Upholds moved (c.fetchFault pc).cpu :=
  Cpu.upholds_of_same rfl
    ((c.cpu.sameButExit_raiseFault .instructionBus (some pc)).control Cop0.prId (by decide) (by decide)) rfl

theorem execute_upholds (c : Core) (s : Shared) (r : Runnable) :
    c.cpu.Upholds
      (∃ i ∈ (({ cpu := c.cpu, mem := s.mem } : Guest).enter r.block).completed r.block.insns, i.insn.MovesFcr31)
      (settle (c.execute s r)).2.1.cpu := by
  have ran := r.block.run_upholds { cpu := c.cpu, mem := s.mem }
  obtain ⟨-, core, -, -⟩ := c.execute_eq s r
  generalize c.execute s r = executed at core
  obtain ⟨exit, c', s'⟩ := executed
  have cpu : c'.cpu = (r.block.run { cpu := c.cpu, mem := s.mem }).2.cpu.advanceCount
      (BitVec.ofNat 32 r.block.icount) := congrArg Core.cpu core
  have counted := ran.trans (Cpu.advanceCount_upholds _ (BitVec.ofNat 32 r.block.icount))
  rw [← cpu] at counted
  cases exit with
  | exception => exact counted.trans c'.takeException_upholds
  | _ => exact counted

/-- A step upholds what no code changes, whether it runs a block, takes an exception or an interrupt, or does
nothing. -/
theorem step_upholds (c : Core) (s : Shared) :
    c.cpu.Upholds (∃ i ∈ c.completed s, i.insn.MovesFcr31) (c.step s).2.1.cpu := by
  have latched {moved : Prop} : c.cpu.Upholds moved c.passing.cpu := c.cpu.latchInterrupts_upholds c.lines
  have stepped := c.step_stepped s
  generalize c.step s = result at stepped ⊢
  cases stepped with
  | stops => exact c.cpu.upholds_refl
  | interrupts => exact latched.trans (Cpu.enterException_upholds _ _ _ _)
  | fails => exact latched
  | faults => exact latched.trans ((c.passing.fetchFault_upholds _).trans (takeException_upholds _))
  | @runs r s' searches found =>
    rw [completed_eq searches found]
    exact latched.trans (c.passing.execute_upholds s' r)

end Core

/-! ## Sessions -/

namespace Machine

/-- An edit of registers from outside gives the constants their values. -/
def Op.Lawful : Op → Prop
  | edit _ f => ∀ cpu : Cpu, cpu.Constants → (f cpu).Constants
  | _ => True

/-- The constants have their values in every core. -/
def Constant (m : Machine) : Prop := ∀ c ∈ m.cores, c.cpu.Constants

theorem apply_constants {m : Machine} (h : m.Constant) {op : Op} (lawful : op.Lawful) :
    (m.apply op).2.Constant := by
  refine apply_registers (P := Cpu.Constants) h op ?step ?edit ?setPc ?reset
  case step => exact fun c => (c.step_upholds m.shared).constants
  case edit =>
    rintro core f rfl
    exact lawful
  case setPc => exact fun _ _ constants => ⟨constants.zero, constants.prId, constants.within⟩
  case reset => exact Cpu.constants_reset

theorem session_constants {m : Machine} (h : m.Constant) {ops : List Op} (lawful : ∀ op ∈ ops, op.Lawful) :
    (m.session ops).2.Constant := by
  induction ops generalizing m with
  | nil => exact h
  | cons op rest ih =>
    exact ih (apply_constants h (lawful op List.mem_cons_self)) fun o mem => lawful o (List.mem_cons_of_mem op mem)

theorem session_upholds {m : Machine} {core : Nat} {c : Core} {ops : List Op} (found : m.cores[core]? = some c)
    (spares : ∀ op ∈ ops, op.Spares core) :
    ∃ c', (m.session ops).2.cores[core]? = some c' ∧
      c.cpu.Upholds (∃ call ∈ m.calls core ops, ∃ i ∈ call.1.completed call.2, i.insn.MovesFcr31) c'.cpu := by
  refine (session_keeps (P := fun d => c.cpu.Upholds _ d.cpu) ?_ found spares ?_ c.cpu.upholds_refl).2
  · rintro d d' ⟨-, pc, moved⟩ upholds
    rw [moved]
    exact upholds.trans (Cpu.upholds_of_same rfl rfl rfl)
  · intro call called upholds
    exact upholds.trans ((call.1.step_upholds call.2).mono fun moves => ⟨call, called, moves⟩)

/-- The code of a block in the cache returns, and upholds what the block does. -/
theorem cached_upholds {s : Shared} (h : s.Prepared) {id : BlockId} {e : Cache.Entry}
    (held : s.cache.blocks[id]? = some e) (base : Dword) (spill : Vector Dword GuestReg.count) {g : Guest}
    (zero : g.cpu.regQuad 0 = 0) :
    ∃ exit host, Code.run? (s.cache.arena.read e.offset e.size) (Code.start base spill (g.enter e.block)) =
        some (exit, host) ∧
      g.cpu.Upholds (∃ i ∈ (g.enter e.block).completed e.block.insns, i.insn.MovesFcr31) host.guest.cpu := by
  obtain ⟨formed, -, t, translated, code⟩ := h.fit held
  obtain ⟨host, ran, guest⟩ := Code.run_translated formed translated base spill g zero
  refine ⟨_, host, by rw [code]; exact ran, ?_⟩
  rw [guest]
  exact e.block.run_upholds g

/-- The constants of the architecture survive every run. From a reset of its cores on, whatever a machine runs, in
either mode, and whatever goes on around it: register 0 is zero in both halves, the identification register has its
value, and the control and status register has no bit that cannot be written. Over any part of a run in which no
control move to that register completes and which does not reset the core, the bits SI, SD, SO and SU are not
cleared. The code of every block that comes into the cache upholds the same by itself. -/
theorem constants_survive :
    (∀ (m : Machine) (ops : List Op), (∀ c ∈ m.cores, ∃ s : Cpu, c.cpu = s.reset) →
      (∀ op ∈ ops, op.Lawful) → ∀ c ∈ (m.session ops).2.cores,
        c.cpu.regQuad 0 = 0 ∧ c.cpu.creg Cop0.prId = 0x2E20 ∧ c.cpu.fcr31 &&& ~~~Fcr31.writable = 0) ∧
      (∀ (m : Machine) (core : Nat) (c : Core) (ops : List Op), m.cores[core]? = some c →
        (∀ op ∈ ops, op.Spares core) →
          (∀ call ∈ m.calls core ops, ∀ i ∈ call.1.completed call.2, ∀ rt, i.insn ≠ .fpuMove .ctc1 rt 31) →
            ∃ c', (m.session ops).2.cores[core]? = some c' ∧
              ∀ mark ∈ [Fcr31.si, Fcr31.sd, Fcr31.so, Fcr31.su],
                c.cpu.fcr31 &&& mark = mark → c'.cpu.fcr31 &&& mark = mark) ∧
      ∀ (size : Nat) (limits : Cache.Limits) (configs : List Core.Config) (board : Board) (ops : List Op),
        let cache := ((start size limits configs board).session ops).2.shared.cache
        ∀ (id : BlockId) (e : Cache.Entry), cache.blocks[id]? = some e →
          ∀ (base : Dword) (spill : Vector Dword GuestReg.count) (g : Guest), g.cpu.regQuad 0 = 0 →
            ∃ exit host, Code.run? (cache.arena.read e.offset e.size) (Code.start base spill (g.enter e.block)) =
                some (exit, host) ∧
              g.cpu.Upholds (∃ i ∈ (g.enter e.block).completed e.block.insns, ∃ rt, i.insn = .fpuMove .ctc1 rt 31)
                host.guest.cpu := by
  refine ⟨?_, ?_, ?_⟩
  · intro m ops fresh lawful c mem
    have constant : m.Constant := by
      intro c mem
      obtain ⟨s, reset⟩ := fresh c mem
      rw [reset]
      exact s.constants_reset
    obtain ⟨zero, prId, within⟩ := session_constants constant lawful c mem
    exact ⟨zero, prId, within⟩
  · intro m core c ops found spares unmoved
    obtain ⟨c', found', upholds⟩ := session_upholds found spares
    refine ⟨c', found', fun mark marks => upholds.mark ?_ ?_⟩
    · rintro ⟨call, called, i, completes, rt, moves⟩
      exact unmoved call called i completes rt moves
    · simp only [List.mem_cons, List.not_mem_nil, or_false] at marks
      obtain rfl | rfl | rfl | rfl := marks <;> decide
  · intro size limits configs board ops cache id e held base spill g zero
    have first := Shared.prepared_ofMemory size board limits
    have prepared := (session_prepared (m := start size limits configs board) first ops).2
    exact cached_upholds prepared held base spill zero

/-- A division of zero by zero, then a sum that is too large, then a loop. -/
def markOps : List Op :=
  [.call (.mapRam 0 4096), .call (.write .word 0 0x46000003), .call (.write .word 4 0x46000000),
    .call (.write .word 8 0x1000FFFF), .setPc 0 0, .step 0]

/-- The division and the sum have left their marks; a round of the loop, between an interrupt line and a write to
memory, leaves them where they are. -/
theorem constants_survive_marks :
    let ran := ((start 4096 {} [{}]).session markOps).2
    (∀ c ∈ ran.cores, c.cpu.regQuad 0 = 0 ∧ c.cpu.creg Cop0.prId = 0x2E20 ∧
      c.cpu.fcr31 &&& ~~~Fcr31.writable = 0) ∧
      (∃ c', (ran.session [.raiseLine 0 0x400, .step 0, .call (.write .word 0 0)]).2.cores[0]? = some c' ∧
        c'.cpu.fcr31 &&& Fcr31.si = Fcr31.si ∧ c'.cpu.fcr31 &&& Fcr31.so = Fcr31.so) ∧
      ∃ (id : BlockId) (e : Cache.Entry) (exit : BlockExit) (host : Host.State), ran.shared.cache.blocks[id]? = some e ∧
        Code.run? (ran.shared.cache.arena.read e.offset e.size)
          (Code.start 0 (Vector.replicate _ 0) (Guest.enter ⟨Cpu.new, Memory.empty 0⟩ e.block)) = some (exit, host) ∧
        host.guest.cpu.regQuad 0 = 0 := by
  intro ran
  have fcr31 : ran.cores[0]?.map (fun c => c.cpu.fcr31) =
      some (Fcr31.i ||| Fcr31.o ||| Fcr31.si ||| Fcr31.so) := by decide +kernel
  have insns : (ran.calls 0 [.raiseLine 0 0x400, .step 0, .call (.write .word 0 0)]).map
      (fun call => (call.1.completed call.2).map DecodedInsn.insn) =
      [[.branch .eq 0 0 0xFFFF false false, .nop]] := by decide +kernel
  have cached : (ran.shared.cache.blocks[(0 : BlockId)]?).isSome = true := by decide +kernel
  have fresh : ∀ c ∈ (start 4096 {} [{}]).cores, ∃ s : Cpu, c.cpu = s.reset := by
    intro c mem
    obtain ⟨config, -, rfl⟩ := List.mem_map.1 mem
    exact ⟨_, rfl⟩
  have still : ∀ call ∈ ran.calls 0 [.raiseLine 0 0x400, .step 0, .call (.write .word 0 0)],
      ∀ i ∈ call.1.completed call.2, ∀ rt, i.insn ≠ .fpuMove .ctc1 rt 31 := by
    intro call called i here rt moves
    have completed := List.mem_map_of_mem (f := fun call => (call.1.completed call.2).map DecodedInsn.insn) called
    have insn := List.mem_map_of_mem (f := DecodedInsn.insn) here
    rw [insns, List.mem_singleton] at completed
    simp [completed, moves] at insn
  obtain ⟨c, found, marks⟩ := Option.map_eq_some_iff.1 fcr31
  obtain ⟨c', found', marks'⟩ := constants_survive.2.1 ran 0 c _ found (by simp [Op.Spares]) still
  obtain ⟨e, held⟩ := Option.isSome_iff_exists.1 cached
  obtain ⟨exit, host, ran', upholds⟩ := constants_survive.2.2 4096 {} [{}] .probes markOps 0 e held 0
    (Vector.replicate _ 0) ⟨Cpu.new, Memory.empty 0⟩ rfl
  refine ⟨constants_survive.1 _ markOps fresh (by simp [markOps, Op.Lawful]), ⟨c', found', ?_, ?_⟩,
    0, e, exit, host, held, ran', upholds.zero⟩
  · exact marks' Fcr31.si (by simp) (by rw [marks]; decide)
  · exact marks' Fcr31.so (by simp) (by rw [marks]; decide)

end Machine

end EmotionEngine
