import EmotionEngine.Proofs.Machine.Handlers
import EmotionEngine.Proofs.Machine.Lines

/-!
The timer counts instructions, and it makes no difference how they are cut into blocks. After each block Count goes
on by the number of its instructions, and the timer requests an interrupt if Count has come to Compare on the way;
what lies between two blocks is the distance that is left.

1. `Cpu.Ticks n` says what becomes of Count, Compare and the request while `n` instructions are counted. It adds up
   (`Ticks.trans`), and whatever leaves the three alone goes in between.
2. Counting alone changes nothing else (`Cpu.Counted`), which settles the processor (`Counted.unique`). So counting
   block by block is counting at once (`Cpu.countAll_eq`).
3. A step of a core counts the block that it runs, if it runs one; all else in it leaves the timer alone, as long as
   no instruction writes Count or Compare and interrupt line 7, which has its bit in common with the timer, is not
   raised (`Core.step_ticks`).

Main statement: `Machine.timer_paced`.
-/

namespace EmotionEngine

/-- The instruction writes neither Count nor Compare. -/
def Insn.SparesTimer (i : Insn) : Prop :=
  ∀ rt rd, i = .cop0Move .mtc0 rt rd → rd ≠ Cop0.count ∧ rd ≠ Cop0.compare

namespace Cpu

/-! ## Counting -/

def timerPending (s : Cpu) : Bool := (s.creg Cop0.cause).getLsbD Core.Line.seven.place

/-- From `s` to `t`, `n` instructions are counted: the timer requests an interrupt if it did before or if one of
them brings Count to Compare. -/
structure Ticks (n : Nat) (s t : Cpu) : Prop where
  count : t.creg Cop0.count = s.creg Cop0.count + BitVec.ofNat 32 n
  compare : t.creg Cop0.compare = s.creg Cop0.compare
  timer : t.timerPending = true ↔ s.timerPending = true ∨
    ∃ j, 1 ≤ j ∧ j ≤ n ∧ s.creg Cop0.count + BitVec.ofNat 32 j = s.creg Cop0.compare

/-- Counting changes nothing but Count and the timer's request. -/
structure Counted (n : Nat) (s t : Cpu) : Prop extends Ticks n s t where
  requests : ∀ i, i ≠ Core.Line.seven.place →
    (t.creg Cop0.cause).getLsbD i = (s.creg Cop0.cause).getLsbD i
  control : ∀ r, r ≠ Cop0.count → r ≠ Cop0.cause → t.creg r = s.creg r
  rest : t = { s with cop0 := t.cop0 }

section
variable {m n : Nat} {s t u : Cpu}

theorem ticks_zero (count : t.creg Cop0.count = s.creg Cop0.count) (compare : t.creg Cop0.compare = s.creg Cop0.compare)
    (timer : t.timerPending = s.timerPending) : Ticks 0 s t := by
  refine ⟨count.trans (BitVec.add_zero _).symm, compare, ?_⟩
  rw [timer]
  refine ⟨.inl, ?_⟩
  rintro (pending | ⟨j, least, most, -⟩)
  · exact pending
  · omega

theorem ticks_refl (s : Cpu) : Ticks 0 s s := ticks_zero rfl rfl rfl

/-- What is left of the way to Compare after `m` instructions is the way of those that come after. -/
theorem Ticks.trans (first : Ticks m s t) (later : Ticks n t u) : Ticks (m + n) s u := by
  have further (j : Nat) : t.creg Cop0.count + BitVec.ofNat 32 j = t.creg Cop0.compare ↔
      s.creg Cop0.count + BitVec.ofNat 32 (m + j) = s.creg Cop0.compare := by
    rw [first.count, first.compare, BitVec.ofNat_add, BitVec.add_assoc]
  refine ⟨?_, later.compare.trans first.compare, ?_⟩
  · rw [later.count, first.count, BitVec.ofNat_add, BitVec.add_assoc]
  · rw [later.timer, first.timer]
    constructor
    · rintro ((pending | ⟨j, least, most, meets⟩) | ⟨j, least, most, meets⟩)
      · exact .inl pending
      · exact .inr ⟨j, least, by omega, meets⟩
      · exact .inr ⟨m + j, by omega, by omega, (further j).1 meets⟩
    · rintro (pending | ⟨j, least, most, meets⟩)
      · exact .inl (.inl pending)
      · by_cases early : j ≤ m
        · exact .inl (.inr ⟨j, least, early, meets⟩)
        · refine .inr ⟨j - m, by omega, by omega, (further _).2 ?_⟩
          rwa [Nat.add_sub_cancel' (by omega)]

theorem Ticks.quiet (first : Ticks n s t) (later : Ticks 0 t u) : Ticks n s u := first.trans later

theorem counted_refl (s : Cpu) : Counted 0 s s := ⟨ticks_refl s, fun _ _ => rfl, fun _ _ _ => rfl, rfl⟩

theorem Counted.trans (first : Counted m s t) (later : Counted n t u) : Counted (m + n) s u where
  toTicks := first.toTicks.trans later.toTicks
  requests i other := (later.requests i other).trans (first.requests i other)
  control r count cause := (later.control r count cause).trans (first.control r count cause)
  rest := by
    rw [later.rest, first.rest]

/-- How many instructions are counted settles what the processor is afterwards. -/
theorem Counted.unique (h : Counted n s t) (h' : Counted n s u) : t = u := by
  have cause : t.creg Cop0.cause = u.creg Cop0.cause := by
    apply BitVec.eq_of_getLsbD_eq
    intro i _
    by_cases timer : i = Core.Line.seven.place
    · subst timer
      exact Bool.eq_iff_iff.2 (h.timer.trans h'.timer.symm)
    · rw [h.requests i timer, h'.requests i timer]
  have control (r : RegNum) : t.creg r = u.creg r := by
    by_cases isCount : r = Cop0.count
    · rw [isCount, h.count, h'.count]
    · by_cases isCause : r = Cop0.cause
      · rw [isCause, cause]
      · rw [h.control r isCount isCause, h'.control r isCount isCause]
  have cop0 : t.cop0 = u.cop0 := Vector.ext fun i inside => control ⟨i, inside⟩
  rw [h.rest, h'.rest, cop0]

theorem advanceCount_counted (s : Cpu) (few : n < twoPow 32) : Counted n s (s.advanceCount (BitVec.ofNat 32 n)) := by
  have least : (BitVec.ofNat 32 n).toNat = n := by
    rw [BitVec.toNat_ofNat]
    exact Nat.mod_eq_of_lt few
  have near := distance_lt_iff (s.creg Cop0.count) (s.creg Cop0.compare) (BitVec.ofNat 32 n)
  rw [least] at near
  have cause := s.cause_advanceCount (BitVec.ofNat 32 n)
  constructor
  case toTicks =>
    refine ⟨s.count_advanceCount _, s.creg_advanceCount _ (by decide) (by decide), ?_⟩
    rw [timerPending, cause, ← near]
    split
    · next comes =>
      rw [BitVec.getLsbD_or, Core.Line.getLsbD_ipTimer]
      simp only [comes, decide_true, Bool.or_true, or_true]
    · next stays =>
      simp only [stays, or_false]
      rfl
  case requests =>
    intro i other
    have apart : Cause.ipTimer.getLsbD i = false := by
      rw [show Cause.ipTimer = BitVec.twoPow 32 Core.Line.seven.place by decide, BitVec.getLsbD_twoPow]
      simp [Ne.symm other]
    rw [cause]
    split
    · rw [BitVec.getLsbD_or, apart, Bool.or_false]
    · rfl
  case control => exact fun r count cause => s.creg_advanceCount _ count cause
  case rest =>
    unfold advanceCount
    dsimp only
    split <;> rfl

end

/-- Count blocks of these lengths, one after another. -/
def countAll (s : Cpu) (lengths : List Nat) : Cpu :=
  lengths.foldl (fun s n => s.advanceCount (BitVec.ofNat 32 n)) s

theorem countAll_counted (s : Cpu) {lengths : List Nat} (few : lengths.sum < twoPow 32) :
    Counted lengths.sum s (s.countAll lengths) := by
  induction lengths generalizing s with
  | nil => exact s.counted_refl
  | cons n rest ih =>
    rw [List.sum_cons] at few ⊢
    exact (s.advanceCount_counted (by omega)).trans (ih _ (by omega))

/-- It makes no difference where one block ends and the next begins. -/
theorem countAll_eq (s : Cpu) {lengths : List Nat} (few : lengths.sum < twoPow 32) :
    s.countAll lengths = s.advanceCount (BitVec.ofNat 32 lengths.sum) :=
  (s.countAll_counted few).unique (s.advanceCount_counted few)

/-! ## What leaves the timer alone -/

section
variable {n : Nat} {s t u : Cpu} (h : Ticks n s t)
include h

theorem Ticks.keep (count : u.creg Cop0.count = t.creg Cop0.count) (compare : u.creg Cop0.compare = t.creg Cop0.compare)
    (timer : u.timerPending = t.timerPending) : Ticks n s u :=
  h.quiet (ticks_zero count compare timer)

theorem Ticks.setCreg {r : RegNum} (v : Word) (count : Cop0.count ≠ r) (compare : Cop0.compare ≠ r)
    (cause : Cop0.cause ≠ r) : Ticks n s (t.setCreg r v) := by
  refine h.keep (t.creg_setCreg_ne count v) (t.creg_setCreg_ne compare v) ?_
  rw [timerPending, t.creg_setCreg_ne cause v]
  rfl

theorem Ticks.setCause {v : Word} (timer : v.getLsbD Core.Line.seven.place = t.timerPending) :
    Ticks n s (t.setCreg Cop0.cause v) := by
  refine h.keep (t.creg_setCreg_ne (by decide) v) (t.creg_setCreg_ne (by decide) v) ?_
  rwa [timerPending, t.creg_setCreg_self]

theorem Ticks.sameControl (same : SameControl t u) : Ticks n s u := by
  refine h.keep (same.control _ (by decide) (by decide)) (same.control _ (by decide) (by decide)) ?_
  have outside : (~~~Cause.ceMask).getLsbD Core.Line.seven.place = true := by decide
  have bit := congrArg (BitVec.getLsbD · Core.Line.seven.place) same.cause
  simp only [BitVec.getLsbD_and, outside, Bool.and_true] at bit
  exact bit

theorem Ticks.cop0 (same : u.cop0 = t.cop0) : Ticks n s u := h.sameControl (sameControl_of_cop0 same)

theorem Ticks.writeCreg {r : RegNum} (v : Word) (count : r ≠ Cop0.count) (compare : r ≠ Cop0.compare) :
    Ticks n s (t.writeCreg r v) := by
  unfold Cpu.writeCreg
  rw [if_neg compare]
  split
  · exact h
  · split
    · refine h.setCause ?_
      have apart : Cause.softwareMask.getLsbD Core.Line.seven.place = false := by decide
      rw [BitVec.getLsbD_or, BitVec.getLsbD_and, BitVec.getLsbD_and, BitVec.getLsbD_not, apart,
        decide_eq_true Core.Line.seven.place_lt]
      simp only [Bool.not_false, Bool.and_true, Bool.and_false, Bool.or_false]
      rfl
    · next other => exact h.setCreg v count.symm compare.symm (Ne.symm other)

theorem Ticks.eret : Ticks n s t.eret.2 := by
  have raised : Ticks n s t.raiseUnusable := h.sameControl t.sameButExit_raiseUnusable.sameControl
  unfold Cpu.eret
  split
  · have moved (pc v : Word) : Ticks n s ({ t with pc }.setCreg Cop0.status v) :=
      (h.cop0 (u := { t with pc }) rfl).setCreg v (by decide) (by decide) (by decide)
    split <;> exact moved _ _
  · exact raised

theorem Ticks.setEie (enable : Bool) : Ticks n s (t.setEie enable).2 := by
  have raised : Ticks n s t.raiseUnusable := h.sameControl t.sameButExit_raiseUnusable.sameControl
  unfold Cpu.setEie
  split
  · split
    · exact h.setCreg (r := Cop0.status) _ (by decide) (by decide) (by decide)
    · exact h
  · exact raised

/-- The entry of an exception writes only its own fields of Cause. -/
theorem Ticks.enterException (code : ExcCode) (pc : Word) (slot : Bool) :
    Ticks n s (t.enterException code pc slot) := by
  have cause := t.cause_enterException code pc slot
  have exc : (code.toWord <<< 2).getLsbD Core.Line.seven.place = false := by cases code <;> decide
  have masks : (~~~Cause.excCodeMask).getLsbD Core.Line.seven.place = true ∧
      (~~~Cause.bd).getLsbD Core.Line.seven.place = true ∧ Cause.bd.getLsbD Core.Line.seven.place = false := by decide
  refine h.keep ?_ ?_ ?_
  · exact t.creg_enterException code pc slot (by decide) (by decide) (by decide)
  · exact t.creg_enterException code pc slot (by decide) (by decide) (by decide)
  · rw [timerPending, cause]
    dsimp only
    split
    · split <;> simp [exc, masks, timerPending]
    · simp [exc, masks, timerPending]

theorem Ticks.latch {lines : Word} (low : lines.getLsbD Core.Line.seven.place = false) :
    Ticks n s (t.latchInterrupts lines) := by
  refine h.setCause ?_
  simp [low, Core.Line.getLsbD_ipTimer, Core.Line.getLsbD_ipMask, timerPending]

end

/-- The timer lasts in a block that does not write Count or Compare. -/
theorem lasting_ticks (n : Nat) (s : Cpu) : Lasting (Ticks n s) Insn.SparesTimer where
  same same h := h.sameControl same
  writes {g i} writes spares completes h := by
    cases hi : i.insn with
    | cop0Move op rt rd =>
      cases op with
      | mfc0 => simp [hi, Insn.writesControl] at writes
      | mtc0 =>
        obtain ⟨count, compare⟩ := spares rt rd hi
        have usable := g.usable_of_completes writes completes
        simp only [Guest.exec, hi, Guest.execPrivileged_cpu, g.cpu.mtc0_usable usable]
        exact h.writeCreg _ count compare
    | eret =>
      simp only [Guest.exec, hi, Guest.execPrivileged_cpu]
      exact h.eret
    | ei | di =>
      simp only [Guest.exec, hi, Guest.execPrivileged_cpu]
      exact h.setEie _
    | _ => simp [hi, Insn.writesControl] at writes

end Cpu

/-! ## Steps -/

namespace Core

/-- How many instructions a step counts. -/
def counted (c : Core) (s : Shared) : Nat := ((c.runs? s).map Block.icount).getD 0

section
variable {n : Nat} {s : Cpu} {c : Core}

theorem takeException_ticks (h : Cpu.Ticks n s c.cpu) : Cpu.Ticks n s c.takeException.2.cpu := by
  have settled : Cpu.Ticks n s { c.cpu with faultPending := false } := h.cop0 rfl
  have takes := c.takeException_takes
  generalize c.takeException = result at takes ⊢
  cases takes with
  | unknown => exact h
  | vectors => exact settled.enterException _ _ _
  | halts => exact settled

theorem execute_ticks {shared : Shared} {r : Runnable} (few : r.block.icount < twoPow 32)
    (spares : ∀ i ∈ (({ cpu := c.cpu, mem := shared.mem } : Guest).enter r.block).completed r.block.insns,
      i.insn.SparesTimer) :
    Cpu.Ticks r.block.icount c.cpu (settle (c.execute shared r)).2.1.cpu := by
  have ran := r.block.run_lasting (Cpu.lasting_ticks 0 c.cpu) { cpu := c.cpu, mem := shared.mem } spares
    c.cpu.ticks_refl
  obtain ⟨-, core, -, -⟩ := c.execute_eq shared r
  generalize c.execute shared r = executed at core
  obtain ⟨exit, c', shared'⟩ := executed
  obtain rfl : c' = _ := core
  have counted := ran.trans (Cpu.advanceCount_counted _ few).toTicks
  rw [Nat.zero_add] at counted
  cases exit with
  | exception => exact takeException_ticks counted
  | _ => exact counted

/-- A step counts the block that it runs, and else leaves the timer alone. -/
theorem step_ticks {shared : Shared} (low : c.lines.getLsbD Line.seven.place = false)
    (few : c.counted shared < twoPow 32) (spares : ∀ i ∈ c.completed shared, i.insn.SparesTimer) :
    Cpu.Ticks (c.counted shared) c.cpu (c.step shared).2.1.cpu := by
  have latched : Cpu.Ticks 0 c.cpu c.passing.cpu := c.cpu.ticks_refl.latch low
  unfold counted at few ⊢
  have stepped := c.step_stepped shared
  generalize c.step shared = result at stepped ⊢
  cases stepped with
  | stops stopped =>
    simp only [runs?, stopped, Bool.true_or, if_true]
    exact c.cpu.ticks_refl
  | interrupts free deliverable =>
    simp only [runs?, deliverable, Bool.or_true, if_true]
    exact latched.enterException _ _ _
  | fails searches found =>
    rw [runs?_eq searches found]
    exact latched
  | faults searches found =>
    rw [runs?_eq searches found]
    refine takeException_ticks (latched.sameControl ?_)
    exact ((Cpu.sameButExit_raiseFault _ .instructionBus _).at _ _ _).sameControl
  | runs searches found =>
    rw [runs?_eq searches found] at few ⊢
    rw [completed_eq searches found] at spares
    have both := latched.trans (execute_ticks few spares)
    rwa [Nat.zero_add] at both

end

end Core

/-! ## Sessions -/

namespace Machine

/-- How many instructions a core counts in a session. -/
def counted (m : Machine) (core : Nat) (ops : List Op) : Nat :=
  ((m.calls core ops).map fun call => call.1.counted call.2).sum

/-- All that a core does in a session comes to the timer as so many instructions. -/
theorem session_ticks {m : Machine} {core : Nat} {c : Core} {ops : List Op} (found : m.cores[core]? = some c)
    (spares : ∀ op ∈ ops, op.Spares core)
    (low : ∀ call ∈ m.calls core ops, call.1.lines.getLsbD Core.Line.seven.place = false)
    (unwritten : ∀ call ∈ m.calls core ops, ∀ i ∈ call.1.completed call.2, i.insn.SparesTimer)
    (few : m.counted core ops < twoPow 32) :
    ∃ c', (m.session ops).2.cores[core]? = some c' ∧ Cpu.Ticks (m.counted core ops) c.cpu c'.cpu := by
  induction ops generalizing m c with
  | nil => exact ⟨c, found, c.cpu.ticks_refl⟩
  | cons op rest ih =>
    obtain ⟨c', found', became⟩ := apply_found found (spares op List.mem_cons_self)
    have total : m.counted core (op :: rest) =
        ((m.call? core op).toList.map fun call => call.1.counted call.2).sum +
          (m.apply op).2.counted core rest := by
      simp only [counted, calls, List.map_append, List.sum_append]
    obtain ⟨c'', found'', later⟩ := ih found' (fun o mem => spares o (List.mem_cons_of_mem _ mem))
      (fun call mem => low call (List.mem_append_right _ mem))
      (fun call mem => unwritten call (List.mem_append_right _ mem))
      (Nat.lt_of_le_of_lt (by rw [total]; exact Nat.le_add_left _ _) few)
    refine ⟨c'', found'', ?_⟩
    rw [total] at few ⊢
    refine Cpu.Ticks.trans ?_ later
    obtain ⟨called, rfl⟩ | ⟨idle, -, pc, moved⟩ := became
    · have here : (c, m.shared) ∈ m.calls core (op :: rest) := by simp [calls, called]
      rw [called] at few ⊢
      simp only [Option.toList_some, List.map_cons, List.map_nil, List.sum_singleton] at few ⊢
      have one := Nat.lt_of_le_of_lt (Nat.le_add_right _ _) few
      exact Core.step_ticks (low (c, m.shared) here) one (unwritten (c, m.shared) here)
    · rw [idle, moved]
      exact c.cpu.ticks_refl.cop0 rfl

/-- The timer does not depend on how code is cut into blocks. Counting blocks one after another, less than a whole
round in all, is counting their instructions at once: Count goes on by their number, the timer requests an
interrupt if it did before or if Count comes to Compare with one of them, and nothing else changes. In a session
too, Count, Compare and the timer's request after it depend only on how many instructions the core has counted,
whatever blocks it has run and whatever has gone on around it, as long as no instruction writes Count or Compare
and line 7 is not raised when the core steps. -/
theorem timer_paced :
    (∀ (s : Cpu) (lengths : List Nat), lengths.sum < twoPow 32 →
      s.countAll lengths = s.advanceCount (BitVec.ofNat 32 lengths.sum) ∧
        Cpu.Counted lengths.sum s (s.countAll lengths)) ∧
      ∀ (m : Machine) (core : Nat) (c : Core) (ops : List Op), m.cores[core]? = some c →
        (∀ op ∈ ops, op.Spares core) →
          (∀ call ∈ m.calls core ops, call.1.lines.getLsbD Core.Line.seven.place = false) →
            (∀ call ∈ m.calls core ops, ∀ i ∈ call.1.completed call.2, i.insn.SparesTimer) →
              m.counted core ops < twoPow 32 →
                ∃ c', (m.session ops).2.cores[core]? = some c' ∧
                  Cpu.Ticks (m.counted core ops) c.cpu c'.cpu := by
  refine ⟨fun s lengths few => ⟨s.countAll_eq few, s.countAll_counted few⟩, ?_⟩
  intro m core c ops found spares low unwritten few
  exact session_ticks found spares low unwritten few

/-- Count is about to wrap, and Compare is three instructions away. -/
def pacedCpu : Cpu := (Cpu.new.setCreg Cop0.count 0xFFFFFFFE).setCreg Cop0.compare 1

/-- A core in front of a loop of three instructions. -/
def pacedMachine : Machine :=
  { shared := Shared.ofMemory (((Memory.empty 4096).withRam 0 4096).write .word 4 0x1000FFFE).2 {}
    cores := [{ cpu := { pacedCpu with pc := 0 }, config := { execMode := .interpreter } }] }

/-- An interrupt line, though not line 7, is raised between two rounds of the loop. -/
def pacedOps : List Op := [.step 0, .raiseLine 0 0x400, .step 0]

/-- Blocks of two and four instructions, and two rounds of the loop: either way Count comes to Compare, past its
wrap, with the third instruction, and the request stays. -/
theorem timer_paced_wrap :
    (pacedCpu.countAll [2, 4]).timerPending = true ∧ (pacedCpu.countAll [2]).timerPending = false ∧
      ∃ c', (pacedMachine.session pacedOps).2.cores[0]? = some c' ∧ c'.cpu.creg Cop0.count = 4 ∧
        c'.cpu.timerPending = true := by
  have insns : (pacedMachine.calls 0 pacedOps).map (fun call => (call.1.completed call.2).map DecodedInsn.insn) =
      [[.nop, .branch .eq 0 0 0xFFFE false false, .nop], [.nop, .branch .eq 0 0 0xFFFE false false, .nop]] := by
    decide +kernel
  have spares : ∀ call ∈ pacedMachine.calls 0 pacedOps, ∀ i ∈ call.1.completed call.2, i.insn.SparesTimer := by
    intro call called i here rt rd write
    have ran := List.mem_map_of_mem (f := fun call => (call.1.completed call.2).map DecodedInsn.insn) called
    have insn := List.mem_map_of_mem (f := DecodedInsn.insn) here
    simp only [insns, List.mem_cons, List.not_mem_nil, or_false, or_self] at ran
    simp [ran, write] at insn
  have low : ∀ call ∈ pacedMachine.calls 0 pacedOps,
      call.1.lines.getLsbD Core.Line.seven.place = false := by
    have each : (pacedMachine.calls 0 pacedOps).map (fun call => call.1.lines) = [0, 0x400] := by decide +kernel
    intro call called
    have lines := List.mem_map_of_mem (f := fun call => call.1.lines) called
    simp only [each, List.mem_cons, List.not_mem_nil, or_false] at lines
    obtain lines | lines := lines <;> rw [lines] <;> decide
  have counted : pacedMachine.counted 0 pacedOps = 6 := by decide +kernel
  obtain ⟨-, six⟩ := timer_paced.1 pacedCpu [2, 4] (by decide)
  obtain ⟨-, two⟩ := timer_paced.1 pacedCpu [2] (by decide)
  obtain ⟨c', found, ticks⟩ := timer_paced.2 pacedMachine 0 _ pacedOps rfl (by simp [pacedOps, Op.Spares]) low
    spares (by rw [counted]; decide)
  rw [counted] at ticks
  refine ⟨six.timer.2 (.inr ⟨3, by decide, by decide, by decide +kernel⟩), ?_, c', found, ?_, ?_⟩
  · rw [Bool.eq_false_iff]
    intro pending
    obtain pending | ⟨j, least, most, meets⟩ := two.timer.1 pending
    · exact absurd pending (by decide +kernel)
    · obtain rfl | rfl : j = 1 ∨ j = 2 := by
        rw [List.sum_singleton] at most
        omega
      all_goals exact absurd meets (by decide +kernel)
  · rw [ticks.count]
    decide +kernel
  · exact ticks.timer.2 (.inr ⟨3, by decide, by decide, by decide +kernel⟩)

end Machine

end EmotionEngine
