import EmotionEngine.Proofs.Block.Units

/-!
Exceptions are precise. When a block ends in an exception, everything before the instruction that raised it
has happened, and nothing of that instruction or after it.

1. An access of the guest that fails has done nothing (`Guest.load_failed`, `Guest.store_failed`). It is
   aligned, so it does not go byte by byte across a page, where a part could be done already.
2. So an instruction that faults leaves memory as it was, and of the processor it changes only what tells of
   the exception (`Guest.exec_precise`).
3. In a block that was built, an instruction in a delay slot comes after its branch, and what could not be
   fetched is what comes after the block (`Block.build_stands`).

Main statement: `Block.exceptions_precise`.
-/

namespace EmotionEngine

/-! ## What tells of an exception -/

/-- Two processors that differ at most in what tells of an exception: the outcome fields, the program
counter, BadVAddr and the field CE of Cause. -/
structure Cpu.SameButExit (s t : Cpu) : Prop where
  rest : t = { s with
    pc := t.pc, cop0 := t.cop0, excCode := t.excCode, excDelaySlot := t.excDelaySlot,
    faultPending := t.faultPending }
  control : ∀ r, r ≠ Cop0.badVAddr → r ≠ Cop0.cause → t.creg r = s.creg r
  cause : t.creg Cop0.cause &&& ~~~Cause.ceMask = s.creg Cop0.cause &&& ~~~Cause.ceMask

namespace Cpu

theorem sameButExit_refl (s : Cpu) : SameButExit s s := ⟨rfl, fun _ _ _ => rfl, rfl⟩

/-- The outcome fields and the program counter do not count. -/
theorem SameButExit.at {s t : Cpu} (h : SameButExit s t) (pc excCode : Word) (excDelaySlot : Bool) :
    SameButExit s { t with pc, excCode, excDelaySlot } := by
  refine ⟨?_, h.control, h.cause⟩
  have rest := h.rest
  generalize t.cop0 = cop0 at rest ⊢
  rw [rest]

theorem sameButExit_raiseFault (s : Cpu) (code : ExcCode) (addr : Option Word) :
    SameButExit s (s.raiseFault code addr) := by
  cases addr with
  | none => exact ⟨rfl, fun _ _ _ => rfl, rfl⟩
  | some a =>
    refine ⟨rfl, fun r other _ => ?_, ?_⟩
    · exact (creg_setCreg _ Cop0.badVAddr r a).trans (if_neg other)
    · have kept := (creg_setCreg { s with excCode := code.toWord, faultPending := true } Cop0.badVAddr
        Cop0.cause a).trans (if_neg (by decide))
      exact congrArg (· &&& ~~~Cause.ceMask) kept

theorem sameButExit_raiseUnusable (s : Cpu) : SameButExit s s.raiseUnusable := by
  refine ⟨rfl, fun r _ other => ?_, ?_⟩
  · exact (creg_setCreg _ Cop0.cause r _).trans (if_neg other)
  · show (s.setCreg Cop0.cause _).creg Cop0.cause &&& _ = _
    rw [creg_setCreg, if_pos rfl, BitVec.and_assoc, BitVec.and_self]

end Cpu

/-! ## Accesses -/

namespace Guest

variable (g : Guest)

/-- A load that fails has read nothing, of memory or of a device. -/
theorem load_failed (w : Width) (vaddr : Word) (failed : (g.load w vaddr).1 = none) :
    (g.load w vaddr).2.mem = g.mem := by
  unfold load at failed ⊢
  dsimp only at failed ⊢
  split
  · next aligned =>
    have inside := aligned_inPage aligned
    cases found : g.mem.page? (pageOf (virtToPhys (accessAddr w vaddr))) with
    | some e =>
      rw [if_pos aligned, Memory.read_mapped inside found] at failed
      cases failed
    | none =>
      rw [if_pos aligned, Memory.read_unmapped inside found] at failed
      rw [Memory.read_unmapped inside found]
      unfold Memory.readDevice at failed ⊢
      dsimp only at failed ⊢
      cases device : g.mem.device? (virtToPhys (accessAddr w vaddr)) with
      | none => rfl
      | some r =>
        rw [device] at failed
        cases failed
  · rfl

/-- A store that fails has stored nothing, and told no device of anything. -/
theorem store_failed (w : Width) (vaddr : Word) (v : Quad) (failed : (g.store w vaddr v).1 = .fault) :
    (g.store w vaddr v).2.mem = g.mem := by
  unfold store at failed ⊢
  dsimp only at failed ⊢
  split
  · next aligned =>
    have inside := aligned_inPage aligned
    have written {effect : WriteEffect} {mem : Memory}
        (ok : g.mem.write w (accessAddr w vaddr) v = (.ok effect, mem)) : False := by
      rw [if_pos aligned, ok] at failed
      dsimp only at failed
      split at failed <;> cases failed
    cases found : g.mem.page? (pageOf (virtToPhys (accessAddr w vaddr))) with
    | some e =>
      have eq := Memory.write_mapped inside found v
      cases writable : e.readOnly with
      | true =>
        rw [Memory.writePage_locked writable] at eq
        rw [eq]
        rfl
      | false =>
        obtain ⟨effect, ok⟩ :=
          Memory.writePage_ok writable g.mem (accessAddr w vaddr) (leBytes w.size v.toNat)
        exact (written (eq.trans (Prod.ext ok rfl))).elim
    | none =>
      have eq := Memory.write_unmapped inside found v
      unfold Memory.writeDevice at eq
      dsimp only at eq
      split at eq
      · exact (written eq).elim
      · rw [eq]
        rfl
  · rfl

/-! ## Instructions -/

/-- If it faults, memory is as it was, and so is the processor but for what tells of the exception. -/
def Precise (r : Flow × Guest) : Prop :=
  ∀ code, r.1 = .fault code → r.2.mem = g.mem ∧ g.cpu.SameButExit r.2.cpu

theorem Does.precise {g : Guest} {i : DecodedInsn} {r : Flow × Guest} (does : g.Does i r) : g.Precise r := by
  intro code faults
  cases does with
  | traps other => exact ⟨rfl, g.cpu.sameButExit_refl⟩
  | @misloads w vaddr code mem accessed other failed =>
    have undone := g.load_failed w vaddr (by rw [failed])
    rw [failed] at undone
    exact ⟨undone, g.cpu.sameButExit_raiseFault code (some vaddr)⟩
  | @misstores w vaddr v code mem accessed other failed =>
    have undone := g.store_failed w vaddr v (by rw [failed])
    rw [failed] at undone
    exact ⟨undone, g.cpu.sameButExit_raiseFault code (some vaddr)⟩
  | refused => exact ⟨rfl, g.cpu.sameButExit_raiseUnusable⟩
  | _ => cases faults

theorem exec_precise (i : DecodedInsn) : g.Precise (g.exec i) := (g.exec_does i).precise

/-- Instructions that end in an exception: all before the one that faults have run, and the exception is
recorded at its place. -/
theorem execAll_exception {insns : List DecodedInsn} {g h : Guest}
    (raised : g.execAll insns = (some .exception, h)) :
    ∃ k i before code, insns[k]? = some i ∧ g.execAll (insns.take k) = (none, before) ∧
      (before.exec i).1 = .fault code ∧ h = (before.exec i).2.raiseAt i code := by
  induction insns generalizing g with
  | nil => cases raised
  | cons i rest ih =>
    by_cases next : (g.exec i).1 = .next
    · rw [g.execAll_next rest next] at raised
      obtain ⟨k, j, before, code, found, ran, faults, recorded⟩ := ih raised
      refine ⟨k + 1, j, before, code, found, ?_, faults, recorded⟩
      rw [List.take_succ_cons, g.execAll_next _ next, ran]
    · refine ⟨0, i, g, ?_⟩
      unfold execAll at raised
      generalize g.exec i = r at next raised
      obtain ⟨flow, after⟩ := r
      cases flow with
      | next => exact absurd rfl next
      | fault code =>
        cases raised
        exact ⟨code, rfl, rfl, rfl, rfl⟩
      | skipDelaySlot => cases raised
      | redirect => cases raised
      | codeModified => cases raised

/-- An instruction that faults ends those that are run, once the ones before it have run. -/
theorem execAll_fault {insns : List DecodedInsn} {g before : Guest} {k : Nat} {i : DecodedInsn} {code : ExcCode}
    (found : insns[k]? = some i) (ran : g.execAll (insns.take k) = (none, before))
    (faults : (before.exec i).1 = .fault code) :
    g.execAll insns = (some .exception, (before.exec i).2.raiseAt i code) := by
  induction insns generalizing g k with
  | nil => cases found
  | cons j rest ih =>
    cases k with
    | zero =>
      obtain rfl : j = i := Option.some.inj found
      obtain rfl : g = before := (Prod.mk.inj ran).2
      rw [execAll]
      generalize g.exec j = r at faults ⊢
      obtain ⟨flow, after⟩ := r
      obtain rfl : flow = .fault code := faults
      rfl
    | succ k =>
      rw [List.take_succ_cons] at ran
      by_cases next : (g.exec j).1 = .next
      · rw [g.execAll_next _ next] at ran ⊢
        exact ih found ran
      · obtain ⟨exit, ended⟩ := g.execAll_ends (rest.take k) next
        rw [ended] at ran
        cases ran

end Guest

/-! ## Blocks -/

namespace Block

/-- Where an exception comes from that ends a block after `k` of its instructions, and what the processor
tells of it. -/
inductive Origin (b : Block) (k : Nat) (before : Guest) (cpu : Cpu) : Prop where
  /-- Instruction `k` faults. -/
  | insn (i : DecodedInsn) (code : ExcCode) (found : b.insns[k]? = some i) (plain : i.inDelaySlot = false)
    (faults : (before.exec i).1 = .fault code) (recorded : cpu.excCode = code.toWord)
    (pc : cpu.pc = i.addr) (slot : cpu.excDelaySlot = false)
  /-- Instruction `k` faults, in the delay slot of the one before it. -/
  | delaySlot (j : Nat) (branch i : DecodedInsn) (code : ExcCode) (after : k = j + 1)
    (owner : b.insns[j]? = some branch) (branches : branch.insn.hasDelaySlot = true)
    (found : b.insns[k]? = some i) (inSlot : i.inDelaySlot = true) (next : i.addr = branch.addr + 4)
    (faults : (before.exec i).1 = .fault code) (recorded : cpu.excCode = code.toWord)
    (pc : cpu.pc = branch.addr) (slot : cpu.excDelaySlot = true)
  /-- The instruction after the block cannot be fetched. -/
  | fetch (addr : Word) (all : k = b.insns.length) (ends : b.terminator = .fetchFault addr none)
    (next : addr = b.start + BitVec.ofNat 32 (4 * k))
    (recorded : cpu.excCode = ExcCode.instructionBus.toWord) (pc : cpu.pc = addr)
    (slot : cpu.excDelaySlot = false)
  /-- A branch is after the block, and its delay slot cannot be fetched. -/
  | fetchSlot (branch : Word) (all : k = b.insns.length)
    (ends : b.terminator = .fetchFault (branch + 4) (some branch))
    (next : branch = b.start + BitVec.ofNat 32 (4 * k))
    (recorded : cpu.excCode = ExcCode.instructionBus.toWord) (pc : cpu.pc = branch)
    (slot : cpu.excDelaySlot = true)

/-- A block that raises an exception has run up to an instruction; since then, memory is as it was, and so is
the processor but for what tells of the exception. -/
structure RaisedAt (b : Block) (g : Guest) (k : Nat) (before after : Guest) : Prop where
  ran : (g.enter b).execAll (b.insns.take k) = (none, before)
  mem : after.mem = before.mem
  cpu : before.cpu.SameButExit after.cpu
  origin : b.Origin k before after.cpu

/-- An instruction that faults after those before it have run. -/
theorem raisedAt_fault {b : Block} (stands : Stands b.start b.insns b.terminator) {g before : Guest} {k : Nat}
    {i : DecodedInsn} {code : ExcCode} (found : b.insns[k]? = some i)
    (ran : (g.enter b).execAll (b.insns.take k) = (none, before)) (faults : (before.exec i).1 = .fault code) :
    RaisedAt b g k before ((before.exec i).2.raiseAt i code) := by
  obtain ⟨mem, cpu⟩ := before.exec_precise i code faults
  refine ⟨ran, mem, cpu.at _ _ _, ?_⟩
  cases slot : i.inDelaySlot with
  | false => exact .insn i code found slot faults rfl (by simp [Guest.raiseAt, slot]) slot
  | true =>
    obtain ⟨j, branch, rfl, owner, branches⟩ := stands.slot k i found slot
    have next : i.addr = branch.addr + 4 := by
      rw [stands.addr _ i found, stands.addr _ branch owner, Nat.mul_succ, BitVec.ofNat_add, BitVec.add_assoc]
      rfl
    refine .delaySlot j branch i code rfl owner branches found slot next faults rfl ?_ slot
    show (if i.inDelaySlot = true then i.addr - 4 else i.addr) = branch.addr
    rw [if_pos slot, next, BitVec.add_sub_cancel]

theorem raisedAt_insn {b : Block} (stands : Stands b.start b.insns b.terminator) {g h : Guest}
    (raised : (g.enter b).execAll b.insns = (some .exception, h)) :
    ∃ k before, RaisedAt b g k before h := by
  obtain ⟨k, i, before, code, found, ran, faults, rfl⟩ := Guest.execAll_exception raised
  exact ⟨k, before, raisedAt_fault stands found ran faults⟩

theorem raisedAt_end {b : Block} (stands : Stands b.start b.insns b.terminator) {g before : Guest}
    (ran : (g.enter b).execAll b.insns = (none, before)) (raised : (before.leave b).1 = .exception) :
    RaisedAt b g b.insns.length before (before.leave b).2 := by
  unfold Guest.leave at raised
  split at raised
  · next addr branchPc ends =>
    rw [Guest.leave_unfetched ends]
    have cpu := before.cpu.sameButExit_raiseFault .instructionBus (some addr)
    refine ⟨by rw [List.take_length, ran], rfl, cpu.at _ _ _, ?_⟩
    obtain ⟨rfl, next⟩ | ⟨rfl, next⟩ := stands.unfetched addr branchPc ends
    · exact .fetch addr rfl ends next rfl rfl rfl
    · rw [next] at ends
      exact .fetchSlot _ rfl ends rfl rfl rfl rfl
  · split at raised
    · cases raised
    · dsimp only at raised
      split at raised <;> cases raised

/-- Guest exceptions are precise. A block that was built and ends in an exception, in any guest, leaves all
registers, memory, versions of pages and accesses of devices as they were before the instruction that raised
it, but for what tells of it; and the place it tells is that instruction, or its branch if it is in a delay
slot. A load or store of any width that faults does no part of its access. -/
theorem exceptions_precise :
    (∀ {mem mem' : Memory} {limit : Nat} {stops : List Word} {entry : Word} {b : Block},
      build mem limit stops entry = (.ok b, mem') → ∀ g : Guest, (b.run g).1 = .exception →
        ∃ k before, RaisedAt b g k before (b.run g).2) ∧
      (∀ (g : Guest) (w : Width) (vaddr : Word), (g.load w vaddr).1 = none →
        (g.load w vaddr).2.mem = g.mem) ∧
      ∀ (g : Guest) (w : Width) (vaddr : Word) (v : Quad), (g.store w vaddr v).1 = .fault →
        (g.store w vaddr v).2.mem = g.mem := by
  refine ⟨fun built g raised => ?_, Guest.load_failed, Guest.store_failed⟩
  have stands := build_stands built
  unfold run at raised ⊢
  generalize ran : (g.enter _).execAll _ = r at raised ⊢
  obtain ⟨_ | exit, h⟩ := r
  · exact ⟨_, h, raisedAt_end stands ran raised⟩
  · obtain rfl : exit = .exception := raised
    exact raisedAt_insn stands ran

/-- A page of RAM with a branch whose delay slot stores where nothing is mapped. -/
def strayGuest : Guest :=
  let mem := (Memory.empty 4096).withRam 0 4096
  { cpu := { Cpu.new with pc := 0 }
    mem := (((mem.write .word 0 0x24010005).2.write .word 4 0x10000001).2.write .word 8 0xAC017000).2 }

def strayBlock : Block :=
  { start := 0
    stop := 12
    insns := [plainAt 0 0x24010005, plainAt 4 0x10000001, slotAt 8 0xAC017000]
    terminator := .branch
    pages := [{ page := 0, version := 0 }] }

/-- The store restarts at the branch, with the register that was set before it. -/
theorem exceptions_precise_stray :
    ∃ mem, build strayGuest.mem 512 [] 0 = (.ok strayBlock, mem) ∧
      let ran := strayBlock.run { strayGuest with mem }
      ran.1 = .exception ∧ ran.2.cpu.pc = 4 ∧ ran.2.cpu.excDelaySlot = true ∧ ran.2.cpu.reg 1 = 5 ∧
        ∃ k before, RaisedAt strayBlock { strayGuest with mem } k before ran.2 := by
  have built := eq_ok_of_toOption (r := build strayGuest.mem 512 [] 0) (b := strayBlock) (by decide +kernel)
  exact ⟨_, built, by decide +kernel, by decide +kernel, by decide +kernel, by decide +kernel,
    exceptions_precise.1 built _ (by decide +kernel)⟩

end Block

end EmotionEngine
