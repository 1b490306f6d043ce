import EmotionEngine.Proofs.Machine.Enduring

/-!
Code in user mode cannot touch system control. Every instruction that uses it first asks Status whether it
may, and every other leaves the control registers alone, so Status goes on to say no: through a block, and
through any number of steps, until the core takes an interrupt or its guest an exception. What changes
meanwhile is what the machine itself writes: BadVAddr and the field CE of Cause where an instruction faults,
the interrupt requests in Cause, and Count.

Main statement: `Machine.unprivileged_confined`.
-/

namespace EmotionEngine

namespace Cpu

/-- User code runs: Status selects another mode than the kernel's, tells of no exception or error that is being
handled, and does not grant system control. -/
structure Unprivileged (s : Cpu) : Prop where
  mode : s.status &&& Status.ksuMask ≠ 0
  exl : s.status &&& Status.exl = 0
  erl : s.status &&& Status.erl = 0
  cu0 : s.status &&& Status.cu0 = 0

theorem Unprivileged.refused {s : Cpu} (h : s.Unprivileged) : s.cop0Usable = false := by
  simpa [cop0Usable, inKernelMode, BitVec.and_or_distrib_left, h.exl, h.erl, h.cu0] using h.mode

/-- All control registers but those that the machine writes on its own are the same. -/
def SameSystem (s t : Cpu) : Prop :=
  ∀ r, r ≠ Cop0.badVAddr → r ≠ Cop0.count → r ≠ Cop0.cause → t.creg r = s.creg r

theorem enduring_sameSystem {s : Cpu} (refused : s.cop0Usable = false) :
    Enduring (SameSystem s) fun _ => True where
  same next same r address count cause := (next.control r address cause).trans (same r address count cause)
  writes {g i} writes _ completes same := by
    have usable := g.usable_of_completes writes completes
    have status : g.cpu.status = s.status := same Cop0.status (by decide) (by decide) (by decide)
    rw [cop0Usable_congr status, refused] at usable
    cases usable
  latch lines same r address count cause :=
    (creg_latchInterrupts _ lines cause).trans (same r address count cause)
  count insns same r address count cause :=
    (creg_advanceCount _ insns count cause).trans (same r address count cause)

end Cpu

namespace Block

theorem run_sameControl (b : Block) {g : Guest} (refused : g.cpu.cop0Usable = false) :
    g.cpu.SameControl (b.run g).2.cpu :=
  b.run_lasting (Cpu.lasting_sameControl refused) g (fun _ _ => trivial) (Cpu.sameControl_of_cop0 rfl)

/-- An instruction that uses system control and is come to in user mode does nothing but raise the exception
for that. -/
theorem run_refused {b : Block} (stands : Stands b.start b.insns b.terminator) {g before : Guest} {k : Nat}
    {i : DecodedInsn} (refused : g.cpu.cop0Usable = false)
    (ran : (g.enter b).execAll (b.insns.take k) = (none, before)) (found : b.insns[k]? = some i)
    (uses : i.insn.usesControl = true) :
    (b.run g).1 = .exception ∧ (b.run g).2.cpu.excCode = ExcCode.coprocessorUnusable.toWord ∧
      (b.run g).2.cpu.gpr = before.cpu.gpr ∧ RaisedAt b g k before (b.run g).2 := by
  have same : (g.enter b).cpu.SameControl before.cpu := by
    have entered : (g.enter b).cpu.cop0Usable = false := refused
    have lasts : (g.enter b).cpu.SameControl ((g.enter b).execAll (b.insns.take k)).2.cpu :=
      Guest.execAll_lasting (Cpu.lasting_sameControl entered) (fun _ _ => trivial) (Cpu.sameControl_of_cop0 rfl)
    rwa [ran] at lasts
  have refuses := before.exec_refused uses ((Cpu.cop0Usable_congr same.status).trans refused)
  have faults : (before.exec i).1 = .fault .coprocessorUnusable := by rw [refuses]
  have ends : b.run g = (.exception, (before.exec i).2.raiseAt i .coprocessorUnusable) := by
    rw [run, Guest.execAll_fault found ran faults]
  rw [ends]
  exact ⟨rfl, rfl, by rw [refuses]; rfl, raisedAt_fault stands found ran faults⟩

end Block

namespace Machine

/-- Code in user mode cannot touch system control. A block, whichever it is, leaves the control registers as they
are but for BadVAddr and the field CE of Cause. A block that was built and comes to an instruction that uses
system control ends there in the exception for that, with the general registers as they were. So a core that
halts on exceptions and takes no interrupt keeps its control registers, but for BadVAddr, Count and Cause,
whatever it runs and whatever goes on around it. -/
theorem unprivileged_confined :
    (∀ (b : Block) (g : Guest), g.cpu.Unprivileged → g.cpu.SameControl (b.run g).2.cpu) ∧
      (∀ {mem mem' : Memory} {limit : Nat} {stops : List Word} {entry : Word} {b : Block},
        Block.build mem limit stops entry = (.ok b, mem') →
          ∀ (g before : Guest) (k : Nat) (i : DecodedInsn), g.cpu.Unprivileged →
            (g.enter b).execAll (b.insns.take k) = (none, before) → b.insns[k]? = some i →
              i.insn.usesControl = true →
                (b.run g).1 = .exception ∧ (b.run g).2.cpu.excCode = 11 ∧
                  (b.run g).2.cpu.gpr = before.cpu.gpr ∧ b.RaisedAt g k before (b.run g).2) ∧
      ∀ (m : Machine) (core : Nat) (c : Core) (ops : List Op), m.cores[core]? = some c →
        c.config.exceptionPolicy = .halt → c.cpu.Unprivileged → (∀ op ∈ ops, op.Spares core) →
          (∀ call ∈ m.calls core ops, (call.1.step call.2).1 ≠ .ok .interrupt) →
            ∃ c', (m.session ops).2.cores[core]? = some c' ∧
              ∀ r, r ≠ Cop0.badVAddr → r ≠ Cop0.count → r ≠ Cop0.cause → c'.cpu.creg r = c.cpu.creg r := by
  refine ⟨fun b g user => b.run_sameControl user.refused, ?_, ?_⟩
  · intro mem mem' limit stops entry b built g before k i user ran found uses
    exact Block.run_refused (Block.build_stands built) user.refused ran found uses
  · intro m core c ops found policy user spares calm
    exact (session_enduring (Cpu.enduring_sameSystem user.refused) (by simp [policy]) found spares
      (fun call called _ => ⟨calm call called, fun _ _ => trivial⟩) fun _ _ _ _ => rfl).2

/-- User code over a page of RAM: it sets a register and branches, and in the delay slot it reads Status. -/
def probeGuest : Guest :=
  let mem := (Memory.empty 4096).withRam 0 4096
  { cpu := { Cpu.new.setCreg Cop0.status 0x10 with pc := 0 }
    mem := (((mem.write .word 0 0x24010005).2.write .word 4 0x10000001).2.write .word 8 0x40016000).2 }

def probeBlock : Block :=
  { start := 0
    stop := 12
    insns := [Block.plainAt 0 0x24010005, Block.plainAt 4 0x10000001, Block.slotAt 8 0x40016000]
    terminator := .branch
    pages := [{ page := 0, version := 0 }] }

/-- A core that runs the code, stops at the exception, and tries again with an interrupt line raised. -/
def probeMachine : Machine :=
  { shared := Shared.ofMemory probeGuest.mem {}
    cores := [{ cpu := probeGuest.cpu, config := { exceptionPolicy := .halt } }] }

def probeOps : List Op := [.step 0, .raiseLine 0 0x400, .setPc 0 0, .step 0]

/-- Both times the read raises the exception, at the branch, and register 1 is the one that was set before. -/
theorem unprivileged_confined_probe :
    let before := ((probeGuest.enter probeBlock).execAll (probeBlock.insns.take 2)).2
    probeGuest.cpu.Unprivileged ∧ probeGuest.cpu.SameControl (probeBlock.run probeGuest).2.cpu ∧
      (∃ mem, Block.build probeGuest.mem 512 [] 0 = (.ok probeBlock, mem) ∧ before.cpu.reg 1 = 5 ∧
        (probeBlock.run probeGuest).1 = .exception ∧ (probeBlock.run probeGuest).2.cpu.excCode = 11 ∧
          (probeBlock.run probeGuest).2.cpu.gpr = before.cpu.gpr ∧
            probeBlock.RaisedAt probeGuest 2 before (probeBlock.run probeGuest).2) ∧
      (probeMachine.calls 0 probeOps).map (fun call => (call.1.step call.2).1.toOption) =
        [some (.exception .coprocessorUnusable 4 true false),
          some (.exception .coprocessorUnusable 4 true false)] ∧
      ∃ c', (probeMachine.session probeOps).2.cores[0]? = some c' ∧ c'.cpu.creg Cop0.status = 0x10 := by
  have user : probeGuest.cpu.Unprivileged :=
    ⟨by decide +kernel, by decide +kernel, by decide +kernel, by decide +kernel⟩
  have built := Block.eq_ok_of_toOption (r := Block.build probeGuest.mem 512 [] 0) (b := probeBlock)
    (by decide +kernel)
  have ran : ((probeGuest.enter probeBlock).execAll (probeBlock.insns.take 2)).1 = none := by decide +kernel
  have outcomes : (probeMachine.calls 0 probeOps).map (fun call => (call.1.step call.2).1.toOption) =
      [some (.exception .coprocessorUnusable 4 true false),
        some (.exception .coprocessorUnusable 4 true false)] := by decide +kernel
  have calm : ∀ call ∈ probeMachine.calls 0 probeOps, (call.1.step call.2).1 ≠ .ok .interrupt := by
    intro call called interrupted
    have outcome := List.mem_map_of_mem (f := fun call => (call.1.step call.2).1.toOption) called
    rw [outcomes] at outcome
    simp [interrupted, Except.toOption] at outcome
  obtain ⟨c', found, kept⟩ := unprivileged_confined.2.2 probeMachine 0 _ probeOps rfl rfl user
    (by simp [probeOps, Op.Spares]) calm
  refine ⟨user, unprivileged_confined.1 probeBlock probeGuest user, ⟨_, built, ?_, ?_⟩, outcomes, c', found, ?_⟩
  · decide +kernel
  · exact unprivileged_confined.2.1 built probeGuest _ 2 _ user (Prod.ext ran rfl) rfl rfl
  · rw [kept Cop0.status (by decide) (by decide) (by decide)]
    decide +kernel

end Machine

end EmotionEngine
