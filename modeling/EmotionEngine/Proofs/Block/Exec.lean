import EmotionEngine.Block.Run
import EmotionEngine.Proofs.Cpu.Computed

/-!
What one instruction can do to a guest. It computes, stores the next program counter, accesses memory once, writes
control registers, or raises an exception; `Guest.Does` lists these with what the instruction has to be for each,
and `Guest.exec_does` shows that there is nothing else. What holds of every instruction is read off that list.

Main statements: `Guest.exec_does`, and `Guest.exec_proceeds`, from which every invariant of a run over a block
follows: register 0 is left alone, memory is accessed once at most, and no exception is recorded unless the
instruction ends the block.
-/

namespace EmotionEngine

/-- The memory after at most one access. -/
def Memory.Accessed (m m' : Memory) : Prop :=
  m' = m ∨ (∃ w a, m' = (m.read w a).2) ∨ ∃ w a v, m' = (m.write w a v).2

namespace Insn

/-- Whether the instruction uses system control, and so needs permission. -/
def usesControl : Insn → Bool
  | cop0Move .. | eret | ei | di => true
  | _ => false

/-- Whether the instruction writes a control register. -/
def writesControl : Insn → Bool
  | cop0Move .mtc0 .. | eret | ei | di => true
  | _ => false

theorem usesControl_of_writesControl {i : Insn} (writes : i.writesControl = true) : i.usesControl = true := by
  cases i with
  | cop0Move | eret | ei | di => rfl
  | _ => cases writes

end Insn

namespace Guest

/-! ## Accesses -/

section
variable (g : Guest)

theorem recordedFault_of {g : Guest} {c : ExcCode} (h : g.cpu.excCode = c.toWord) : g.recordedFault = .fault c := by
  unfold recordedFault
  rw [h]
  cases c <;> rfl

theorem recordedFault_fault (code : ExcCode) (vaddr : Word) : (g.fault code vaddr).recordedFault = .fault code :=
  recordedFault_of rfl

/-- A load changes memory alone, or records an exception. -/
theorem load_cases (w : Width) (vaddr : Word) :
    ∃ mem, g.mem.Accessed mem ∧
      ((∃ v, g.load w vaddr = (some v, { g with mem })) ∨
        ∃ code ≠ .instructionBus, g.load w vaddr = (none, { g with mem }.fault code vaddr)) := by
  unfold load
  dsimp only
  split
  · cases hr : g.mem.read w (accessAddr w vaddr) with
    | mk r mem =>
      refine ⟨mem, .inr (.inl ⟨w, accessAddr w vaddr, by rw [hr]⟩), ?_⟩
      cases r with
      | ok v => exact .inl ⟨v, rfl⟩
      | error e => exact .inr ⟨.dataBus, nofun, rfl⟩
  · exact ⟨g.mem, .inl rfl, .inr ⟨.addressLoad, nofun, rfl⟩⟩

/-- A store changes memory alone, or records an exception. -/
theorem store_cases (w : Width) (vaddr : Word) (v : Quad) :
    ∃ mem, g.mem.Accessed mem ∧
      (g.store w vaddr v = (.ok, { g with mem }) ∨ g.store w vaddr v = (.codeModified, { g with mem }) ∨
        ∃ code ≠ .instructionBus, g.store w vaddr v = (.fault, { g with mem }.fault code vaddr)) := by
  unfold store
  dsimp only
  split
  · cases hr : g.mem.write w (accessAddr w vaddr) v with
    | mk r mem =>
      refine ⟨mem, .inr (.inr ⟨w, accessAddr w vaddr, v, by rw [hr]⟩), ?_⟩
      cases r with
      | ok effect =>
        dsimp only
        split
        · exact .inr (.inl rfl)
        · exact .inl rfl
      | error e => exact .inr (.inr ⟨.dataBus, nofun, rfl⟩)
  · exact ⟨g.mem, .inl rfl, .inr (.inr ⟨.addressStore, nofun, rfl⟩)⟩

end

/-! ## Instructions -/

/-- What an instruction can do, and what it has to be to do it. -/
inductive Does (g : Guest) (i : DecodedInsn) : Flow × Guest → Prop where
  /-- It computes. -/
  | computes {cpu : Cpu} (made : g.cpu.Computed cpu) (plain : i.insn.hasDelaySlot = false) : Does g i (g.goOn cpu)
  /-- It sets the control and status register of the floating point unit. -/
  | moves (rt : RegNum) (v : Word) (move : i.insn = .fpuMove .ctc1 rt 31) :
      Does g i (g.goOn (g.cpu.setFpuControl 31 v))
  /-- It stores the next program counter, and the link. -/
  | goes {cpu : Cpu} (made : g.cpu.Computed cpu) (pc : Word) (transfers : i.insn.hasDelaySlot = true) :
      Does g i (g.goOn { cpu with pc })
  /-- It is a likely branch that is not taken. -/
  | skips {cpu : Cpu} (made : g.cpu.Computed cpu) (transfers : i.insn.hasDelaySlot = true) :
      Does g i (.skipDelaySlot, { g with cpu })
  /-- It raises an exception, and does nothing else. -/
  | traps {code : ExcCode} (other : code ≠ .instructionBus) : Does g i (.fault code, g)
  | loads {w : Width} {vaddr : Word} {v : Quad} {mem : Memory} {cpu : Cpu} (accessed : g.mem.Accessed mem)
      (loaded : g.load w vaddr = (some v, { g with mem })) (made : g.cpu.Computed cpu)
      (plain : i.insn.hasDelaySlot = false) : Does g i (.next, { g with cpu, mem })
  | stores {w : Width} {vaddr : Word} {v : Quad} {mem : Memory} (accessed : g.mem.Accessed mem)
      (stored : g.store w vaddr v = (.ok, { g with mem })) (plain : i.insn.hasDelaySlot = false) :
      Does g i (.next, { g with mem })
  /-- It stores to the block that is running. -/
  | rewrites {w : Width} {vaddr : Word} {v : Quad} {mem : Memory} (accessed : g.mem.Accessed mem)
      (stored : g.store w vaddr v = (.codeModified, { g with mem })) : Does g i (.codeModified, { g with mem })
  /-- It loads where it cannot. -/
  | misloads {w : Width} {vaddr : Word} {code : ExcCode} {mem : Memory} (accessed : g.mem.Accessed mem)
      (other : code ≠ .instructionBus) (failed : g.load w vaddr = (none, { g with mem }.fault code vaddr)) :
      Does g i (.fault code, { g with mem }.fault code vaddr)
  /-- It stores where it cannot. -/
  | misstores {w : Width} {vaddr : Word} {v : Quad} {code : ExcCode} {mem : Memory} (accessed : g.mem.Accessed mem)
      (other : code ≠ .instructionBus) (failed : g.store w vaddr v = (.fault, { g with mem }.fault code vaddr)) :
      Does g i (.fault code, { g with mem }.fault code vaddr)
  /-- It writes control registers. -/
  | controls (cop0 : Vector Word 32) (writes : i.insn.writesControl = true) (plain : i.insn.hasDelaySlot = false) :
      Does g i (g.goOn { g.cpu with cop0 })
  /-- It returns from an exception. -/
  | returns (pc : Word) (cop0 : Vector Word 32) (insn : i.insn = .eret) :
      Does g i (.redirect, { g with cpu := { g.cpu with pc, cop0 } })
  /-- It uses system control and may not. -/
  | refused : Does g i (.fault .coprocessorUnusable, { g with cpu := g.cpu.raiseUnusable })

section
variable (g : Guest) {i : DecodedInsn}

theorem does_setReg (plain : i.insn.hasDelaySlot = false) (r : RegNum) (v : Dword) :
    g.Does i (g.goOn (g.cpu.setReg r v)) := .computes (g.cpu.computed_setReg r v) plain

theorem does_writeResult (plain : i.insn.hasDelaySlot = false) (r : RegNum) (v : Option Dword) :
    g.Does i (g.writeResult r v) := by
  cases v with
  | some v => exact g.does_setReg plain r v
  | none => exact .traps nofun

theorem does_execBranch (transfers : i.insn.hasDelaySlot = true) {cpu : Cpu} (made : g.cpu.Computed cpu)
    (pc target : Word) (taken likely : Bool) :
    g.Does i (({ g with cpu } : Guest).execBranch pc target taken likely) := by
  unfold execBranch
  split
  · exact .goes made target transfers
  · split
    · exact .skips made transfers
    · exact .goes made (pc + 8) transfers

theorem does_execLoad (plain : i.insn.hasDelaySlot = false) (op : LoadOp) (rt : RegNum) (addr : Word) :
    g.Does i (g.execLoad op rt addr) := by
  unfold execLoad
  obtain ⟨mem, accessed, ⟨v, loaded⟩ | ⟨code, other, failed⟩⟩ := g.load_cases op.width addr
  · rw [loaded]
    dsimp only
    split
    · exact .loads accessed loaded (g.cpu.computed_setRegQuad rt v) plain
    · exact .loads accessed loaded (g.cpu.computed_setReg rt _) plain
  · rw [failed]
    dsimp only
    rw [recordedFault_fault]
    exact .misloads accessed other failed

theorem does_execFpuLoad (plain : i.insn.hasDelaySlot = false) (ft : RegNum) (addr : Word) :
    g.Does i (g.execFpuLoad ft addr) := by
  unfold execFpuLoad
  obtain ⟨mem, accessed, ⟨v, loaded⟩ | ⟨code, other, failed⟩⟩ := g.load_cases .word addr
  · rw [loaded]
    exact .loads accessed loaded (g.cpu.computed_setFreg ft _) plain
  · rw [failed]
    dsimp only
    rw [recordedFault_fault]
    exact .misloads accessed other failed

theorem does_execStore (plain : i.insn.hasDelaySlot = false) (w : Width) (addr : Word) (v : Quad) :
    g.Does i (g.execStore w addr v) := by
  unfold execStore
  obtain ⟨mem, accessed, stored | stored | ⟨code, other, failed⟩⟩ := g.store_cases w addr v
  · rw [stored]
    exact .stores accessed stored plain
  · rw [stored]
    exact .rewrites accessed stored
  · rw [failed]
    dsimp only
    rw [recordedFault_fault]
    exact .misstores accessed other failed

/-- Where system control is not allowed, an instruction that uses it raises the exception for that. -/
theorem exec_refused (uses : i.insn.usesControl = true) (refused : g.cpu.cop0Usable = false) :
    g.exec i = (.fault .coprocessorUnusable, { g with cpu := g.cpu.raiseUnusable }) := by
  cases hi : i.insn with
  | cop0Move op rt rd =>
    cases op <;> simp [exec, hi, Cpu.mfc0, Cpu.mtc0, refused] <;> rfl
  | eret => simp [exec, hi, Cpu.eret, refused]; rfl
  | ei | di => simp [exec, hi, Cpu.setEie, refused]; rfl
  | _ => simp [hi, Insn.usesControl] at uses

/-- An instruction that uses system control, if it does what it should where it is allowed. -/
theorem does_control (uses : i.insn.usesControl = true)
    (allowed : g.cpu.cop0Usable = true → g.Does i (g.exec i)) : g.Does i (g.exec i) := by
  cases usable : g.cpu.cop0Usable with
  | true => exact allowed usable
  | false =>
    rw [g.exec_refused uses usable]
    exact .refused

/-- An instruction does nothing else. -/
theorem exec_does (i : DecodedInsn) : g.Does i (g.exec i) := by
  obtain ⟨addr, word, insn, inDelaySlot⟩ := i
  cases insn with
  | nop | sync => exact .computes g.cpu.computed_refl rfl
  | alu op rd rs rt | aluImm op rt rs imm => exact g.does_writeResult rfl _ _
  | lui rt imm | shift op rd rt sa | shiftVar op rd rt rs => exact g.does_setReg rfl _ _
  | mulDiv op rd rs rt =>
    refine .computes ?_ rfl
    split
    · exact (g.cpu.computed_hiLo _ _).trans (Cpu.computed_setReg _ _ _)
    · exact g.cpu.computed_hiLo _ _
  | hiLo op r =>
    cases op with
    | mfhi | mflo => exact g.does_setReg rfl _ _
    | mthi | mtlo => exact .computes (g.cpu.computed_hiLo _ _) rfl
  | condMove op rd rs rt =>
    refine .computes ?_ rfl
    split
    · exact g.cpu.computed_setReg _ _
    · exact g.cpu.computed_refl
  | load op rt base off => exact g.does_execLoad rfl _ _ _
  | store op rt base off => exact g.does_execStore rfl _ _ _
  | branch cond rs rt off likely link =>
    cases link with
    | true => exact g.does_execBranch rfl (g.cpu.computed_setReg 31 _) _ _ _ _
    | false => exact g.does_execBranch rfl g.cpu.computed_refl _ _ _ _
  | fpuBranch onTrue likely off => exact g.does_execBranch rfl g.cpu.computed_refl _ _ _ _
  | jump index link =>
    refine .goes ?_ _ rfl
    split
    · exact g.cpu.computed_setReg 31 _
    · exact g.cpu.computed_refl
  | jumpReg rs link =>
    refine .goes ?_ _ rfl
    split
    · exact g.cpu.computed_setReg _ _
    · exact g.cpu.computed_refl
  | syscall code | breakpoint code | reserved word => exact .traps nofun
  | cop0Move op rt rd =>
    refine g.does_control rfl fun usable => ?_
    cases op with
    | mfc0 =>
      simp only [exec, Cpu.mfc0, if_pos usable]
      exact g.does_setReg rfl _ _
    | mtc0 =>
      simp only [exec, g.cpu.mtc0_allowed usable]
      exact .controls _ rfl rfl
  | eret =>
    refine g.does_control rfl fun usable => ?_
    obtain ⟨pc, cop0, allowed⟩ := g.cpu.eret_allowed usable
    simp only [exec, allowed]
    exact .returns pc cop0 rfl
  | ei =>
    refine g.does_control rfl fun usable => ?_
    obtain ⟨cop0, allowed⟩ := g.cpu.setEie_allowed usable true
    simp only [exec, allowed]
    exact .controls cop0 rfl rfl
  | di =>
    refine g.does_control rfl fun usable => ?_
    obtain ⟨cop0, allowed⟩ := g.cpu.setEie_allowed usable false
    simp only [exec, allowed]
    exact .controls cop0 rfl rfl
  | fpuMove op rt fs =>
    cases op with
    | mfc1 | cfc1 => exact g.does_setReg rfl _ _
    | mtc1 => exact .computes (g.cpu.computed_setFreg _ _) rfl
    | ctc1 =>
      by_cases control : fs = 31
      · subst control
        exact .moves rt _ rfl
      · have other : fs.val ≠ 31 := fun e => control (Fin.ext e)
        simp only [exec, Cpu.setFpuControl, if_neg other]
        exact .computes g.cpu.computed_refl rfl
  | fpuLoad ft base off => exact g.does_execFpuLoad rfl _ _
  | fpuStore ft base off => exact g.does_execStore rfl _ _ _
  | fpuArith op fd fs ft => exact .computes (g.cpu.computed_fpuArith op fd fs ft) rfl
  | fpuCompare cond fs ft => exact .computes (g.cpu.computed_fpuCompare cond fs ft) rfl
  | mmi op rd rs rt => exact .computes (g.cpu.computed_setRegQuad _ _) rfl

end

/-! ## What holds of every instruction -/

/-- What every instruction `i` does. -/
structure Proceeds (g : Guest) (i : DecodedInsn) (r : Flow × Guest) : Prop where
  zero : r.2.cpu.regQuad 0 = g.cpu.regQuad 0
  quiet : r.1 = .next → r.2.cpu.faultPending = g.cpu.faultPending
  /-- Only a return from an exception stores the next program counter without being a branch. -/
  redirect : r.1 = .redirect → i.insn = .eret
  mem : g.mem.Accessed r.2.mem

theorem Does.proceeds {g : Guest} {i : DecodedInsn} {r : Flow × Guest} (does : g.Does i r) : g.Proceeds i r := by
  cases does with
  | computes made plain => exact ⟨made.zero, fun _ => made.faultPending, nofun, .inl rfl⟩
  | moves rt v move => exact ⟨rfl, fun _ => rfl, nofun, .inl rfl⟩
  | goes made pc transfers => exact ⟨made.zero, fun _ => made.faultPending, nofun, .inl rfl⟩
  | skips made transfers => exact ⟨made.zero, nofun, nofun, .inl rfl⟩
  | traps other => exact ⟨rfl, nofun, nofun, .inl rfl⟩
  | loads accessed loaded made plain => exact ⟨made.zero, fun _ => made.faultPending, nofun, accessed⟩
  | stores accessed stored plain => exact ⟨rfl, fun _ => rfl, nofun, accessed⟩
  | rewrites accessed stored => exact ⟨rfl, nofun, nofun, accessed⟩
  | misloads accessed other failed => exact ⟨rfl, nofun, nofun, accessed⟩
  | misstores accessed other failed => exact ⟨rfl, nofun, nofun, accessed⟩
  | controls cop0 writes plain => exact ⟨rfl, fun _ => rfl, nofun, .inl rfl⟩
  | returns pc cop0 insn => exact ⟨rfl, nofun, fun _ => insn, .inl rfl⟩
  | refused => exact ⟨rfl, nofun, nofun, .inl rfl⟩

/-- What an instruction can do. -/
theorem exec_proceeds (g : Guest) (i : DecodedInsn) : g.Proceeds i (g.exec i) := (g.exec_does i).proceeds

end Guest

/-! ## Runs of a block -/

/-- Instructions leave register 0 alone, and one that raises an exception records which. -/
theorem Guest.execAll_spec (g : Guest) (is : List DecodedInsn) :
    (g.execAll is).2.cpu.regQuad 0 = g.cpu.regQuad 0 ∧
      ((g.execAll is).1 = some .exception → ∃ code : ExcCode, (g.execAll is).2.cpu.excCode = code.toWord) := by
  induction is generalizing g with
  | nil => exact ⟨rfl, nofun⟩
  | cons i rest ih =>
    have zero := (g.exec_proceeds i).zero
    unfold execAll
    split
    · next g' e =>
      rw [e] at zero
      obtain ⟨zero', raised⟩ := ih g'
      exact ⟨zero'.trans zero, raised⟩
    · next code g' e =>
      rw [e] at zero
      exact ⟨zero, fun _ => ⟨code, rfl⟩⟩
    · next e =>
      rw [e] at zero
      exact ⟨zero, nofun⟩
    · next e =>
      rw [e] at zero
      exact ⟨zero, nofun⟩
    · next e =>
      rw [e] at zero
      refine ⟨?_, nofun⟩
      dsimp only
      split <;> exact zero

theorem Guest.leave_spec (g : Guest) (b : Block) :
    (g.leave b).2.cpu.regQuad 0 = g.cpu.regQuad 0 ∧
      ((g.leave b).1 = .exception → ∃ code : ExcCode, (g.leave b).2.cpu.excCode = code.toWord) := by
  unfold leave
  split
  · exact ⟨rfl, fun _ => ⟨.instructionBus, rfl⟩⟩
  · split
    · exact ⟨rfl, nofun⟩
    · refine ⟨rfl, ?_⟩
      dsimp only
      split <;> exact nofun

theorem Block.run_spec (b : Block) (g : Guest) :
    (b.run g).2.cpu.regQuad 0 = g.cpu.regQuad 0 ∧
      ((b.run g).1 = .exception → ∃ code : ExcCode, (b.run g).2.cpu.excCode = code.toWord) := by
  obtain ⟨zero, raised⟩ := (g.enter b).execAll_spec b.insns
  unfold run
  split
  · next exit g' e =>
    rw [e] at zero raised
    exact ⟨zero, fun h => raised (congrArg some h)⟩
  · next g' e =>
    rw [e] at zero
    obtain ⟨zero', raised'⟩ := g'.leave_spec b
    exact ⟨zero'.trans zero, raised'⟩

end EmotionEngine
