import EmotionEngine.Code.OfBlock
import EmotionEngine.Proofs.Block.Build
import EmotionEngine.Proofs.Block.Exec
import EmotionEngine.Proofs.Code.Helpers

/-!
The code of the instructions of a block, one after the other. `Placed.code_follows` is that the code of
every instruction follows its flow; around it stand the moves of the plan. A return from an exception
stores the next program counter and runs through to the end of the block, so it must be the last
instruction.

Main statement: the code of all instructions either leaves as running them one after the other does, or
runs through and stands for the guest that they leave (`ensures_sites`).
-/

namespace EmotionEngine

open Host (Keeps)
open Plan (State)

namespace Code

/-- The code of an instruction follows its flow. -/
theorem Placed.code_follows {s : Site} {mid written : State} {hollow : List GuestReg} {h : Host.State}
    {g : Guest} (p : Placed s mid written hollow h g) (quiet : g.cpu.faultPending = false) :
    Ensures s.code h (s.Follows written (g.exec s.insn)) := by
  -- An exception is the whole code of an instruction that always traps.
  have trap : ∀ c : ExcCode, s.code = [s.fault none (some c)] → g.exec s.insn = (.fault c, g) →
      Ensures s.code h (s.Follows written (g.exec s.insn)) := by
    intro c code flow
    rw [code, flow]
    exact p.ensures_trap c
  cases hi : s.insn.insn with
  | nop => exact p.code_nothing (Or.inl hi)
  | sync => exact p.code_nothing (Or.inr hi)
  | alu op rd rs rt => exact p.code_alu hi
  | aluImm op rt rs imm => exact p.code_aluImm hi
  | lui rt imm => exact p.code_lui hi
  | shift op rd rt sa => exact p.code_shift hi
  | shiftVar op rd rt rs => exact p.code_shiftVar hi
  | mulDiv op rd rs rt =>
    cases op with
    | mult => exact p.code_mult hi
    | multu => exact p.code_multu hi
    | div => exact p.code_divide rfl hi
    | divu => exact p.code_divide rfl hi
  | hiLo op r =>
    cases op with
    | mfhi => exact p.code_mfhi hi
    | mflo => exact p.code_mflo hi
    | mthi => exact p.code_mthi hi
    | mtlo => exact p.code_mtlo hi
  | condMove op rd rs rt => exact p.code_condMove hi
  | load op rt base off =>
    by_cases hop : op = .lq
    · subst hop
      exact p.code_loadQuad quiet hi
    · exact p.code_load quiet hop hi
  | store op rt base off =>
    by_cases hop : op = .sq
    · subst hop
      exact p.code_storeQuad hi
    · exact p.code_store hop hi
  | branch cond rs rt off likely link => exact p.code_branch hi
  | fpuBranch onTrue likely off => exact p.code_fpuBranch hi
  | jump index link => exact p.code_jump hi
  | jumpReg rs link => exact p.code_jumpReg hi
  | syscall code =>
    exact trap .syscall (by simp only [Site.code, hi]) (by simp only [Guest.exec, hi])
  | breakpoint code =>
    exact trap .breakpoint (by simp only [Site.code, hi]) (by simp only [Guest.exec, hi])
  | reserved word =>
    exact trap .reservedInstruction (by simp only [Site.code, hi]) (by simp only [Guest.exec, hi])
  | cop0Move op rt rd =>
    cases op with
    | mfc0 => exact p.code_mfc0 quiet hi
    | mtc0 => exact p.code_mtc0 hi
  | eret => exact p.code_eret hi
  | ei => exact p.code_ei hi
  | di => exact p.code_di hi
  | fpuMove op rt fs =>
    cases op with
    | mfc1 => exact p.code_mfc1 hi
    | mtc1 => exact p.code_mtc1 hi
    | cfc1 => exact p.code_cfc1 hi
    | ctc1 => exact p.code_ctc1 hi
  | fpuLoad ft base off => exact p.code_fpuLoad quiet hi
  | fpuStore ft base off => exact p.code_fpuStore hi
  | fpuArith op fd fs ft => exact p.code_fpuArith hi
  | fpuCompare cond fs ft => exact p.code_fpuCompare hi
  | mmi op rd rs rt => exact p.code_mmi hi

/-- Code that runs through is followed by what comes after it; code that leaves is not. -/
theorem Ensures.bind {body rest : List Item} {h : Host.State} {P Q : Outcome → Prop}
    (e : Ensures body h P) (left : ∀ h', P (.left h') → Q (.left h'))
    (go : ∀ h', P (.through h') → Ensures rest h' Q) : Ensures (body ++ rest) h Q := by
  obtain ⟨o, r, p⟩ := e
  cases o with
  | through h' => exact .append r (go h' p)
  | left h' => exact ⟨_, r.append_left, left h' p⟩

section
variable {s : Site} {later : List Uses} {st mid written next : State} {hollow : List GuestReg} {h h1 : Host.State}
  {g : Guest} (hp : State.Planned s.insn.insn.uses later st s.step mid written next hollow)
include hp

/-- After the moves before it, the code of an instruction can start. -/
theorem Seated.of_planned (sim : Sim mid hollow h1 g) : Seated s mid written hollow h1 g :=
  { sim, mid_valid := hp.mid_valid, written_valid := hp.written_valid,
    operand := hp.operand, slot := hp.slot, unread := hp.unread, env := hp.env, value := hp.value,
    flushPre := hp.flushPre, flushPost := hp.flushPost }

/-- The code of an instruction with its moves follows what the code alone does. -/
theorem Site.ensures_moved (r1 : Runs (items (ofMoves s.step.before)) h (.through h1)) {r : Flow × Guest}
    (code : Ensures s.code h1 (s.Follows written r)) : Ensures s.body h (s.Follows next r) := by
  obtain ⟨flow, g'⟩ := r
  unfold Site.body
  rw [List.append_assoc]
  refine .append r1 (code.bind ?_ ?_)
  · -- A way out does not depend on what the allocator thinks afterwards.
    intro h' f
    unfold Follows at f ⊢
    cases flow <;> exact f
  · intro h' f
    have after (sim : Sim written [] h' g') :
        ∃ h2, Runs (items (ofMoves s.step.after)) h' (.through h2) ∧ Sim next [] h2 g' := sim.moves hp.after
    unfold Follows at f ⊢
    cases flow with
    | next =>
      obtain ⟨h2, r2, sim2⟩ := after f
      exact ⟨_, r2, sim2⟩
    | redirect =>
      obtain ⟨h2, r2, sim2⟩ := after f
      exact ⟨_, r2, sim2⟩
    | fault | skipDelaySlot | codeModified => exact False.elim f

theorem Site.ensures_body (sim : Sim st [] h g) (zero : g.cpu.reg 0 = 0) (quiet : g.cpu.faultPending = false) :
    Ensures s.body h (s.Follows next (g.exec s.insn)) := by
  obtain ⟨h1, r1, sim1⟩ := sim.moves hp.before
  have placed : Placed s mid written hollow h1 g := { Seated.of_planned hp sim1 with zero }
  exact ensures_moved hp r1 (placed.code_follows quiet)

end

/-! ## Instructions in order -/

/-- A return from an exception does not go on to the next instruction. -/
theorem exec_eret {g : Guest} {i : DecodedInsn} (hi : i.insn = .eret) : (g.exec i).1 ≠ .next := by
  simp only [Guest.exec, hi]
  cases g.cpu.eret with
  | mk ok cpu => cases ok <;> simp [Guest.execPrivileged, Guest.recordedFault]

/-- The end of the code of instructions that leave `r`: the host has left as they did, or stands for the
guest after them. -/
def Ran (is : List DecodedInsn) (last : State) (r : Option BlockExit × Guest) : Outcome → Prop
  | .left h => ∃ e, r.1 = some e ∧ Exits h e r.2
  | .through h => Sim last [] h r.2 ∧ r.1 = if endsEret is then some .branch else none

theorem ensures_sites {is : List DecodedInsn} {st last : State} {ss : List Step}
    (hp : State.Plans (is.map (fun i => i.insn.uses)) st ss last) (he : EretLast is) {h : Host.State}
    {g : Guest} (sim : Sim st [] h g) (zero : g.cpu.regQuad 0 = 0) (quiet : g.cpu.faultPending = false) :
    Ensures ((List.zipWith (fun insn step => ({ insn, step } : Site)) is ss).flatMap Site.body) h
      (Ran is last (g.execAll is)) := by
  induction is generalizing st ss h g with
  | nil =>
    cases hp with
    | nil => exact .nil ⟨sim, rfl⟩
  | cons i is ih =>
    rw [List.map_cons] at hp
    cases hp with
    | @cons _ _ _ s mid written next hollow ss _ step rest =>
      have reg : g.cpu.reg 0 = 0 := by
        rw [Cpu.reg_eq, zero]
        rfl
      have proceeds := g.exec_proceeds i
      rw [List.zipWith_cons_cons, List.flatMap_cons]
      refine (Site.ensures_body (s := { insn := i, step := s }) step sim reg quiet).bind ?_ ?_
      · intro h' f
        unfold Site.Follows at f
        unfold Guest.execAll
        cases hx : g.exec i with
        | mk flow g' =>
          rw [show g.exec (Site.mk i s).insn = g.exec i from rfl, hx] at f
          cases flow with
          | next | redirect => exact False.elim f
          | fault code => exact ⟨_, rfl, f⟩
          | skipDelaySlot => exact ⟨_, rfl, f⟩
          | codeModified => exact ⟨_, rfl, f⟩
      · intro h' f
        unfold Site.Follows at f
        unfold Guest.execAll
        cases hx : g.exec i with
        | mk flow g' =>
          rw [show g.exec (Site.mk i s).insn = g.exec i from rfl, hx] at f
          rw [hx] at proceeds
          cases flow with
          | next =>
            have ne : i.insn ≠ .eret := fun e => exec_eret e (by rw [hx])
            have go := ih rest he.2 f (proceeds.zero.trans zero) ((proceeds.quiet rfl).trans quiet)
            obtain ⟨o, r, q⟩ := go
            refine ⟨o, r, ?_⟩
            cases o with
            | left h2 => exact q
            | through h2 =>
              refine ⟨q.1, ?_⟩
              rw [endsEret_cons ne]
              exact q.2
          | redirect =>
            have hi : i.insn = .eret := proceeds.redirect rfl
            obtain rfl : is = [] := he.1 hi
            cases rest with
            | nil =>
              refine .nil ⟨f, ?_⟩
              rw [if_pos (by simp [endsEret, hi])]
          | fault | skipDelaySlot | codeModified => exact False.elim f

end Code

end EmotionEngine
