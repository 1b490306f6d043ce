import EmotionEngine.Proofs.Block.Exec
import EmotionEngine.Proofs.Memory.Contents

/-!
What an instruction depends on. Every instruction changes the processor alone, or loads, or stores
(`Guest.exec_kind`). None reads the program counter or the pages that are watched, so in a processor at
another place it does the same; a branch stores the same next program counter, and all others leave it.
-/

namespace EmotionEngine

namespace Cpu

/-- A processor at another place: with another program counter and other pages to watch. -/
def placed (s : Cpu) (pc : Word) (first last : Nat) : Cpu :=
  { s with pc, blockFirst := first, blockLast := last }

/-- The outcome fields are as they were. -/
structure SameOutcome (s t : Cpu) : Prop where
  code : t.excCode = s.excCode
  delaySlot : t.excDelaySlot = s.excDelaySlot
  pending : t.faultPending = s.faultPending

/-- A value that does not depend on the place. -/
def Unplaced {α : Type} (v : Cpu → α) : Prop := ∀ s pc first last, v (placed s pc first last) = v s

/-- A change that has nothing to do with the place or with exceptions. -/
structure Neutral (u : Cpu → Cpu) : Prop where
  placed : ∀ s pc first last, u (placed s pc first last) = (u s).placed pc first last
  outcome : ∀ s, SameOutcome s (u s)

theorem Computed.first {s t : Cpu} (h : Computed s t) : t.blockFirst = s.blockFirst := by rw [h.rest]

theorem Computed.last {s t : Cpu} (h : Computed s t) : t.blockLast = s.blockLast := by rw [h.rest]

theorem Computed.outcome {s t : Cpu} (h : Computed s t) : SameOutcome s t := by
  rw [h.rest]
  exact ⟨rfl, rfl, rfl⟩

theorem neutral_id : Neutral (fun s => s) := ⟨fun _ _ _ _ => rfl, fun _ => ⟨rfl, rfl, rfl⟩⟩

theorem Neutral.comp {u v : Cpu → Cpu} (hu : Neutral u) (hv : Neutral v) : Neutral (fun s => u (v s)) := by
  refine ⟨?_, ?_⟩
  · intro s pc first last
    rw [hv.placed, hu.placed]
  · intro s
    obtain ⟨code, slot, pending⟩ := hu.outcome (v s)
    obtain ⟨code', slot', pending'⟩ := hv.outcome s
    exact ⟨code.trans code', slot.trans slot', pending.trans pending'⟩

theorem Neutral.ite {c : Cpu → Bool} (hc : Unplaced c) {u v : Cpu → Cpu} (hu : Neutral u) (hv : Neutral v) :
    Neutral (fun s => if c s then u s else v s) := by
  refine ⟨?_, ?_⟩
  · intro s pc first last
    rw [hc, hu.placed, hv.placed]
    split <;> rfl
  · intro s
    split
    · exact hu.outcome s
    · exact hv.outcome s

theorem neutral_setReg (r : RegNum) {v : Cpu → Dword} (hv : Unplaced v) :
    Neutral (fun s => s.setReg r (v s)) := by
  refine ⟨?_, ?_⟩
  · intro s pc first last
    rw [hv]
    unfold setReg
    split <;> rfl
  · intro s
    unfold setReg
    split <;> exact ⟨rfl, rfl, rfl⟩

theorem neutral_setRegQuad (r : RegNum) {v : Cpu → Quad} (hv : Unplaced v) :
    Neutral (fun s => s.setRegQuad r (v s)) := by
  refine ⟨?_, ?_⟩
  · intro s pc first last
    rw [hv]
    unfold setRegQuad
    split <;> rfl
  · intro s
    unfold setRegQuad
    split <;> exact ⟨rfl, rfl, rfl⟩

theorem neutral_link (link : Bool) (pc : Word) :
    Neutral (fun s => if link then s.setReg 31 (linkValue pc) else s) :=
  .ite (c := fun _ => link) (fun _ _ _ _ => rfl)
    (neutral_setReg 31 (v := fun _ => linkValue pc) (fun _ _ _ _ => rfl)) neutral_id

theorem stays_of_placed {u : Cpu → Cpu}
    (h : ∀ s pc first last, u (placed s pc first last) = (u s).placed pc first last) (s : Cpu) :
    (u s).pc = s.pc ∧ (u s).blockFirst = s.blockFirst ∧ (u s).blockLast = s.blockLast := by
  have own := h s s.pc s.blockFirst s.blockLast
  rw [show placed s s.pc s.blockFirst s.blockLast = s from rfl] at own
  rw [own]
  exact ⟨rfl, rfl, rfl⟩

/-! ## Floating point -/

theorem neutral_setFcr (clear set : Word) : Neutral (fun s => s.setFcr clear set) :=
  ⟨fun _ _ _ _ => rfl, fun _ => ⟨rfl, rfl, rfl⟩⟩

theorem neutral_setFreg (fd : RegNum) {v : Cpu → Word} (hv : Unplaced v) :
    Neutral (fun s => s.setFreg fd (v s)) := by
  refine ⟨?_, fun _ => ⟨rfl, rfl, rfl⟩⟩
  intro s pc first last
  rw [hv]
  rfl

theorem neutral_commitFloat (fd : RegNum) {r : Cpu → Single.Rounded} (hr : Unplaced r) :
    Neutral (fun s => s.commitFloat fd (r s)) := by
  refine ⟨?_, ?_⟩
  · intro s pc first last
    rw [hr]
    cases r s <;> rfl
  · intro s
    cases r s <;> exact ⟨rfl, rfl, rfl⟩

theorem neutral_fpuArith (op : FpuOp) (fd fs ft : RegNum) : Neutral (fun s => s.fpuArith op fd fs ft) := by
  cases op with
  | add | sub | mul => exact neutral_commitFloat fd (fun _ _ _ _ => rfl)
  | div =>
    have quotient := (neutral_commitFloat fd
      (r := fun s => Single.div (Single.value (s.freg fs)) (Single.value (s.freg ft)))
      (fun _ _ _ _ => rfl)).comp (neutral_setFcr (Fcr31.d ||| Fcr31.i) 0)
    exact .ite (c := fun s => Single.isZero (s.freg ft)) (fun _ _ _ _ => rfl)
      ⟨fun _ _ _ _ => rfl, fun _ => ⟨rfl, rfl, rfl⟩⟩ quotient
  | sqrt =>
    exact .ite (c := fun s => Single.isZero (s.freg ft)) (fun _ _ _ _ => rfl)
      ⟨fun _ _ _ _ => rfl, fun _ => ⟨rfl, rfl, rfl⟩⟩ ⟨fun _ _ _ _ => rfl, fun _ => ⟨rfl, rfl, rfl⟩⟩
  | abs | neg => exact ⟨fun _ _ _ _ => rfl, fun _ => ⟨rfl, rfl, rfl⟩⟩
  | mov | cvtWS | cvtSW => exact neutral_setFreg fd (fun _ _ _ _ => rfl)

theorem neutral_fpuCompare (cond : FpuCond) (fs ft : RegNum) :
    Neutral (fun s => s.fpuCompare cond fs ft) :=
  .ite (c := fun s => fpuHolds cond (s.freg fs) (s.freg ft)) (fun _ _ _ _ => rfl) (neutral_setFcr _ _)
    (neutral_setFcr _ _)

/-! ## System control -/

theorem neutral_setCreg (r : RegNum) {v : Cpu → Word} (hv : Unplaced v) :
    Neutral (fun s => s.setCreg r (v s)) := by
  refine ⟨?_, fun _ => ⟨rfl, rfl, rfl⟩⟩
  intro s pc first last
  rw [hv]
  rfl

theorem neutral_writeCreg (rd : RegNum) {v : Cpu → Word} (hv : Unplaced v) :
    Neutral (fun s => s.writeCreg rd (v s)) := by
  refine ⟨?_, ?_⟩
  · intro s pc first last
    rw [hv]
    unfold writeCreg
    split
    · rfl
    split
    · rfl
    split <;> rfl
  · intro s
    unfold writeCreg
    split
    · exact ⟨rfl, rfl, rfl⟩
    split
    · exact ⟨rfl, rfl, rfl⟩
    split <;> exact ⟨rfl, rfl, rfl⟩

theorem neutral_status {v : Cpu → Word} (hv : Unplaced v) {c : Cpu → Bool} (hc : Unplaced c) :
    Neutral (fun s => if c s then s.setCreg Cop0.status (v s) else s) :=
  .ite hc (neutral_setCreg Cop0.status hv) neutral_id

end Cpu

/-! ## Effects on the processor -/

/-- What an instruction does that leaves memory alone. -/
structure CpuEffect where
  flow : Cpu → Flow
  update : Cpu → Cpu
  /-- The next program counter, if it stores that. -/
  target : Cpu → Option Word

namespace CpuEffect

open Cpu (Unplaced Neutral SameOutcome)

def on (e : CpuEffect) (g : Guest) : Flow × Guest :=
  let cpu := e.update g.cpu
  (e.flow g.cpu, { g with cpu := { cpu with pc := (e.target g.cpu).getD cpu.pc } })

/-- The effect is the same at every place, up to the program counter where it stores none, and a
processor that goes on has no exception to report. -/
structure Portable (e : CpuEffect) : Prop where
  flow : Unplaced e.flow
  target : Unplaced e.target
  update : ∀ s pc first last, e.update (s.placed pc first last) = (e.update s).placed pc first last
  outcome : ∀ s, e.flow s = .next → SameOutcome s (e.update s)
  fetched : ∀ s, e.flow s ≠ .fault .instructionBus
  redirect : ∀ s, e.flow s = .redirect → e.target s ≠ none

def change (u : Cpu → Cpu) : CpuEffect := { flow := fun _ => .next, update := u, target := fun _ => none }

theorem portable_change {u : Cpu → Cpu} (hu : Neutral u) : (change u).Portable :=
  ⟨fun _ _ _ _ => rfl, fun _ _ _ _ => rfl, hu.placed, fun s _ => hu.outcome s, nofun, nofun⟩

def trap (code : ExcCode) : CpuEffect :=
  { flow := fun _ => .fault code, update := fun s => s, target := fun _ => none }

theorem portable_trap {code : ExcCode} (other : code ≠ .instructionBus) : (trap code).Portable :=
  ⟨fun _ _ _ _ => rfl, fun _ _ _ _ => rfl, fun _ _ _ _ => rfl, nofun,
    fun _ h => other (Flow.fault.inj h), nofun⟩

def result (rd : RegNum) (r : Cpu → Option Dword) : CpuEffect :=
  { flow := fun s => if (r s).isSome then .next else .fault .overflow
    update := fun s => if (r s).isSome then s.setReg rd ((r s).getD 0) else s
    target := fun _ => none }

theorem portable_result (rd : RegNum) {r : Cpu → Option Dword} (hr : Unplaced r) :
    (result rd r).Portable := by
  have neutral : Neutral (result rd r).update :=
    .ite (c := fun s => (r s).isSome) (fun s pc first last => congrArg Option.isSome (hr s pc first last))
      (Cpu.neutral_setReg rd (fun s pc first last => congrArg (·.getD 0) (hr s pc first last))) Cpu.neutral_id
  refine ⟨?_, fun _ _ _ _ => rfl, neutral.placed, fun s _ => neutral.outcome s, ?_, ?_⟩
  · intro s pc first last
    simp only [result, hr s pc first last]
  · intro s
    simp only [result]
    split <;> nofun
  · intro s h
    simp only [result] at h
    split at h <;> cases h

def jump (u : Cpu → Cpu) (target : Cpu → Word) : CpuEffect :=
  { flow := fun _ => .next, update := u, target := fun s => some (target s) }

theorem portable_jump {u : Cpu → Cpu} (hu : Neutral u) {target : Cpu → Word} (ht : Unplaced target) :
    (jump u target).Portable :=
  ⟨fun _ _ _ _ => rfl, fun s pc first last => congrArg some (ht s pc first last), hu.placed,
    fun s _ => hu.outcome s, nofun, nofun⟩

def branch (u : Cpu → Cpu) (taken : Cpu → Bool) (likely : Bool) (pc target : Word) : CpuEffect :=
  { flow := fun s => if taken s then .next else if likely then .skipDelaySlot else .next
    update := u
    target := fun s => if taken s then some target else if likely then none else some (pc + 8) }

theorem portable_branch {u : Cpu → Cpu} (hu : Neutral u) {taken : Cpu → Bool} (ht : Unplaced taken)
    (likely : Bool) (pc target : Word) : (branch u taken likely pc target).Portable := by
  refine ⟨?_, ?_, hu.placed, fun s _ => hu.outcome s, ?_, ?_⟩
  · intro s pc first last
    simp only [branch, ht s pc first last]
  · intro s pc first last
    simp only [branch, ht s pc first last]
  · intro s
    simp only [branch]
    split
    · nofun
    · split <;> nofun
  · intro s h
    simp only [branch] at h
    split at h
    · cases h
    · split at h <;> cases h

/-- A branch that goes on has stored the next program counter. -/
theorem branch_goes (u : Cpu → Cpu) (taken : Cpu → Bool) (likely : Bool) (pc target : Word) (s : Cpu)
    (h : (branch u taken likely pc target).flow s = .next) :
    (branch u taken likely pc target).target s ≠ none := by
  simp only [branch] at h ⊢
  split at h
  · next e => simp [e]
  · next e =>
    split at h
    · cases h
    · next e' => simp [e, e']

/-- Do as `e` does if system control is usable. -/
def privileged (e : CpuEffect) : CpuEffect :=
  { flow := fun s => if s.cop0Usable then e.flow s else .fault .coprocessorUnusable
    update := fun s => if s.cop0Usable then e.update s else s.raiseUnusable
    target := fun s => if s.cop0Usable then e.target s else none }

theorem Portable.privileged {e : CpuEffect} (h : e.Portable) : e.privileged.Portable := by
  have usable : Unplaced Cpu.cop0Usable := fun _ _ _ _ => rfl
  refine ⟨?_, ?_, ?_, ?_, ?_, ?_⟩
  · intro s pc first last
    simp only [CpuEffect.privileged, usable s pc first last, h.flow s pc first last]
  · intro s pc first last
    simp only [CpuEffect.privileged, usable s pc first last, h.target s pc first last]
  · intro s pc first last
    simp only [CpuEffect.privileged, usable s pc first last, h.update s pc first last]
    split <;> rfl
  · intro s next
    simp only [CpuEffect.privileged] at next ⊢
    split at next
    · next ok =>
      rw [if_pos ok]
      exact h.outcome s next
    · cases next
  · intro s
    simp only [CpuEffect.privileged]
    split
    · exact h.fetched s
    · nofun
  · intro s redirect
    simp only [CpuEffect.privileged] at redirect ⊢
    split at redirect
    · next ok =>
      rw [if_pos ok]
      exact h.redirect s redirect
    · cases redirect

end CpuEffect

/-! ## Instructions -/

open Cpu (Unplaced Neutral)

/-- Go on with the value of a load, or with the exception it recorded. -/
def Guest.finishLoad (put : Quad → Cpu → Cpu) : Option Quad × Guest → Flow × Guest
  | (some v, g) => g.goOn (put v g.cpu)
  | (none, g) => (g.recordedFault, g)

/-- The kinds of instructions. -/
inductive DecodedInsn.Kind (i : DecodedInsn) : Prop where
  /-- It changes the processor alone. -/
  | compute (e : CpuEffect) (portable : e.Portable)
    (goes : i.insn.hasDelaySlot = true → ∀ s, e.flow s = .next → e.target s ≠ none)
    (exec : ∀ g : Guest, g.exec i = e.on g)
  | load (w : Width) (addr : Cpu → Word) (put : Quad → Cpu → Cpu) (addrUnplaced : Unplaced addr)
    (neutral : ∀ v, Neutral (put v)) (plain : i.insn.hasDelaySlot = false)
    (exec : ∀ g : Guest, g.exec i = Guest.finishLoad put (g.load w (addr g.cpu)))
  | store (w : Width) (addr : Cpu → Word) (value : Cpu → Quad) (addrUnplaced : Unplaced addr)
    (valueUnplaced : Unplaced value) (plain : i.insn.hasDelaySlot = false)
    (exec : ∀ g : Guest, g.exec i = g.execStore w (addr g.cpu) (value g.cpu))

namespace Guest

variable {i : DecodedInsn}

theorem kind_change {u : Cpu → Cpu} (hu : Neutral u) (plain : i.insn.hasDelaySlot = false)
    (exec : ∀ g : Guest, g.exec i = g.goOn (u g.cpu)) : i.Kind :=
  .compute (.change u) (CpuEffect.portable_change hu) (by simp [plain]) exec

theorem kind_result (rd : RegNum) {r : Cpu → Option Dword} (hr : Unplaced r)
    (plain : i.insn.hasDelaySlot = false) (exec : ∀ g : Guest, g.exec i = g.writeResult rd (r g.cpu)) :
    i.Kind := by
  refine .compute (.result rd r) (CpuEffect.portable_result rd hr) (by simp [plain]) ?_
  intro g
  rw [exec]
  unfold writeResult CpuEffect.on CpuEffect.result
  dsimp only
  cases r g.cpu <;> rfl

theorem kind_trap (code : ExcCode) (other : code ≠ .instructionBus) (plain : i.insn.hasDelaySlot = false)
    (exec : ∀ g : Guest, g.exec i = (.fault code, g)) : i.Kind :=
  .compute (.trap code) (CpuEffect.portable_trap other) (by simp [plain]) exec

theorem kind_jump {u : Cpu → Cpu} (hu : Neutral u) (target : Cpu → Word) (ht : Unplaced target)
    (exec : ∀ g : Guest, g.exec i = g.goOn { u g.cpu with pc := target g.cpu }) : i.Kind :=
  .compute (.jump u target) (CpuEffect.portable_jump hu ht) (fun _ _ _ => by simp [CpuEffect.jump]) exec

theorem kind_branch {u : Cpu → Cpu} (hu : Neutral u) (taken : Cpu → Bool) (ht : Unplaced taken) (likely : Bool)
    (pc target : Word)
    (exec : ∀ g : Guest, g.exec i =
      ({ g with cpu := u g.cpu } : Guest).execBranch pc target (taken g.cpu) likely) : i.Kind := by
  refine .compute (.branch u taken likely pc target) (CpuEffect.portable_branch hu ht likely pc target)
    (fun _ => CpuEffect.branch_goes u taken likely pc target) ?_
  intro g
  rw [exec]
  unfold execBranch CpuEffect.on CpuEffect.branch
  dsimp only
  cases taken g.cpu
  · cases likely <;> rfl
  · rfl

theorem kind_privileged {e : CpuEffect} (portable : e.Portable) (plain : i.insn.hasDelaySlot = false)
    (uses : i.insn.usesControl = true) (allowed : ∀ g : Guest, g.cpu.cop0Usable = true → g.exec i = e.on g) :
    i.Kind := by
  refine .compute e.privileged portable.privileged (by simp [plain]) ?_
  intro g
  unfold CpuEffect.on CpuEffect.privileged
  cases usable : g.cpu.cop0Usable with
  | true =>
    rw [allowed g usable]
    simp [CpuEffect.on, usable]
  | false =>
    rw [g.exec_refused uses usable]
    simp [usable]

theorem kind_eret (plain : i.insn.hasDelaySlot = false) (uses : i.insn.usesControl = true)
    (exec : ∀ g : Guest, g.exec i = g.execPrivileged .redirect g.cpu.eret) : i.Kind := by
  have cleared : Neutral (fun s => if (s.status &&& Status.erl) != 0 then
      s.setCreg Cop0.status (s.status &&& ~~~Status.erl)
      else s.setCreg Cop0.status (s.status &&& ~~~Status.exl)) :=
    .ite (c := fun s => (s.status &&& Status.erl) != 0) (fun _ _ _ _ => rfl)
      (Cpu.neutral_setCreg Cop0.status (v := fun s => s.status &&& ~~~Status.erl) (fun _ _ _ _ => rfl))
      (Cpu.neutral_setCreg Cop0.status (v := fun s => s.status &&& ~~~Status.exl) (fun _ _ _ _ => rfl))
  have portable : CpuEffect.Portable
      { flow := fun _ => .redirect
        update := fun s => if (s.status &&& Status.erl) != 0 then
          s.setCreg Cop0.status (s.status &&& ~~~Status.erl)
          else s.setCreg Cop0.status (s.status &&& ~~~Status.exl)
        target := fun s => some (if (s.status &&& Status.erl) != 0 then s.creg Cop0.errorEpc
          else s.creg Cop0.epc) } :=
    ⟨fun _ _ _ _ => rfl, fun _ _ _ _ => rfl, cleared.placed, nofun, nofun, nofun⟩
  refine kind_privileged portable plain uses fun g usable => ?_
  rw [exec]
  unfold Cpu.eret CpuEffect.on
  rw [if_pos usable]
  dsimp only
  split <;> rfl

theorem kind_setEie (enable : Bool) (plain : i.insn.hasDelaySlot = false) (uses : i.insn.usesControl = true)
    (exec : ∀ g : Guest, g.exec i = g.execPrivileged .next (g.cpu.setEie enable)) : i.Kind := by
  have moved := Cpu.neutral_status
    (v := fun s => if enable then s.status ||| Status.eie else s.status &&& ~~~Status.eie)
    (fun _ _ _ _ => rfl) (c := fun s => s.inKernelMode || (s.status &&& Status.edi) != 0) (fun _ _ _ _ => rfl)
  refine kind_privileged (CpuEffect.portable_change moved) plain uses fun g usable => ?_
  rw [exec]
  unfold Cpu.setEie CpuEffect.on CpuEffect.change
  rw [if_pos usable]
  dsimp only
  split <;> rfl

/-- What every instruction is. -/
theorem exec_kind (i : DecodedInsn) : i.Kind := by
  obtain ⟨pc, word, insn, slot⟩ := i
  have effective (base : RegNum) (off : Half) : Unplaced (fun s => s.effectiveAddr base off) :=
    fun _ _ _ _ => rfl
  cases insn with
  | nop | sync => exact kind_change Cpu.neutral_id rfl (fun _ => rfl)
  | alu op rd rs rt =>
    exact kind_result rd (r := fun s => op.eval (s.reg rs) (s.reg rt)) (fun _ _ _ _ => rfl) rfl (fun _ => rfl)
  | aluImm op rt rs imm =>
    exact kind_result rt (r := fun s => op.eval (s.reg rs) imm) (fun _ _ _ _ => rfl) rfl (fun _ => rfl)
  | lui rt imm =>
    exact kind_change (Cpu.neutral_setReg rt (v := fun _ => sextWord (imm.setWidth 32 <<< 16))
      (fun _ _ _ _ => rfl)) rfl (fun _ => rfl)
  | shift op rd rt sa =>
    exact kind_change (Cpu.neutral_setReg rd (v := fun s => op.eval (s.reg rt) sa.val) (fun _ _ _ _ => rfl)) rfl
      (fun _ => rfl)
  | shiftVar op rd rt rs =>
    exact kind_change (Cpu.neutral_setReg rd (v := fun s => op.eval (s.reg rt) (s.reg rs))
      (fun _ _ _ _ => rfl)) rfl (fun _ => rfl)
  | mulDiv op rd rs rt =>
    have products : Neutral (fun s => { s with
        lo := (op.eval (s.reg rs) (s.reg rt)).lo, hi := (op.eval (s.reg rs) (s.reg rt)).hi }) :=
      ⟨fun _ _ _ _ => rfl, fun _ => ⟨rfl, rfl, rfl⟩⟩
    have low := Cpu.neutral_setReg rd (v := Cpu.lo) (fun _ _ _ _ => rfl)
    exact kind_change (.ite (c := fun _ => op.isMul) (fun _ _ _ _ => rfl) (low.comp products) products) rfl
      (fun _ => rfl)
  | hiLo op r =>
    cases op with
    | mfhi => exact kind_change (Cpu.neutral_setReg r (v := Cpu.hi) (fun _ _ _ _ => rfl)) rfl (fun _ => rfl)
    | mflo => exact kind_change (Cpu.neutral_setReg r (v := Cpu.lo) (fun _ _ _ _ => rfl)) rfl (fun _ => rfl)
    | mthi =>
      exact kind_change (u := fun s => { s with hi := s.reg r })
        ⟨fun _ _ _ _ => rfl, fun _ => ⟨rfl, rfl, rfl⟩⟩ rfl (fun _ => rfl)
    | mtlo =>
      exact kind_change (u := fun s => { s with lo := s.reg r })
        ⟨fun _ _ _ _ => rfl, fun _ => ⟨rfl, rfl, rfl⟩⟩ rfl (fun _ => rfl)
  | condMove op rd rs rt =>
    exact kind_change
      (.ite (c := fun s => (s.reg rt == 0) == (op == .movz)) (fun _ _ _ _ => rfl)
        (Cpu.neutral_setReg rd (v := fun s => s.reg rs) (fun _ _ _ _ => rfl)) Cpu.neutral_id) rfl (fun _ => rfl)
  | load op rt base off =>
    by_cases quad : op = .lq
    · exact .load op.width _ (fun v s => s.setRegQuad rt v) (effective base off)
        (fun v => Cpu.neutral_setRegQuad rt (v := fun _ => v) (fun _ _ _ _ => rfl)) rfl
        (fun g => by simp only [exec, execLoad, if_pos quad]; rfl)
    · exact .load op.width _ (fun v s => s.setReg rt (op.extend v)) (effective base off)
        (fun v => Cpu.neutral_setReg rt (v := fun _ => op.extend v) (fun _ _ _ _ => rfl)) rfl
        (fun g => by simp only [exec, execLoad, if_neg quad]; rfl)
  | store op rt base off =>
    exact .store op.width _ (fun s => s.regQuad rt) (effective base off) (fun _ _ _ _ => rfl) rfl (fun _ => rfl)
  | branch cond rs rt off likely link =>
    refine kind_branch (Cpu.neutral_link link pc) (fun s => cond.holds (s.reg rs) (s.reg rt))
      (fun _ _ _ _ => rfl) likely pc (branchTarget pc off) ?_
    intro g
    cases link <;> rfl
  | fpuBranch onTrue likely off =>
    exact kind_branch Cpu.neutral_id (fun s => s.fpuCondition == onTrue) (fun _ _ _ _ => rfl) likely
      pc (branchTarget pc off) (fun _ => rfl)
  | jump index link =>
    exact kind_jump (Cpu.neutral_link link pc) (fun _ => jumpTarget pc (index.setWidth 32)) (fun _ _ _ _ => rfl)
      (fun _ => rfl)
  | jumpReg rs link =>
    have target : Unplaced (fun s => ((s.reg rs).setWidth 32 : Word)) := fun _ _ _ _ => rfl
    cases link with
    | none => exact kind_jump Cpu.neutral_id _ target (fun _ => rfl)
    | some rd =>
      exact kind_jump (Cpu.neutral_setReg rd (v := fun _ => linkValue pc) (fun _ _ _ _ => rfl)) _ target
        (fun _ => rfl)
  | syscall code => exact kind_trap .syscall (by decide) rfl (fun _ => rfl)
  | breakpoint code => exact kind_trap .breakpoint (by decide) rfl (fun _ => rfl)
  | reserved word => exact kind_trap .reservedInstruction (by decide) rfl (fun _ => rfl)
  | cop0Move op rt rd =>
    cases op with
    | mfc0 =>
      have moved := Cpu.neutral_setReg rt (v := fun s => sextWord (s.creg rd)) (fun _ _ _ _ => rfl)
      refine kind_privileged (CpuEffect.portable_change moved) rfl rfl fun g usable => ?_
      simp only [exec, Cpu.mfc0, if_pos usable]
      rfl
    | mtc0 =>
      have moved := Cpu.neutral_writeCreg rd (v := fun s => (s.reg rt).setWidth 32) (fun _ _ _ _ => rfl)
      refine kind_privileged (CpuEffect.portable_change moved) rfl rfl fun g usable => ?_
      simp only [exec, Cpu.mtc0, if_pos usable]
      rfl
  | eret => exact kind_eret rfl rfl (fun _ => rfl)
  | ei => exact kind_setEie true rfl rfl (fun _ => rfl)
  | di => exact kind_setEie false rfl rfl (fun _ => rfl)
  | fpuMove op rt fs =>
    cases op with
    | mfc1 =>
      exact kind_change (Cpu.neutral_setReg rt (v := fun s => sextWord (s.freg fs)) (fun _ _ _ _ => rfl)) rfl
        (fun _ => rfl)
    | mtc1 =>
      exact kind_change (Cpu.neutral_setFreg fs (v := fun s => (s.reg rt).setWidth 32) (fun _ _ _ _ => rfl)) rfl
        (fun _ => rfl)
    | cfc1 =>
      exact kind_change (Cpu.neutral_setReg rt (v := fun s => sextWord (s.fpuControl fs.val))
        (fun _ _ _ _ => rfl)) rfl (fun _ => rfl)
    | ctc1 =>
      have moved : Neutral (fun s => { s with fcr31 := (s.reg rt).setWidth 32 &&& Fcr31.writable }) :=
        ⟨fun _ _ _ _ => rfl, fun _ => ⟨rfl, rfl, rfl⟩⟩
      exact kind_change (.ite (c := fun _ => decide (fs.val = 31)) (fun _ _ _ _ => rfl) moved Cpu.neutral_id) rfl
        (fun g => by simp only [exec, Cpu.setFpuControl, decide_eq_true_eq])
  | fpuLoad ft base off =>
    exact .load .word _ (fun v s => s.setFreg ft (v.setWidth 32)) (effective base off)
      (fun v => Cpu.neutral_setFreg ft (v := fun _ => v.setWidth 32) (fun _ _ _ _ => rfl)) rfl (fun _ => rfl)
  | fpuStore ft base off =>
    exact .store .word _ (fun s => (s.freg ft).setWidth 128) (effective base off) (fun _ _ _ _ => rfl) rfl
      (fun _ => rfl)
  | fpuArith op fd fs ft => exact kind_change (Cpu.neutral_fpuArith op fd fs ft) rfl (fun _ => rfl)
  | fpuCompare cond fs ft => exact kind_change (Cpu.neutral_fpuCompare cond fs ft) rfl (fun _ => rfl)
  | mmi op rd rs rt =>
    exact kind_change (Cpu.neutral_setRegQuad rd (v := fun s => op.eval (s.regQuad rs) (s.regQuad rt))
      (fun _ _ _ _ => rfl)) rfl (fun _ => rfl)

/-! ## What an instruction leaves alone -/

/-- What every instruction leaves alone: the pages that are watched, and the outcome fields if it goes
on. No instruction finds that one cannot be fetched. -/
structure Leaves (g : Guest) (r : Flow × Guest) : Prop where
  first : r.2.cpu.blockFirst = g.cpu.blockFirst
  last : r.2.cpu.blockLast = g.cpu.blockLast
  outcome : r.1 = .next → g.cpu.SameOutcome r.2.cpu
  fetched : r.1 ≠ .fault .instructionBus

theorem Does.leaves {g : Guest} {i : DecodedInsn} {r : Flow × Guest} (does : g.Does i r) : g.Leaves r := by
  cases does with
  | computes made plain => exact ⟨made.first, made.last, fun _ => made.outcome, nofun⟩
  | moves rt v move => exact ⟨rfl, rfl, fun _ => ⟨rfl, rfl, rfl⟩, nofun⟩
  | goes made pc transfers =>
    obtain ⟨code, slot, pending⟩ := made.outcome
    exact ⟨made.first, made.last, fun _ => ⟨code, slot, pending⟩, nofun⟩
  | skips made transfers => exact ⟨made.first, made.last, nofun, nofun⟩
  | traps other => exact ⟨rfl, rfl, nofun, fun same => other (Flow.fault.inj same)⟩
  | loads accessed loaded made plain => exact ⟨made.first, made.last, fun _ => made.outcome, nofun⟩
  | stores accessed stored plain => exact ⟨rfl, rfl, fun _ => ⟨rfl, rfl, rfl⟩, nofun⟩
  | rewrites accessed stored => exact ⟨rfl, rfl, nofun, nofun⟩
  | misloads accessed other failed | misstores accessed other failed =>
    exact ⟨rfl, rfl, nofun, fun same => other (Flow.fault.inj same)⟩
  | controls cop0 writes plain => exact ⟨rfl, rfl, fun _ => ⟨rfl, rfl, rfl⟩, nofun⟩
  | returns pc cop0 insn => exact ⟨rfl, rfl, nofun, nofun⟩
  | refused => exact ⟨rfl, rfl, nofun, nofun⟩

theorem exec_leaves (g : Guest) (i : DecodedInsn) : g.Leaves (g.exec i) := (g.exec_does i).leaves

end Guest

end EmotionEngine
