import EmotionEngine.Proofs.Block.Effect
import EmotionEngine.Proofs.Code.Helpers
import EmotionEngine.Proofs.Cpu.Rest
import EmotionEngine.Proofs.Plan.Steps

/-!
Declared register traffic against execution. Every instruction goes in three phases: it takes its inputs
from the guest registers, acts on the rest of the guest, and puts its results into guest registers.
`Known` inputs come from declared reads, the action is apart from the registers, and `Puts` says that the
results go to declared writes and nowhere else.

`Summary u f` is that `u` describes `f`: what `f` may change (`Confined`), and that runs that agree on
what `u` reads come out alike (`Determined`).

Main statement: `Insn.uses` describes every instruction, and a block keeps every guest register outside
its clobbers (`uses_sound`).
-/

namespace EmotionEngine

/-! ## Declarations and runs -/

/-- Nothing but declared writes changed: low halves of `writes`, all of `envWrites`, never register 0. -/
structure Confined (u : Uses) (s t : Cpu) : Prop where
  low : ∀ x, x ∉ u.writes → x ∉ u.envWrites → t.file x = s.file x
  high : ∀ r, .gpr r ∉ u.envWrites → highHalf (t.regQuad r) = highHalf (s.regQuad r)
  zero : t.regQuad 0 = s.regQuad 0

/-- Two processors that agree on everything but guest registers, and of these on the low halves of
`reads` and on all of `envReads`. Register 0 is zero in both. -/
structure Agree (u : Uses) (s t : Cpu) : Prop where
  zero : s.regQuad 0 = 0
  zero' : t.regQuad 0 = 0
  rest : s.rest = t.rest
  reads : ∀ x ∈ u.reads, s.file x = t.file x
  envReads : ∀ x ∈ u.envReads, s.whole x = t.whole x

/-- Two results that agree on the flow, on memory and on everything but guest registers and, if there was
no fault, on the low halves of `writes` and all of `envWrites`. -/
structure Determined (u : Uses) (a b : Flow × Guest) : Prop where
  flow : a.1 = b.1
  mem : a.2.mem = b.2.mem
  rest : a.2.cpu.rest = b.2.cpu.rest
  writes : (∀ code, a.1 ≠ .fault code) → ∀ x ∈ u.writes, a.2.cpu.file x = b.2.cpu.file x
  envWrites : (∀ code, a.1 ≠ .fault code) → ∀ x ∈ u.envWrites, a.2.cpu.whole x = b.2.cpu.whole x

/-- `u` describes what `f` does with the guest registers. -/
structure Summary (u : Uses) (f : Guest → Flow × Guest) : Prop where
  confined : ∀ g, Confined u g.cpu (f g).2.cpu
  determined : ∀ g h, g.mem = h.mem → Agree u g.cpu h.cpu → Determined u (f g) (f h)

/-! ## Inputs -/

/-- A value that the declared reads determine. -/
def Known {α : Type} (u : Uses) (v : Cpu → α) : Prop := ∀ s t, Agree u s t → v s = v t

variable {u : Uses} {α β γ : Type}

theorem known_const (c : α) : Known u (fun _ => c) := fun _ _ _ => rfl

theorem Known.map {v : Cpu → α} (h : Known u v) (f : α → β) : Known u (fun s => f (v s)) :=
  fun s t agree => congrArg f (h s t agree)

theorem Known.map₂ {v : Cpu → α} {w : Cpu → β} (hv : Known u v) (hw : Known u w) (f : α → β → γ) :
    Known u (fun s => f (v s) (w s)) := by
  intro s t agree
  dsimp only
  rw [hv s t agree, hw s t agree]

theorem known_rest {v : Cpu → α} (h : ∀ s, v s.rest = v s) : Known u v := by
  intro s t agree
  rw [← h s, agree.rest, h t]

/-- A declared register or register 0, which no list holds. -/
theorem known_reg (r : RegNum) {rs : List GuestReg} (reads : u.reads = regList rs) (mem : .gpr r ∈ rs) :
    Known u (fun s => s.reg r) := by
  intro s t agree
  dsimp only
  by_cases zero : r = 0
  · rw [zero, Cpu.reg_eq, Cpu.reg_eq, agree.zero, agree.zero']
  · apply agree.reads (.gpr r)
    rw [reads, mem_regList]
    exact ⟨mem, by simpa using zero⟩

theorem known_regQuad (r : RegNum) {rs : List GuestReg} (reads : u.envReads = regList rs)
    (mem : .gpr r ∈ rs) : Known u (fun s => s.regQuad r) := by
  intro s t agree
  dsimp only
  by_cases zero : r = 0
  · rw [zero, agree.zero, agree.zero']
  · apply agree.envReads (.gpr r)
    rw [reads, mem_regList]
    exact ⟨mem, by simpa using zero⟩

/-! ## Results -/

/-- Putting a result changes declared writes only, and the result alone decides them. -/
structure Puts (u : Uses) (put : β → Cpu → Cpu) : Prop where
  confined : ∀ b s, Confined u s (put b s)
  rest : ∀ b s, (put b s).rest = s.rest
  writes : ∀ b s t, ∀ x ∈ u.writes, (put b s).file x = (put b t).file x
  envWrites : ∀ b s t, ∀ x ∈ u.envWrites, (put b s).whole x = (put b t).whole x

theorem Puts.map {put : β → Cpu → Cpu} (h : Puts u put) (f : α → β) : Puts u (fun a s => put (f a) s) :=
  ⟨fun a => h.confined (f a), fun a => h.rest (f a), fun a => h.writes (f a), fun a => h.envWrites (f a)⟩

theorem puts_nothing (writes : u.writes = []) (envWrites : u.envWrites = []) :
    Puts u (fun (_ : β) s => s) where
  confined _ _ := ⟨fun _ _ _ => rfl, fun _ _ => rfl, rfl⟩
  rest _ _ := rfl
  writes := by simp [writes]
  envWrites := by simp [envWrites]

theorem puts_scalar {put : β → Cpu → Cpu} (value : β → GuestReg → Dword) (envWrites : u.envWrites = [])
    (zero : .gpr 0 ∉ u.writes) (rest : ∀ b s, (put b s).rest = s.rest)
    (high : ∀ b s r, highHalf ((put b s).regQuad r) = highHalf (s.regQuad r))
    (file : ∀ b s x, (put b s).file x = if x ∈ u.writes then value b x else s.file x) : Puts u put where
  confined b s := by
    have low (x : GuestReg) (h : x ∉ u.writes) : (put b s).file x = s.file x := by rw [file, if_neg h]
    refine ⟨fun x h _ => low x h, fun r _ => high b s r, ?_⟩
    rw [← joinHalves_halves ((put b s).regQuad 0), ← joinHalves_halves (s.regQuad 0), high]
    exact congrArg (joinHalves _) (low (.gpr 0) zero)
  rest := rest
  writes b s t x h := by rw [file, file, if_pos h, if_pos h]
  envWrites := by simp [envWrites]

theorem puts_setReg {r : RegNum} (writes : u.writes = regList [.gpr r]) (envWrites : u.envWrites = []) :
    Puts u (fun v s => s.setReg r v) := by
  refine puts_scalar (fun v _ => v) envWrites (by simp [writes]) (fun _ _ => Cpu.rest_setReg _ _ _)
    (fun v s x => Cpu.highHalf_setReg s r x v) (fun v s x => ?_)
  have mem : x ∈ u.writes ↔ x = .gpr r ∧ r ≠ 0 := by
    rw [writes, mem_regList, List.mem_singleton]
    exact and_congr_right (fun e => by rw [e, Ne, GuestReg.gpr.injEq])
  rw [Cpu.file_setReg]
  simp only [mem]

theorem puts_setRegQuad {r : RegNum} (writes : u.writes = []) (envWrites : u.envWrites = regList [.gpr r]) :
    Puts u (fun v s => s.setRegQuad r v) := by
  have mem (x : GuestReg) : x ∈ u.envWrites ↔ x = .gpr r ∧ r ≠ 0 := by
    rw [envWrites, mem_regList, List.mem_singleton]
    exact and_congr_right (fun e => by rw [e, Ne, GuestReg.gpr.injEq])
  refine ⟨fun v s => ⟨?low, ?high, ?zero⟩, fun _ _ => Cpu.rest_setRegQuad _ _ _, by simp [writes], ?written⟩
  case low =>
    intro x _ h
    rw [Cpu.file_setRegQuad, if_neg (fun e => h ((mem x).2 e))]
  case high =>
    intro x h
    rw [Cpu.regQuad_setRegQuad, if_neg (fun e => h ((mem _).2 ⟨congrArg _ e.1, e.2⟩))]
  case zero => rw [Cpu.regQuad_setRegQuad, if_neg (fun e => e.2 e.1.symm)]
  case written =>
    intro v s t x h
    obtain ⟨rfl, hr⟩ := (mem x).1 h
    simp [Cpu.whole, Cpu.regQuad_setRegQuad, hr]

theorem puts_hi (writes : u.writes = [.hi]) (envWrites : u.envWrites = []) :
    Puts u (fun v s => { s with hi := v }) := by
  refine puts_scalar (fun v _ => v) envWrites (by simp [writes]) (fun _ _ => rfl) (fun _ _ _ => rfl)
    (fun v s x => ?_)
  rw [writes]
  cases x <;> simp [Cpu.file, Cpu.reg]

theorem puts_lo (writes : u.writes = [.lo]) (envWrites : u.envWrites = []) :
    Puts u (fun v s => { s with lo := v }) := by
  refine puts_scalar (fun v _ => v) envWrites (by simp [writes]) (fun _ _ => rfl) (fun _ _ _ => rfl)
    (fun v s x => ?_)
  rw [writes]
  cases x <;> simp [Cpu.file, Cpu.reg]

/-- HI and LO, and for a product the low word in a register too. -/
theorem puts_mulDiv {op : MulDivOp} {rd : RegNum}
    (writes : u.writes = regList (if op.isMul then [.gpr rd, .hi, .lo] else [.hi, .lo]))
    (envWrites : u.envWrites = []) :
    Puts u (fun (r : HiLo) s =>
      let s := { s with lo := r.lo, hi := r.hi }
      if op.isMul then s.setReg rd r.lo else s) := by
  refine puts_scalar (fun r x => if x = .hi then r.hi else r.lo) envWrites (by simp [writes])
    (fun r s => ?_) (fun r s x => ?_) (fun r s x => ?_)
  · dsimp only
    split
    · rw [Cpu.rest_setReg]; rfl
    · rfl
  · dsimp only
    split
    · rw [Cpu.highHalf_setReg]; rfl
    · rfl
  · dsimp only
    cases mul : op.isMul with
    | true =>
      rw [mul] at writes
      rw [if_pos rfl, Cpu.file_setReg, writes]
      cases x with
      | gpr n =>
        simp only [GuestReg.gpr.injEq, mem_regList]
        by_cases e : n = rd <;> by_cases z : rd = 0 <;> simp [e, z, Cpu.file, Cpu.reg]
      | hi => simp [Cpu.file]
      | lo => simp [Cpu.file]
    | false =>
      rw [mul] at writes
      rw [if_neg Bool.false_ne_true, writes]
      cases x with
      | gpr n => simp; rfl
      | hi => simp [Cpu.file]
      | lo => simp [Cpu.file]

/-! ## The three phases -/

/-- Put the result of an action into the registers, if there is one. -/
def Guest.putResult (put : β → Cpu → Cpu) : (Flow × Option β) × Guest → Flow × Guest
  | ((flow, some b), g) => (flow, { g with cpu := put b g.cpu })
  | ((flow, none), g) => (flow, g)

/-- An action apart from the guest registers that fails to give a result only with a fault. -/
structure Acts (act : Guest → (Flow × Option β) × Guest) : Prop where
  apart : Guest.Apart act
  gives : ∀ g, (act g).1.2 = none → ∃ code, (act g).1.1 = .fault code

theorem Confined.of_whole {s s' t : Cpu} (h : Confined u s' t) (e : s'.whole = s.whole) : Confined u s t := by
  have file (x : GuestReg) : s'.file x = s.file x := by rw [← Cpu.lowHalf_whole, e, Cpu.lowHalf_whole]
  have quad (r : RegNum) : s'.regQuad r = s.regQuad r := congrFun e (.gpr r)
  refine ⟨fun x hw he => (h.low x hw he).trans (file x), fun r he => ?_, h.zero.trans (quad 0)⟩
  rw [h.high r he, quad]

/-- What takes known inputs, acts apart from the registers and puts its results where it says. -/
theorem summary_phases {take : Cpu → α} {act : α → Guest → (Flow × Option β) × Guest} {put : β → Cpu → Cpu}
    (known : Known u take) (acts : ∀ a, Acts (act a)) (puts : Puts u put) :
    Summary u (fun g => Guest.putResult put (act (take g.cpu) g)) where
  confined g := by
    have whole := (acts (take g.cpu)).apart.whole g
    generalize act (take g.cpu) g = r at whole ⊢
    obtain ⟨⟨flow, b | b⟩, k⟩ := r
    · exact Confined.of_whole ⟨fun _ _ _ => rfl, fun _ _ => rfl, rfl⟩ whole
    · exact (puts.confined b k.cpu).of_whole whole
  determined g h mem agree := by
    obtain ⟨out, mem', rest⟩ := (acts (take g.cpu)).apart.same mem agree.rest
    have gives := (acts (take g.cpu)).gives g
    rw [← known g.cpu h.cpu agree]
    generalize act (take g.cpu) g = r at out mem' rest gives ⊢
    generalize act (take g.cpu) h = r' at out mem' rest ⊢
    obtain ⟨⟨flow, b⟩, k⟩ := r
    obtain ⟨⟨flow', b'⟩, k'⟩ := r'
    obtain ⟨rfl, rfl⟩ : flow' = flow ∧ b' = b := by simpa using out
    cases b' with
    | none =>
      obtain ⟨code, fault⟩ := gives rfl
      exact ⟨rfl, mem'.symm, rest.symm, fun h => absurd fault (h code), fun h => absurd fault (h code)⟩
    | some b =>
      exact ⟨rfl, mem'.symm, by rw [Guest.putResult, Guest.putResult, puts.rest, puts.rest]; exact rest.symm,
        fun _ => puts.writes b _ _, fun _ => puts.envWrites b _ _⟩

theorem Guest.Apart.acts {op : Guest → Flow × Guest} (h : Guest.Apart op) :
    Acts (fun g => (((op g).1, some ()), (op g).2)) := by
  refine ⟨fun g gpr hi lo => ?_, fun _ none => nomatch none⟩
  dsimp only
  rw [h g gpr hi lo]

theorem summary_apart {take : Cpu → α} {f : α → Guest → Flow × Guest} (known : Known u take)
    (apart : ∀ a, Guest.Apart (f a)) (writes : u.writes = []) (envWrites : u.envWrites = []) :
    Summary u (fun g => f (take g.cpu) g) :=
  summary_phases known (fun a => (apart a).acts) (puts_nothing writes envWrites)

theorem summary_compute {t : Cpu → α} {put : α → Cpu → Cpu} (known : Known u t) (puts : Puts u put) :
    Summary u (fun g => g.goOn (put (t g.cpu) g.cpu)) := by
  have acts (a : α) : Acts (fun g : Guest => ((Flow.next, some a), g)) :=
    ⟨fun _ _ _ _ => rfl, fun _ h => nomatch h⟩
  exact summary_phases known acts puts

theorem summary_result {r : RegNum} {take : Cpu → Option Dword} (known : Known u take)
    (writes : u.writes = regList [.gpr r]) (envWrites : u.envWrites = []) :
    Summary u (fun g => g.writeResult r (take g.cpu)) := by
  let act (a : Option Dword) (g : Guest) : (Flow × Option Dword) × Guest :=
    ((if a.isSome then .next else .fault .overflow, a), g)
  have acts (a : Option Dword) : Acts (act a) := by
    refine ⟨fun _ _ _ _ => rfl, fun g h => ⟨.overflow, ?_⟩⟩
    obtain rfl : a = none := h
    rfl
  have eq : (fun g => g.writeResult r (take g.cpu)) =
      fun g => Guest.putResult (fun v s => s.setReg r v) (act (take g.cpu) g) := by
    funext g
    cases h : take g.cpu <;> simp [act, Guest.writeResult, Guest.putResult, Guest.goOn]
  rw [eq]
  exact summary_phases known acts (puts_setReg writes envWrites)

theorem summary_load {addr : Cpu → Word} {put : Quad → Cpu → Cpu} (w : Width) (known : Known u addr)
    (puts : Puts u put) : Summary u (fun g => Guest.finishLoad put (g.load w (addr g.cpu))) := by
  let act (a : Word) (g : Guest) : (Flow × Option Quad) × Guest :=
    let r := g.load w a
    ((if r.1.isSome then .next else r.2.recordedFault, r.1), r.2)
  have acts (a : Word) : Acts (act a) := by
    refine ⟨fun g gpr hi lo => ?_, fun g h => ?_⟩
    · dsimp only [act]
      rw [Guest.load_withRegs]
      rfl
    · have none : (g.load w a).1 = none := h
      exact ⟨_, by simp [act, none, Guest.recordedFault]; rfl⟩
  have eq : (fun g => Guest.finishLoad put (g.load w (addr g.cpu))) =
      fun g => Guest.putResult put (act (addr g.cpu) g) := by
    funext g
    dsimp only [act]
    generalize g.load w (addr g.cpu) = r
    obtain ⟨v | v, k⟩ := r <;> rfl
  rw [eq]
  exact summary_phases known acts puts

/-- Leave the return address of the instruction at `pc` in the link register, if there is one. -/
def Cpu.leaveLink (s : Cpu) (pc : Word) : Option RegNum → Cpu
  | some r => s.setReg r (linkValue pc)
  | none => s

theorem summary_branch {taken : Cpu → Bool} {target : Cpu → Word} (pc : Word) (likely : Bool)
    (link : Option RegNum) (hk : Known u taken) (ht : Known u target)
    (writes : u.writes = regList (link.toList.map .gpr)) (envWrites : u.envWrites = []) :
    Summary u (fun g => { g with cpu := g.cpu.leaveLink pc link }.execBranch pc (target g.cpu) (taken g.cpu)
      likely) := by
  let act (a : Bool × Word) (g : Guest) := g.execBranch pc a.2 a.1 likely
  have puts : Puts u (fun (_ : Unit) s => s.leaveLink pc link) := by
    cases link with
    | none => exact puts_nothing writes envWrites
    | some r => exact (puts_setReg writes envWrites).map (fun _ => linkValue pc)
  -- The link register and the program counter are written in either order.
  have eq : (fun g : Guest => { g with cpu := g.cpu.leaveLink pc link }.execBranch pc (target g.cpu)
        (taken g.cpu) likely) =
      fun g => Guest.putResult (fun (_ : Unit) s => s.leaveLink pc link)
        (((act (taken g.cpu, target g.cpu) g).1, some ()), (act (taken g.cpu, target g.cpu) g).2) := by
    funext g
    dsimp only [act]
    generalize taken g.cpu = t
    cases link with
    | none => rfl
    | some r =>
      cases t <;> cases likely <;>
        simp [Guest.execBranch, Guest.goOn, Guest.putResult, Cpu.leaveLink, Cpu.setReg_pc]
  rw [eq]
  exact summary_phases (hk.map₂ ht Prod.mk) (fun a => (Guest.apart_execBranch pc a.2 a.1 likely).acts) puts

/-! ## Instructions -/

theorem Summary.of_eq {f f' : Guest → Flow × Guest} (eq : ∀ g, f g = f' g) (h : Summary u f') : Summary u f := by
  rw [funext eq]
  exact h

theorem known_effectiveAddr (base : RegNum) (offset : Half) {rs : List GuestReg}
    (reads : u.reads = regList rs) (mem : .gpr base ∈ rs) : Known u (fun s => s.effectiveAddr base offset) :=
  (known_reg base reads mem).map (fun v => v.setWidth 32 + offset.signExtend 32)

namespace DecodedInsn

variable {pc word : Word} {slot : Bool}

/-- What an instruction with given fields does. -/
abbrev does (pc word : Word) (slot : Bool) (insn : Insn) (g : Guest) : Flow × Guest :=
  g.exec ⟨pc, word, insn, slot⟩

/-- A move that is not made writes back what the register held. -/
theorem summary_condMove (op : CondMoveOp) (rd rs rt : RegNum) :
    Summary (Insn.condMove op rd rs rt).uses (does pc word slot (.condMove op rd rs rt)) := by
  have reg (r : RegNum) (mem : .gpr r ∈ [GuestReg.gpr rs, .gpr rt, .gpr rd]) :=
    known_reg (u := (Insn.condMove op rd rs rt).uses) r rfl mem
  have value := ((reg rs (by simp)).map₂ (reg rd (by simp)) Prod.mk).map₂ (reg rt (by simp))
    (fun v t => if (t == 0) == (op == .movz) then v.1 else v.2)
  refine .of_eq (fun g => ?_) (summary_compute value (puts_setReg rfl rfl))
  simp only [does, Guest.exec]
  split
  · rfl
  · rw [Cpu.setReg_reg]

theorem summary_loads (op : LoadOp) (rt base : RegNum) (offset : Half) :
    Summary (Insn.load op rt base offset).uses (does pc word slot (.load op rt base offset)) := by
  have reads : (Insn.load op rt base offset).uses.reads = regList [.gpr base] := by cases op <;> rfl
  have addr := known_effectiveAddr base offset reads (by simp)
  by_cases quad : op = .lq
  · subst quad
    refine .of_eq (fun g => ?_) (summary_load .quad addr (puts_setRegQuad rfl rfl))
    simp only [does, Guest.exec, Guest.execLoad, if_pos]
    rfl
  · have writes : (Insn.load op rt base offset).uses.writes = regList [.gpr rt] ∧
        (Insn.load op rt base offset).uses.envWrites = [] := by
      cases op with
      | lq => exact absurd rfl quad
      | _ => exact ⟨rfl, rfl⟩
    refine .of_eq (fun g => ?_)
      (summary_load op.width addr ((puts_setReg writes.1 writes.2).map op.extend))
    simp only [does, Guest.exec, Guest.execLoad, if_neg quad]
    rfl

/-- A quadword store reads the register file; every other store needs the low half only. -/
theorem summary_stores (op : StoreOp) (rt base : RegNum) (offset : Half) :
    Summary (Insn.store op rt base offset).uses (does pc word slot (.store op rt base offset)) := by
  have apart (a : Word × Quad) := Guest.apart_execStore op.width a.1 a.2
  by_cases quad : op = .sq
  · subst quad
    have addr := known_effectiveAddr (u := (Insn.store .sq rt base offset).uses) base offset rfl (by simp)
    have value := known_regQuad (u := (Insn.store .sq rt base offset).uses) rt rfl (by simp)
    exact .of_eq (fun _ => rfl) (summary_apart (addr.map₂ value Prod.mk) apart rfl rfl)
  · obtain ⟨reads, writes, envWrites, width⟩ :
        (Insn.store op rt base offset).uses.reads = regList [.gpr base, .gpr rt] ∧
          (Insn.store op rt base offset).uses.writes = [] ∧
          (Insn.store op rt base offset).uses.envWrites = [] ∧ op.width ≠ .quad := by
      cases op with
      | sq => exact absurd rfl quad
      | _ => exact ⟨rfl, rfl, rfl, by decide⟩
    have addr := known_effectiveAddr base offset reads (by simp)
    have value := (known_reg rt reads (by simp)).map (fun v => v.setWidth 128)
    refine .of_eq (fun g => ?_) (summary_apart (addr.map₂ value Prod.mk) apart writes envWrites)
    simp only [does, Guest.exec, Guest.execStore]
    rw [Cpu.reg_eq, Guest.store_lowHalf _ width]

theorem summary_branches (cond : BranchCond) (rs rt : RegNum) (offset : Half) (likely link : Bool) :
    Summary (Insn.branch cond rs rt offset likely link).uses
      (does pc word slot (.branch cond rs rt offset likely link)) := by
  have reads : (Insn.branch cond rs rt offset likely link).uses.reads =
      regList (if cond.usesRt then [.gpr rs, .gpr rt] else [.gpr rs]) := rfl
  have left := known_reg rs reads (by split <;> simp)
  have taken : Known (Insn.branch cond rs rt offset likely link).uses
      (fun s => cond.holds (s.reg rs) (s.reg rt)) := by
    cases cond with
    | eq => exact left.map₂ (known_reg rt reads (by simp [BranchCond.usesRt])) BranchCond.eq.holds
    | ne => exact left.map₂ (known_reg rt reads (by simp [BranchCond.usesRt])) BranchCond.ne.holds
    -- The other conditions do not look at the second register.
    | lez => exact left.map (BranchCond.lez.holds · 0)
    | gtz => exact left.map (BranchCond.gtz.holds · 0)
    | ltz => exact left.map (BranchCond.ltz.holds · 0)
    | gez => exact left.map (BranchCond.gez.holds · 0)
  have target := known_const (u := (Insn.branch cond rs rt offset likely link).uses) (branchTarget pc offset)
  cases link with
  | true => exact .of_eq (fun _ => rfl) (summary_branch pc likely (some 31) taken target rfl rfl)
  | false => exact .of_eq (fun _ => rfl) (summary_branch pc likely none taken target rfl rfl)

theorem summary_mfc0 (rt rd : RegNum) :
    Summary (Insn.cop0Move .mfc0 rt rd).uses (does pc word slot (.cop0Move .mfc0 rt rd)) := by
  let act (_ : Unit) (g : Guest) : (Flow × Option Dword) × Guest :=
    if g.cpu.cop0Usable then ((.next, some (sextWord (g.cpu.creg rd))), g)
    else ((.fault .coprocessorUnusable, none), { g with cpu := g.cpu.raiseUnusable })
  have acts (a : Unit) : Acts (act a) := by
    refine ⟨fun g gpr hi lo => ?_, fun g h => ?_⟩
    · dsimp only [act]
      rw [show (g.withRegs gpr hi lo).cpu.cop0Usable = g.cpu.cop0Usable from rfl]
      split <;> rfl
    · dsimp only [act] at h ⊢
      split at h
      · exact nomatch h
      · next unusable => exact ⟨.coprocessorUnusable, by rw [if_neg unusable]⟩
  refine .of_eq (fun g => ?_) (summary_phases (known_const ()) acts (puts_setReg rfl rfl))
  simp only [does, Guest.exec, Cpu.mfc0, act]
  cases g.cpu.cop0Usable <;> rfl

end DecodedInsn

open DecodedInsn in
/-- The declared uses of an instruction describe its execution. -/
theorem exec_summary (i : DecodedInsn) : Summary i.insn.uses (fun g => g.exec i) := by
  obtain ⟨pc, word, insn, slot⟩ := i
  -- An instruction that reads no guest register still acts on the rest.
  have still {u : Uses} {act : Guest → Flow × Guest} (h : Guest.Apart act) (writes : u.writes = [])
      (envWrites : u.envWrites = []) : Summary u act :=
    summary_apart (f := fun _ => act) (known_const ()) (fun _ => h) writes envWrites
  cases insn with
  | nop | sync | syscall | breakpoint | reserved => exact still (fun _ _ _ _ => rfl) rfl rfl
  | alu op rd rs rt =>
    exact .of_eq (fun _ => rfl) (summary_result (.map₂ (known_reg rs rfl (by simp))
      (known_reg rt rfl (by simp)) op.eval) rfl rfl)
  | aluImm op rt rs imm =>
    exact .of_eq (fun _ => rfl) (summary_result (.map (known_reg rs rfl (by simp)) (op.eval · imm)) rfl rfl)
  | lui rt imm =>
    exact .of_eq (fun _ => rfl) (summary_compute (known_const (sextWord (imm.setWidth 32 <<< 16)))
      (puts_setReg rfl rfl))
  | shift op rd rt sa =>
    exact .of_eq (fun _ => rfl) (summary_compute (.map (known_reg rt rfl (by simp)) (op.eval · sa.val))
      (puts_setReg rfl rfl))
  | shiftVar op rd rt rs =>
    exact .of_eq (fun _ => rfl) (summary_compute (.map₂ (known_reg rt rfl (by simp))
      (known_reg rs rfl (by simp)) op.eval) (puts_setReg rfl rfl))
  | mulDiv op rd rs rt =>
    exact .of_eq (fun _ => rfl) (summary_compute (.map₂ (known_reg rs rfl (by simp))
      (known_reg rt rfl (by simp)) op.eval) (puts_mulDiv rfl rfl))
  | hiLo op r =>
    cases op with
    | mfhi =>
      exact .of_eq (fun _ => rfl) (summary_compute (t := Cpu.hi)
        (fun _ _ agree => agree.reads .hi (by simp [Insn.uses])) (puts_setReg rfl rfl))
    | mflo =>
      exact .of_eq (fun _ => rfl) (summary_compute (t := Cpu.lo)
        (fun _ _ agree => agree.reads .lo (by simp [Insn.uses])) (puts_setReg rfl rfl))
    | mthi => exact .of_eq (fun _ => rfl) (summary_compute (known_reg r rfl (by simp)) (puts_hi rfl rfl))
    | mtlo => exact .of_eq (fun _ => rfl) (summary_compute (known_reg r rfl (by simp)) (puts_lo rfl rfl))
  | condMove op rd rs rt => exact summary_condMove op rd rs rt
  | load op rt base offset => exact summary_loads op rt base offset
  | store op rt base offset => exact summary_stores op rt base offset
  | branch cond rs rt offset likely link => exact summary_branches cond rs rt offset likely link
  | fpuBranch onTrue likely offset =>
    exact .of_eq (fun _ => rfl) (summary_apart
      (f := fun taken g => g.execBranch pc (branchTarget pc offset) taken likely)
      (known_rest (v := fun s => s.fpuCondition == onTrue) (fun _ => rfl))
      (fun taken => Guest.apart_execBranch pc _ taken likely) rfl rfl)
  | jump index link =>
    have target := known_const (u := (Insn.jump index link).uses) (jumpTarget pc (index.setWidth 32))
    cases link with
    | true => exact .of_eq (fun _ => rfl) (summary_branch pc false (some 31) (known_const true) target rfl rfl)
    | false => exact .of_eq (fun _ => rfl) (summary_branch pc false none (known_const true) target rfl rfl)
  | jumpReg rs link =>
    have target : Known (Insn.jumpReg rs link).uses (fun s => (s.reg rs).setWidth 32) :=
      .map (known_reg rs rfl (by simp)) _
    cases link with
    | some rd => exact .of_eq (fun _ => rfl) (summary_branch pc false (some rd) (known_const true) target rfl rfl)
    | none => exact .of_eq (fun _ => rfl) (summary_branch pc false none (known_const true) target rfl rfl)
  | cop0Move op rt rd =>
    cases op with
    | mfc0 => exact summary_mfc0 rt rd
    | mtc0 =>
      exact .of_eq (fun _ => rfl) (summary_apart (.map (known_reg rt rfl (by simp)) (BitVec.setWidth 32))
        (fun v => Guest.apart_mtc0 rd v) rfl rfl)
  | eret => exact still Guest.apart_eret rfl rfl
  | ei => exact still (Guest.apart_setEie true) rfl rfl
  | di => exact still (Guest.apart_setEie false) rfl rfl
  | fpuMove op rt fs =>
    cases op with
    | mfc1 =>
      exact .of_eq (fun _ => rfl) (summary_compute (t := fun s => sextWord (s.freg fs))
        (known_rest (fun _ => rfl)) (puts_setReg rfl rfl))
    | cfc1 =>
      exact .of_eq (fun _ => rfl) (summary_compute (t := fun s => sextWord (s.fpuControl fs.val))
        (known_rest (fun _ => rfl)) (puts_setReg rfl rfl))
    | mtc1 =>
      exact .of_eq (fun _ => rfl) (summary_apart (f := fun v g => g.goOn (g.cpu.setFreg fs v))
        (.map (known_reg rt rfl (by simp)) (BitVec.setWidth 32))
        (fun v => Guest.apart_cpu Flow.next (u := fun s => s.setFreg fs v) (fun _ _ _ _ => rfl)) rfl rfl)
    | ctc1 =>
      exact .of_eq (fun _ => rfl) (summary_apart (.map (known_reg rt rfl (by simp)) (BitVec.setWidth 32))
        (fun v => Guest.apart_setFpuControl fs.val v) rfl rfl)
  | fpuLoad ft base offset =>
    exact .of_eq (fun _ => rfl) (summary_apart (known_effectiveAddr base offset rfl (by simp))
      (fun a => Guest.apart_execFpuLoad ft a) rfl rfl)
  | fpuStore ft base offset =>
    exact .of_eq (fun _ => rfl) (summary_apart
      (.map₂ (known_effectiveAddr base offset rfl (by simp))
        (known_rest (v := fun s => (s.freg ft).setWidth 128) (fun _ => rfl)) Prod.mk)
      (fun a => Guest.apart_execStore .word a.1 a.2) rfl rfl)
  | fpuArith op fd fs ft => exact still (Guest.apart_fpuArith op fd fs ft) rfl rfl
  | fpuCompare cond fs ft => exact still (Guest.apart_fpuCompare cond fs ft) rfl rfl
  | mmi op rd rs rt =>
    exact .of_eq (fun _ => rfl) (summary_compute (.map₂ (known_regQuad rs rfl (by simp))
      (known_regQuad rt rfl (by simp)) op.eval) (puts_setRegQuad rfl rfl))

/-! ## Blocks -/

namespace RegSet

theorem contains_insert (s : RegSet) (r x : GuestReg) :
    (s.insert r).contains x = true ↔ s.contains x = true ∨ x = r := by
  have hx : x.index < 34 := x.index_lt
  have bit : (1#34 <<< r.index).getLsbD x.index = decide (x = r) := by
    rw [BitVec.getLsbD_shiftLeft]
    by_cases e : x = r
    · simp [e, show r.index < 34 from r.index_lt]
    · have ne : x.index ≠ r.index := fun h => e (GuestReg.index_injective h)
      simp [e, hx]
      omega
  simp only [contains, insert, BitVec.getLsbD_or, bit, Bool.or_eq_true, decide_eq_true_eq]

theorem contains_foldl_insert (rs : List GuestReg) (s : RegSet) (x : GuestReg) :
    (rs.foldl insert s).contains x = true ↔ s.contains x = true ∨ x ∈ rs := by
  induction rs generalizing s with
  | nil => simp
  | cons r rs ih => rw [List.foldl_cons, ih, contains_insert, List.mem_cons, or_assoc]

end RegSet

/-- A register is clobbered if some instruction declares a change of it. -/
theorem Block.contains_clobbers (b : Block) (x : GuestReg) :
    b.clobbers.contains x = true ↔ ∃ i ∈ b.insns, x ∈ i.insn.uses.changes := by
  have fold (is : List DecodedInsn) (s : RegSet) :
      (is.foldl (fun s i => i.insn.uses.changes.foldl RegSet.insert s) s).contains x = true ↔
        s.contains x = true ∨ ∃ i ∈ is, x ∈ i.insn.uses.changes := by
    induction is generalizing s with
    | nil => simp
    | cons i is ih =>
      simp only [List.foldl_cons, ih, RegSet.contains_foldl_insert, or_assoc, List.mem_cons, exists_eq_or_imp]
  unfold clobbers
  rw [fold]
  simp [RegSet.empty, RegSet.contains]

theorem Confined.whole {s t : Cpu} (h : Confined u s t) {x : GuestReg} (hx : x ∉ u.changes) :
    t.whole x = s.whole x := by
  obtain ⟨hw, he⟩ : x ∉ u.writes ∧ x ∉ u.envWrites := by simpa [Uses.changes] using hx
  have low := h.low x hw he
  cases x with
  | gpr r =>
    show t.regQuad r = s.regQuad r
    rw [← joinHalves_halves (t.regQuad r), ← joinHalves_halves (s.regQuad r), h.high r he]
    exact congrArg (joinHalves _) low
  | hi => exact congrArg (BitVec.setWidth 128) low
  | lo => exact congrArg (BitVec.setWidth 128) low

/-- Instructions keep what none of them declares as changed. -/
theorem Guest.execAll_whole (is : List DecodedInsn) (g : Guest) {x : GuestReg}
    (hx : ∀ i ∈ is, x ∉ i.insn.uses.changes) : (g.execAll is).2.cpu.whole x = g.cpu.whole x := by
  induction is generalizing g with
  | nil => rfl
  | cons i is ih =>
    have step : (g.exec i).2.cpu.whole x = g.cpu.whole x :=
      ((exec_summary i).confined g).whole (hx i List.mem_cons_self)
    rw [execAll]
    generalize g.exec i = r at step ⊢
    obtain ⟨flow, h⟩ := r
    cases flow with
    | next => exact (ih h (fun j hj => hx j (List.mem_cons_of_mem i hj))).trans step
    | codeModified =>
      dsimp only
      split <;> exact step
    | fault | skipDelaySlot | redirect => exact step

/-- A block keeps every guest register outside its clobbers. -/
theorem Block.run_whole (b : Block) (g : Guest) {x : GuestReg} (hx : b.clobbers.contains x = false) :
    (b.run g).2.cpu.whole x = g.cpu.whole x := by
  have kept : ∀ i ∈ b.insns, x ∉ i.insn.uses.changes := by
    intro i hi hm
    rw [(b.contains_clobbers x).2 ⟨i, hi, hm⟩] at hx
    exact nomatch hx
  have insns : ((g.enter b).execAll b.insns).2.cpu.whole x = g.cpu.whole x :=
    Guest.execAll_whole b.insns (g.enter b) kept
  unfold Block.run
  generalize (g.enter b).execAll b.insns = r at insns ⊢
  obtain ⟨exit | exit, h⟩ := r
  · have leave : (h.leave b).2.cpu.whole x = h.cpu.whole x := by
      unfold Guest.leave
      split
      · rfl
      · split <;> rfl
    exact leave.trans insns
  · exact insns

/-- The declared register traffic is right. Every instruction changes declared writes only and depends
on declared reads only, and a block keeps what no instruction of it declares as changed. -/
theorem uses_sound :
    (∀ i : DecodedInsn, Summary i.insn.uses (fun g => g.exec i)) ∧
      ∀ (b : Block) (g : Guest) (x : GuestReg), b.clobbers.contains x = false →
        (b.run g).2.cpu.whole x = g.cpu.whole x :=
  ⟨exec_summary, fun b g _ hx => b.run_whole g hx⟩

/-- A product that goes to register 3, HI and LO, and a quadword load that faults. Register 4 stays. -/
theorem uses_sound_product :
    let b : Block :=
      { start := 0, stop := 8, terminator := .limit, pages := []
        insns := [⟨0, 0, .mulDiv .mult 3 1 2, false⟩, ⟨4, 0, .load .lq 2 3 0, false⟩] }
    let g : Guest := { cpu := Cpu.new.setReg 4 7, mem := .empty 4096 }
    b.clobbers.toList = [.gpr 2, .gpr 3, .hi, .lo] ∧ (b.run g).1 = .exception ∧
      (b.run g).2.cpu.whole (.gpr 4) = g.cpu.whole (.gpr 4) :=
  ⟨by decide, by decide +kernel, uses_sound.2 _ _ _ (by decide)⟩

end EmotionEngine
