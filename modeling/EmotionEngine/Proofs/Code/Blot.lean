import EmotionEngine.Proofs.Code.Calls

/-!
Host states that differ in register 0 of the guest alone. Code takes register 0 to be zero and leaves it where it is:
what reads it is a constant, and its home is never loaded or stored. So an instruction of the host that stays away
from that home does the same whatever is there, and so does a helper that does not read whole registers.

Main statements: instructions (`Insn.perform_blot`) and helpers (`Helper.call_blot`) that are blind to register 0.
-/

namespace EmotionEngine

open Host (Content)

/-! ## Register 0 -/

namespace Guest

/-- The guest with another low half in register 0. -/
def blot (g : Guest) (v : Dword) : Guest := g.withFile (Function.update g.cpu.file (.gpr 0) v)

@[simp] theorem blot_blot (g : Guest) (v w : Dword) : (g.blot v).blot w = g.blot w := by
  unfold blot
  rw [cpu_withFile, Cpu.file_withFile, withFile_withFile, Function.update_idem]

theorem blot_self (g : Guest) : g.blot (g.cpu.reg 0) = g := by
  unfold blot
  rw [show g.cpu.reg 0 = g.cpu.file (.gpr 0) from rfl, Function.update_eq_self, withFile_file]

theorem file_blot (g : Guest) (v : Dword) : (g.blot v).cpu.file = Function.update g.cpu.file (.gpr 0) v := by
  unfold blot
  rw [cpu_withFile, Cpu.file_withFile]

/-- An operation that neither reads nor writes guest values leaves register 0 as it is. -/
theorem Aloof.blot {α : Type} {op : Guest → α × Guest} (aloof : Aloof op) (g : Guest) (v : Dword) :
    op (g.blot v) = ((op g).1, (op g).2.blot v) := by
  unfold Guest.blot
  rw [aloof, file_of_aloof aloof]

end Guest

namespace Host

/-- The host with another low half in register 0 of the guest. -/
def State.blot (s : State) (v : Dword) : State := { s with guest := s.guest.blot v }

/-- A field other than register 0, whose high half no code touches. -/
def Clear (f : Field) : Prop := f ≠ .gpr 0 ∧ ∀ r, f ≠ .gprHigh r

namespace State

variable {s s' : State} {f : Field} (v w : Dword)

theorem value_blot (clear : Clear f) : (s.blot v).value f = s.value f := by
  cases f with
  | gpr r =>
    have other : GuestReg.gpr r ≠ .gpr 0 := by
      rintro ⟨⟩
      exact clear.1 rfl
    show (s.guest.blot v).cpu.file (.gpr r) = _
    rw [Guest.file_blot, Function.update_of_ne other]
    rfl
  | gprHigh r => exact absurd rfl (clear.2 r)
  | hi | lo | pc | fcr31 | fpr _ | cop0 _ | spill _ | excCode | excDelaySlot | faultPending => rfl

theorem setField_blot (clear : Clear f) : (s.blot v).setField f w = (s.setField f w).blot v := by
  have home (r : GuestReg) (other : r ≠ .gpr 0) :
      ((s.blot v).setField r.homeField w).guest = ((s.setField r.homeField w).blot v).guest := by
    show _ = Guest.blot _ v
    rw [guest_setField_home, guest_setField_home]
    unfold Guest.blot
    rw [Guest.cpu_withFile, Cpu.file_withFile, Guest.withFile_withFile]
    show (s.guest.blot v).withFile (Function.update (s.guest.blot v).cpu.file r w) = _
    rw [Guest.file_blot]
    unfold Guest.blot
    rw [Guest.withFile_withFile, Function.update_comm other]
  cases f with
  | gpr r =>
    have other : GuestReg.gpr r ≠ .gpr 0 := by
      rintro ⟨⟩
      exact clear.1 rfl
    exact congrArg (fun guest => { s with guest }) (home (.gpr r) other)
  | gprHigh r => exact absurd rfl (clear.2 r)
  | hi => exact congrArg (fun guest => { s with guest }) (home .hi nofun)
  | lo => exact congrArg (fun guest => { s with guest }) (home .lo nofun)
  | pc | fcr31 | fpr _ | cop0 _ | spill _ | excCode | excDelaySlot | faultPending => rfl

/-! ## Instructions -/

variable {v}

/-- A computation that goes on with what does not depend on register 0. -/
theorem bind_blot {α : Type} {x : Option α} {rest rest' : α → Option State}
    (go : ∀ a, x = some a → rest a = (rest' a).map (·.blot v)) : x >>= rest = (x >>= rest').map (·.blot v) := by
  cases x with
  | none => rfl
  | some a => exact go a rfl

variable (v)

theorem arith?_blot (op : ArithOp) (wide : Bool) (a b : Dword) :
    (s.blot v).arith? op wide a b = (s.arith? op wide a b).map fun r => (r.1, r.2.blot v) := by
  unfold arith?
  cases op.usesCarry with
  | false => rfl
  | true =>
    show (s.flags.map _ >>= _) = _
    cases s.flags <;> rfl

theorem arithReg?_blot (op : ArithOp) (wide : Bool) (dst : Reg) (b : Dword) :
    (s.blot v).arithReg? op wide dst b = (s.arithReg? op wide dst b).map (·.blot v) := by
  refine bind_blot (x := s.operand? wide dst) fun a _ => ?_
  rw [arith?_blot]
  cases s.arith? op wide a b with
  | none => rfl
  | some r =>
    show some _ = some _
    cases op.keeps <;> rfl

theorem shift?_blot (op : ShiftOp) (wide : Bool) (dst : Reg) (amount : Byte) :
    (s.blot v).shift? op wide dst amount = (s.shift? op wide dst amount).map (·.blot v) := by
  refine bind_blot (x := s.operand? wide dst) fun a _ => ?_
  show some _ = some _
  dsimp only
  split <;> rfl

end State

/-- A memory operand that is a field other than register 0. -/
def Reaches (wide : Bool) (base : Reg) (disp : Word) : Prop :=
  base = .env ∧ ∃ f : Field, f.wide = wide ∧ disp = Code.offset f.offset ∧ Clear f

/-- Instructions that neither read nor write register 0 in memory, and keep the base register. -/
def Insn.Blind : Insn → Prop
  | arith _ _ dst _ | arithImm _ _ dst _ | not _ dst | shiftImm _ _ dst _ | shiftCl _ _ dst | mov _ dst _
  | clear dst | movImm32 dst _ | movImmSigned dst _ | movImm64 dst _ | movHelper dst _ | extend _ dst _
  | imul _ dst _ | setcc _ dst | cmov _ _ dst _ => dst ≠ .env
  | test .. => True
  | load wide dst base disp => dst ≠ .env ∧ Reaches wide base disp
  | loadExtend _ dst base disp => dst ≠ .env ∧ Reaches false base disp
  | store wide _ base disp => Reaches wide base disp
  | storeImm base disp _ | arithMemImm _ base disp _ | testMemImm base disp _ => Reaches false base disp
  | push _ | pop _ | call _ | ret | jcc .. | jmp _ => False

namespace Insn

section

variable (op : ArithOp) (x : ShiftOp) (e : Extend) (c : Cond) (wide : Bool) (dst src base : Reg) (imm disp : Word)

@[simp] theorem blind_arith : (arith op wide dst src).Blind ↔ dst ≠ .env := .rfl

@[simp] theorem blind_arithImm : (arithImm op wide dst imm).Blind ↔ dst ≠ .env := .rfl

@[simp] theorem blind_arithMemImm : (arithMemImm op base disp imm).Blind ↔ Reaches false base disp := .rfl

@[simp] theorem blind_not : (not wide dst).Blind ↔ dst ≠ .env := .rfl

@[simp] theorem blind_shiftImm (amount : Byte) : (shiftImm x wide dst amount).Blind ↔ dst ≠ .env := .rfl

@[simp] theorem blind_shiftCl : (shiftCl x wide dst).Blind ↔ dst ≠ .env := .rfl

@[simp] theorem blind_mov : (mov wide dst src).Blind ↔ dst ≠ .env := .rfl

@[simp] theorem blind_clear : (clear dst).Blind ↔ dst ≠ .env := .rfl

@[simp] theorem blind_movImm32 : (movImm32 dst imm).Blind ↔ dst ≠ .env := .rfl

@[simp] theorem blind_extend : (extend e dst src).Blind ↔ dst ≠ .env := .rfl

@[simp] theorem blind_imul : (imul wide dst src).Blind ↔ dst ≠ .env := .rfl

@[simp] theorem blind_setcc : (setcc c dst).Blind ↔ dst ≠ .env := .rfl

@[simp] theorem blind_cmov : (cmov c wide dst src).Blind ↔ dst ≠ .env := .rfl

@[simp] theorem blind_test : (test wide dst src).Blind ↔ True := .rfl

@[simp] theorem blind_testMemImm : (testMemImm base disp imm).Blind ↔ Reaches false base disp := .rfl

@[simp] theorem blind_load : (load wide dst base disp).Blind ↔ dst ≠ .env ∧ Reaches wide base disp := .rfl

@[simp] theorem blind_loadExtend :
    (loadExtend e dst base disp).Blind ↔ dst ≠ .env ∧ Reaches false base disp := .rfl

@[simp] theorem blind_store : (store wide src base disp).Blind ↔ Reaches wide base disp := .rfl

@[simp] theorem blind_storeImm : (storeImm base disp imm).Blind ↔ Reaches false base disp := .rfl

@[simp] theorem blind_movImm (v : Dword) : (movImm wide dst v).Blind ↔ dst ≠ .env := by
  unfold movImm
  split
  · rfl
  · split
    · rfl
    · split <;> rfl

end

variable {i : Insn} {s s' : State} {v : Dword}

theorem field_blot {wide : Bool} {base : Reg} {disp : Word} (he : s.get .env = .dword s.base)
    (reaches : Reaches wide base disp) {rest rest' : Field → Option State}
    (go : ∀ f, Clear f → rest f = (rest' f).map (·.blot v)) :
    (s.field? wide base disp >>= rest) = (s.field? wide base disp >>= rest').map (·.blot v) := by
  obtain ⟨rfl, f, rfl, rfl, clear⟩ := reaches
  refine State.bind_blot fun f' found => ?_
  obtain rfl := Option.some.inj ((field?_offset he f).symm.trans found)
  exact go f clear

theorem perform_blot (blind : i.Blind) (he : s.get .env = .dword s.base) :
    i.perform (s.blot v) = (i.perform s).map (·.blot v) := by
  cases i with
  | arith op wide dst src =>
    exact State.bind_blot (x := s.operand? wide src) fun b _ => State.arithReg?_blot v op wide dst b
  | arithImm op wide dst imm => exact State.arithReg?_blot v op wide dst _
  | arithMemImm op base disp imm =>
    refine field_blot he blind fun f clear => ?_
    dsimp only
    rw [State.value_blot v clear, State.arith?_blot]
    cases s.arith? op false (s.value f) (sextWord imm) with
    | none => rfl
    | some r =>
      cases keeps : op.keeps with
      | false => simp
      | true => simp [State.setField_blot v _ clear]
  | not wide dst => exact State.bind_blot (x := s.operand? wide dst) fun _ _ => rfl
  | shiftImm op wide dst amount => exact State.shift?_blot v op wide dst amount
  | shiftCl op wide dst =>
    exact State.bind_blot (x := s.operand? false .rcx) fun c _ => State.shift?_blot v op wide dst _
  | mov wide dst src => exact State.bind_blot (x := s.operand? wide src) fun _ _ => rfl
  | extend x dst src => exact State.bind_blot (x := (s.get src).word?) fun _ _ => rfl
  | load wide dst base disp =>
    refine field_blot he blind.2 fun f clear => ?_
    show some ((s.blot v).set dst ((s.blot v).value f)) = _
    rw [State.value_blot v clear]
    rfl
  | loadExtend x dst base disp =>
    cases x with
    | signWord =>
      refine field_blot he blind.2 fun f clear => ?_
      show some ((s.blot v).set dst (Extend.signWord.apply (((s.blot v).value f).setWidth 32))) = _
      rw [State.value_blot v clear]
      rfl
    | zeroByte | signByte | signHalf => rfl
  | store wide src base disp =>
    refine State.bind_blot (x := s.operand? wide src) fun w _ => ?_
    exact field_blot he blind fun f clear => congrArg some (State.setField_blot v w clear)
  | storeImm base disp imm =>
    exact field_blot he blind fun f clear => congrArg some (State.setField_blot v _ clear)
  | imul wide dst src =>
    exact State.bind_blot (x := s.operand? wide dst) fun _ _ =>
      State.bind_blot (x := s.operand? wide src) fun _ _ => rfl
  | setcc c dst =>
    exact State.bind_blot (x := s.operand? true dst) fun _ _ => State.bind_blot (x := s.holds? c) fun _ _ => rfl
  | cmov c wide dst src =>
    exact State.bind_blot (x := s.operand? wide dst) fun _ _ =>
      State.bind_blot (x := s.operand? wide src) fun _ _ => State.bind_blot (x := s.holds? c) fun _ _ => rfl
  | test wide a b =>
    exact State.bind_blot (x := s.operand? wide a) fun _ _ =>
      State.bind_blot (x := s.operand? wide b) fun _ _ => rfl
  | testMemImm base disp imm =>
    refine field_blot he blind fun f clear => ?_
    show some ((s.blot v).testFlags false ((s.blot v).value f) _) = _
    rw [State.value_blot v clear]
    rfl
  | clear | movImm32 | movImmSigned | movImm64 | movHelper => rfl
  | push | pop | call | ret | jcc | jmp => exact blind.elim

/-- The base register of a state, and where the processor state is. -/
structure Anchored (s s' : State) : Prop where
  env : s'.get .env = s.get .env
  base : s'.base = s.base

theorem Anchored.set {dst : Reg} (other : dst ≠ .env) (w : Dword) : Anchored s (s.set dst w) :=
  ⟨State.get_set_of_ne s w other.symm, rfl⟩

theorem Anchored.setField (f : Field) (w : Dword) : Anchored s (s.setField f w) :=
  ⟨s.get_setField f w .env, s.base_setField f w⟩

theorem Anchored.trans {s'' : State} (h : Anchored s s') (h' : Anchored s' s'') : Anchored s s'' :=
  ⟨h'.env.trans h.env, h'.base.trans h.base⟩

theorem anchored_arith? {op : ArithOp} {wide : Bool} {a b : Dword} {r : Dword × State}
    (e : s.arith? op wide a b = some r) : Anchored s r.2 := by
  unfold State.arith? at e
  cases uses : op.usesCarry with
  | false =>
    rw [uses] at e
    obtain rfl := Option.some.inj e
    exact ⟨rfl, rfl⟩
  | true =>
    rw [uses] at e
    obtain ⟨carry, -, e⟩ := Option.bind_eq_some_iff.1 e
    obtain rfl := Option.some.inj e
    exact ⟨rfl, rfl⟩

theorem anchored_arithReg? {op : ArithOp} {wide : Bool} {dst : Reg} {b : Dword} (other : dst ≠ .env)
    (e : s.arithReg? op wide dst b = some s') : Anchored s s' := by
  obtain ⟨a, -, e⟩ := Option.bind_eq_some_iff.1 e
  obtain ⟨r, computed, e⟩ := Option.bind_eq_some_iff.1 e
  obtain rfl := Option.some.inj e
  have first := anchored_arith? computed
  cases op.keeps with
  | false => exact first
  | true => exact first.trans (.set other r.1)

theorem anchored_shift? {op : ShiftOp} {wide : Bool} {dst : Reg} {amount : Byte} (other : dst ≠ .env)
    (e : s.shift? op wide dst amount = some s') : Anchored s s' := by
  obtain ⟨a, -, e⟩ := Option.bind_eq_some_iff.1 e
  obtain rfl := Option.some.inj e
  by_cases nothing : ShiftOp.places wide amount = 0
  · rw [if_pos nothing]
    exact .set other _
  · rw [if_neg nothing]
    exact ⟨State.get_set_of_ne _ _ other.symm, rfl⟩

theorem perform_anchored (blind : i.Blind) (e : i.perform s = some s') : Anchored s s' := by
  cases i with
  | arith op wide dst src =>
    obtain ⟨b, -, e⟩ := Option.bind_eq_some_iff.1 e
    exact anchored_arithReg? blind e
  | arithImm op wide dst imm => exact anchored_arithReg? blind e
  | arithMemImm op base disp imm =>
    obtain ⟨f, -, e⟩ := Option.bind_eq_some_iff.1 e
    obtain ⟨r, computed, e⟩ := Option.bind_eq_some_iff.1 e
    obtain rfl := Option.some.inj e
    have first := anchored_arith? computed
    cases op.keeps with
    | false => exact first
    | true => exact first.trans (.setField f r.1)
  | shiftImm op wide dst amount => exact anchored_shift? blind e
  | shiftCl op wide dst =>
    obtain ⟨c, -, e⟩ := Option.bind_eq_some_iff.1 e
    exact anchored_shift? blind e
  | not _ _ | mov _ _ _ | extend _ _ _ =>
    obtain ⟨a, -, e⟩ := Option.bind_eq_some_iff.1 e
    cases Option.some.inj e
    exact .set blind _
  | imul wide dst src | setcc c dst =>
    obtain ⟨a, -, e⟩ := Option.bind_eq_some_iff.1 e
    obtain ⟨b, -, e⟩ := Option.bind_eq_some_iff.1 e
    cases Option.some.inj e
    exact ⟨State.get_set_of_ne _ _ (Ne.symm blind), rfl⟩
  | cmov c wide dst src =>
    obtain ⟨a, -, e⟩ := Option.bind_eq_some_iff.1 e
    obtain ⟨b, -, e⟩ := Option.bind_eq_some_iff.1 e
    obtain ⟨holds, -, e⟩ := Option.bind_eq_some_iff.1 e
    cases Option.some.inj e
    exact .set blind _
  | load wide dst base disp =>
    obtain ⟨f, -, e⟩ := Option.bind_eq_some_iff.1 e
    cases Option.some.inj e
    exact .set blind.1 _
  | loadExtend x dst base disp =>
    cases x with
    | signWord =>
      obtain ⟨f, -, e⟩ := Option.bind_eq_some_iff.1 e
      cases Option.some.inj e
      exact .set blind.1 _
    | zeroByte | signByte | signHalf => cases e
  | store wide src base disp =>
    obtain ⟨w, -, e⟩ := Option.bind_eq_some_iff.1 e
    obtain ⟨f, -, e⟩ := Option.bind_eq_some_iff.1 e
    cases Option.some.inj e
    exact .setField f w
  | storeImm base disp imm =>
    obtain ⟨f, -, e⟩ := Option.bind_eq_some_iff.1 e
    cases Option.some.inj e
    exact .setField f _
  | test wide a b =>
    obtain ⟨x, -, e⟩ := Option.bind_eq_some_iff.1 e
    obtain ⟨y, -, e⟩ := Option.bind_eq_some_iff.1 e
    cases Option.some.inj e
    exact ⟨rfl, rfl⟩
  | testMemImm base disp imm =>
    obtain ⟨f, -, e⟩ := Option.bind_eq_some_iff.1 e
    cases Option.some.inj e
    exact ⟨rfl, rfl⟩
  | clear | movImm32 | movImmSigned | movImm64 | movHelper =>
    cases Option.some.inj e
    exact ⟨State.get_set_of_ne _ _ (Ne.symm blind), rfl⟩
  | push | pop | call | ret | jcc | jmp => exact blind.elim

end Insn

/-! ## Helpers -/

end Host

theorem Guest.setRegQuad_blot (g : Guest) (v : Dword) (r : RegNum) (q : Quad) :
    ({ g.blot v with cpu := (g.blot v).cpu.setRegQuad r q } : Guest) =
      Guest.blot { g with cpu := g.cpu.setRegQuad r q } v := by
  by_cases zero : r = 0
  · subst zero
    rfl
  · have file : (g.cpu.setRegQuad r q).file = Function.update g.cpu.file (.gpr r) (lowHalf q) := by
      funext x
      rw [Cpu.file_setRegQuad, Function.update_apply]
      simp only [zero, ne_eq, not_false_eq_true, and_true]
    have other : GuestReg.gpr r ≠ .gpr 0 := by
      rintro ⟨⟩
      exact zero rfl
    unfold blot Guest.withFile
    dsimp only
    rw [Cpu.setRegQuad_withFile _ zero, file, Function.update_comm other]

namespace Host

/-- Helpers that do not read whole registers in memory. -/
def Helper.Blind (x : Helper) : Prop := x ≠ .store .quad ∧ x ≠ .mmi

namespace Helper

variable {x : Helper} {s s' : State} {v : Dword}

theorem guest_blot {rest rest' : Guest → Option State}
    (go : ∀ g, rest (g.blot v) = (rest' g).map (·.blot v)) :
    ((s.blot v).guestArg? >>= rest) = (s.guestArg? >>= rest').map (·.blot v) := by
  unfold State.guestArg?
  show ((if s.dwordArg? 0 = some s.base then some (s.guest.blot v) else none) >>= rest) = _
  split
  · exact go s.guest
  · rfl

theorem call_blot (blind : x.Blind) : x.call (s.blot v) = (x.call s).map (·.blot v) := by
  have aloof {α : Type} {op : Guest → α × Guest} (h : Guest.Aloof op) (g : Guest) (c : α → Content) :
      some ((s.blot v).back (op (g.blot v)).2 (c (op (g.blot v)).1)) =
        (some (s.back (op g).2 (c (op g).1))).map (·.blot v) := by
    rw [h.blot]
    rfl
  cases x with
  | load w =>
    cases w with
    | quad =>
      refine guest_blot fun g => State.bind_blot (x := s.wordArg? 1) fun a _ =>
        State.bind_blot (x := s.regArg? 2) fun rt _ => ?_
      rw [Guest.Aloof.blot (Guest.aloof_load .quad a)]
      generalize g.load .quad a = r
      obtain ⟨_ | q, g⟩ := r
      · rfl
      · exact congrArg (fun g => some ((s.blot v).back g .unknown)) (g.setRegQuad_blot v rt q)
    | byte | half | word | dword =>
      exact guest_blot fun g => State.bind_blot (x := s.wordArg? 1) fun a _ =>
        aloof (Guest.aloof_load _ a) g fun q => .dword ((q.getD 0).setWidth 64)
  | store w =>
    cases w with
    | quad => exact absurd rfl blind.1
    | byte | half | word | dword =>
      exact guest_blot fun g => State.bind_blot (x := s.wordArg? 1) fun a _ =>
        State.bind_blot (x := s.dwordArg? 2) fun q _ =>
          aloof (Guest.aloof_store _ a _) g fun status => .word (BitVec.ofNat 32 status.toNat)
  | div | divu =>
    exact State.bind_blot (x := s.dwordArg? 0) fun _ _ => State.bind_blot (x := s.dwordArg? 1) fun _ _ => rfl
  | mfc0 =>
    exact guest_blot fun g => State.bind_blot (x := s.regArg? 1) fun rd _ =>
      aloof (Guest.aloof_onCpu (Cpu.aloof_mfc0 rd)) g fun w => .dword ((w.getD 0).setWidth 64)
  | mtc0 =>
    exact guest_blot fun g => State.bind_blot (x := s.regArg? 1) fun rd _ =>
      State.bind_blot (x := s.dwordArg? 2) fun w _ =>
        aloof (Guest.aloof_onCpu (Cpu.aloof_mtc0 rd _)) g done
  | eret => exact guest_blot fun g => aloof (Guest.aloof_onCpu Cpu.aloof_eret) g done
  | setEie =>
    exact guest_blot fun g => State.bind_blot (x := s.wordArg? 1) fun enable _ =>
      aloof (Guest.aloof_onCpu (Cpu.aloof_setEie (enable != 0))) g done
  | fpuArith =>
    exact guest_blot fun g => State.bind_blot (x := (s.wordArg? 1).bind _) fun op _ =>
      State.bind_blot (x := s.regArg? 2) fun fd _ => State.bind_blot (x := s.regArg? 3) fun fs _ =>
        State.bind_blot (x := s.regArg? 4) fun ft _ =>
          aloof (Guest.aloof_onCpu (Cpu.aloof_fpuArith op fd fs ft)) g fun _ => .unknown
  | fpuCompare =>
    exact guest_blot fun g => State.bind_blot (x := (s.wordArg? 1).bind _) fun cond _ =>
      State.bind_blot (x := s.regArg? 2) fun fs _ => State.bind_blot (x := s.regArg? 3) fun ft _ =>
        aloof (Guest.aloof_onCpu (Cpu.aloof_fpuCompare cond fs ft)) g fun _ => .unknown
  | mmi => exact absurd rfl blind.2

theorem call_back (e : x.call s = some s') : ∃ g c, s' = s.back g c := by
  have bind {α : Type} {y : Option α} {rest : α → Option State} (e : y >>= rest = some s')
      (go : ∀ a, rest a = some s' → ∃ g c, s' = s.back g c) : ∃ g c, s' = s.back g c := by
    obtain ⟨a, -, e⟩ := Option.bind_eq_some_iff.1 e
    exact go a e
  have back {g : Guest} {c : Content} (e : some (s.back g c) = some s') : ∃ g c, s' = s.back g c :=
    ⟨g, c, (Option.some.inj e).symm⟩
  cases x with
  | load w =>
    cases w with
    | quad =>
      refine bind e fun g e => bind e fun a e => bind e fun rt e => ?_
      generalize g.load .quad a = r at e
      obtain ⟨_ | q, g⟩ := r
      · exact back e
      · exact back e
    | byte | half | word | dword => exact bind e fun _ e => bind e fun _ e => back e
  | store w =>
    cases w with
    | quad => exact bind e fun _ e => bind e fun _ e => bind e fun _ e => back e
    | byte | half | word | dword => exact bind e fun _ e => bind e fun _ e => bind e fun _ e => back e
  | div | divu => exact bind e fun _ e => bind e fun _ e => back e
  | eret => exact bind e fun _ e => back e
  | mfc0 | setEie => exact bind e fun _ e => bind e fun _ e => back e
  | mtc0 => exact bind e fun _ e => bind e fun _ e => bind e fun _ e => back e
  | fpuCompare => exact bind e fun _ e => bind e fun _ e => bind e fun _ e => bind e fun _ e => back e
  | fpuArith | mmi =>
    exact bind e fun _ e => bind e fun _ e => bind e fun _ e => bind e fun _ e => bind e fun _ e => back e

theorem call_anchored (e : x.call s = some s') : Insn.Anchored s s' := by
  obtain ⟨g, c, rfl⟩ := call_back e
  exact ⟨s.get_back_of_saved g c (by decide), s.base_back g c⟩

end Helper

end Host

end EmotionEngine
