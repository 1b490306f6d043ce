import EmotionEngine.Host.Run

/-!
What host instructions do when their operands are known. Compiled code works in registers that calls do
not preserve and leaves the rest of the host alone; `Keeps` says so, and the lemmas about single
instructions give the state after each of them as a register that was set and flags that may have
changed.

Main statements: a memory operand at the offset of a field is that field (`field?_offset`), and the
conditions after an addition or subtraction tell whether it overflowed (`holds_o_add`, `holds_o_sub`).
-/

namespace EmotionEngine.Host

namespace State

variable {s s' s'' : State} {r r' : Reg} {v : Dword}

theorem get_set (s : State) (r r' : Reg) (v : Dword) :
    (s.set r v).get r' = if r' = r then .dword v else s.get r' :=
  get_put s r r' (.dword v)

@[simp] theorem get_set_self (s : State) (r : Reg) (v : Dword) : (s.set r v).get r = .dword v :=
  get_put_self s r (.dword v)

theorem get_set_of_ne (s : State) (v : Dword) (h : r' ≠ r) : (s.set r v).get r' = s.get r' := by
  rw [get_set, if_neg h]

@[simp] theorem guest_set (s : State) (r : Reg) (v : Dword) : (s.set r v).guest = s.guest := rfl

@[simp] theorem base_set (s : State) (r : Reg) (v : Dword) : (s.set r v).base = s.base := rfl

@[simp] theorem spill_set (s : State) (r : Reg) (v : Dword) : (s.set r v).spill = s.spill := rfl

def withFlags (s : State) (f : Option Flags) : State := { s with flags := f }

@[simp] theorem get_withFlags (s : State) (f : Option Flags) (r : Reg) :
    (s.withFlags f).get r = s.get r := rfl

@[simp] theorem guest_withFlags (s : State) (f : Option Flags) : (s.withFlags f).guest = s.guest := rfl

@[simp] theorem base_withFlags (s : State) (f : Option Flags) : (s.withFlags f).base = s.base := rfl

@[simp] theorem spill_withFlags (s : State) (f : Option Flags) : (s.withFlags f).spill = s.spill := rfl

theorem holds?_withFlags (s : State) (f : Flags) (c : Cond) :
    (s.withFlags (some f)).holds? c = some (c.holds f) := rfl

end State

/-- Two states that differ at most in flags and in registers that a call does not preserve. -/
structure Keeps (s s' : State) : Prop where
  guest : s'.guest = s.guest
  base : s'.base = s.base
  spill : s'.spill = s.spill
  saved : ∀ r ∈ Reg.calleeSaved, s'.get r = s.get r

namespace Keeps

variable {s s' s'' : State}

theorem refl (s : State) : Keeps s s := ⟨rfl, rfl, rfl, fun _ _ => rfl⟩

theorem trans (h : Keeps s s') (h' : Keeps s' s'') : Keeps s s'' :=
  ⟨h'.guest.trans h.guest, h'.base.trans h.base, h'.spill.trans h.spill,
    fun r hr => (h'.saved r hr).trans (h.saved r hr)⟩

theorem set (h : Keeps s s') {r : Reg} (hr : r ∉ Reg.calleeSaved) (v : Dword) :
    Keeps s (s'.set r v) := by
  refine ⟨h.guest, h.base, h.spill, ?_⟩
  intro x hx
  have ne : x ≠ r := by
    rintro rfl
    exact hr hx
  rw [State.get_set_of_ne s' v ne]
  exact h.saved x hx

theorem withFlags (h : Keeps s s') (f : Option Flags) : Keeps s (s'.withFlags f) :=
  ⟨h.guest, h.base, h.spill, h.saved⟩

end Keeps

/-! ## Fields -/

/-- A displacement from the base register that is the offset of a field names the field. -/
theorem field?_offset {s : State} (he : s.get .env = .dword s.base) (f : Field) :
    s.field? f.wide .env (BitVec.ofNat 32 f.offset) = some f := by
  have small := f.offset_lt
  have disp : sextWord (BitVec.ofNat 32 f.offset) = BitVec.ofNat 64 f.offset := by
    apply BitVec.eq_of_toInt_eq
    rw [sextWord, BitVec.toInt_signExtend_of_le (by decide), BitVec.toInt_ofNat', BitVec.toInt_ofNat']
    simp only [Int.bmod]
    omega
  have dist : (s.base + sextWord (BitVec.ofNat 32 f.offset) - s.base).toNat = f.offset := by
    rw [disp, BitVec.add_comm, BitVec.add_sub_cancel, BitVec.toNat_ofNat]
    omega
  unfold State.field?
  rw [he]
  dsimp only [Content.dword?]
  rw [dist, Field.ofOffset?_offset]
  exact if_pos rfl

theorem field?_word {s : State} (he : s.get .env = .dword s.base) {f : Field} (hw : f.wide = false) :
    s.field? false .env (BitVec.ofNat 32 f.offset) = some f := by
  have h := field?_offset he f
  rwa [hw] at h

/-! ## Conditions -/

theorem holds_o_add {n : Nat} (a b : BitVec n) :
    Cond.o.holds (ArithOp.add.eval false a b).2 = a.saddOverflow b := by
  rw [BitVec.saddOverflow_eq]
  simp only [Cond.holds, ArithOp.eval, addFlags, Flags.ofResult, Bool.toNat_false, BitVec.ofNat_eq_ofNat,
    BitVec.add_zero]
  rfl

theorem holds_o_sub {n : Nat} (a b : BitVec n) :
    Cond.o.holds (ArithOp.sub.eval false a b).2 = a.ssubOverflow b := by
  rw [BitVec.ssubOverflow_eq]
  simp only [Cond.holds, ArithOp.eval, subFlags, Flags.ofResult, Bool.toNat_false, BitVec.ofNat_eq_ofNat,
    BitVec.sub_zero]
  cases a.msb <;> cases b.msb <;> cases (a - b).msb <;> rfl

theorem holds_e_test {n : Nat} (a b : BitVec n) :
    Cond.e.holds (ArithOp.and.eval false a b).2 = (a &&& b == 0) := rfl

/-! ## Moves and constants -/

namespace Insn

variable {s : State} {dst src : Reg} {a b v : Dword}

theorem perform_mov (h : s.get src = .dword v) : (mov true dst src).perform s = some (s.set dst v) := by
  show s.move? true dst src = _
  unfold State.move? State.operand?
  rw [h]
  rfl

theorem perform_movLow (h : s.get src = .dword v) :
    (mov false dst src).perform s = some (s.set dst ((v.setWidth 32).setWidth 64)) := by
  show s.move? false dst src = _
  unfold State.move? State.operand?
  rw [h]
  rfl

theorem perform_clear (s : State) (dst : Reg) :
    ∃ f, (clear dst).perform s = some ((s.withFlags f).set dst 0) := ⟨_, rfl⟩

/-- A constant is put into a register in whichever form; only zero costs the flags. -/
theorem perform_movImm (s : State) (dst : Reg) (v : Dword) :
    ∃ f, (movImm true dst v).perform s = some ((s.withFlags f).set dst v) := by
  unfold movImm
  by_cases h0 : v = 0
  · rw [if_pos h0, h0]
    exact perform_clear s dst
  rw [if_neg h0]
  by_cases h1 : (!true || decide (v.toNat < twoPow 32)) = true
  · rw [if_pos h1]
    have small : v.toNat < 4294967296 := by simpa using h1
    have e : (v.setWidth 32).setWidth 64 = v := by
      apply BitVec.eq_of_toNat_eq
      simp only [BitVec.toNat_setWidth]
      omega
    exact ⟨s.flags, by rw [perform, e]; rfl⟩
  rw [if_neg h1]
  by_cases h2 : (v.setWidth 32).signExtend 64 = v
  · rw [if_pos h2]
    exact ⟨s.flags, by rw [perform, sextWord, h2]; rfl⟩
  · rw [if_neg h2]
    exact ⟨s.flags, rfl⟩

theorem perform_extend (x : Extend) (h : s.get src = .dword v) :
    (extend x dst src).perform s = some (s.set dst (x.apply (v.setWidth 32))) := by
  show ((s.get src).word?.bind _) = _
  rw [h]
  rfl

theorem perform_not (h : s.get dst = .dword v) : (not true dst).perform s = some (s.set dst (~~~v)) := by
  show ((s.get dst).operand? true).bind _ = _
  rw [h]
  rfl

/-! ## Arithmetic -/

theorem arith?_eq {op : ArithOp} (hc : op.usesCarry = false) (s : State) (wide : Bool) (a b : Dword) :
    s.arith? op wide a b =
      some ((op.apply wide false a b).1, s.withFlags (some (op.apply wide false a b).2)) := by
  unfold State.arith?
  rw [hc]
  rfl

theorem operand?_dword (wide : Bool) (v : Dword) :
    (Content.dword v).operand? wide = some (if wide then v else (v.setWidth 32).setWidth 64) := by
  cases wide <;> rfl

theorem setWidth_low (v : Dword) :
    ((v.setWidth 32 : Word).setWidth 64 : Dword).setWidth 32 = (v.setWidth 32 : Word) := by
  apply BitVec.eq_of_toNat_eq
  simp only [BitVec.toNat_setWidth]
  omega

theorem setWidth_setWidth (w : Word) : ((w.setWidth 64 : Dword).setWidth 32 : Word) = w := by
  apply BitVec.eq_of_toNat_eq
  simp only [BitVec.toNat_setWidth]
  omega

/-- Of a first operand of 32 bits only the low half counts. -/
theorem apply_operand_left (op : ArithOp) (wide : Bool) (a b : Dword) :
    op.apply wide false (if wide then a else (a.setWidth 32).setWidth 64) b = op.apply wide false a b := by
  cases wide with
  | true => rfl
  | false => simp only [ArithOp.apply, setWidth_low, Bool.false_eq_true, if_false]

/-- Of a second operand of 32 bits only the low half counts. -/
theorem apply_operand_right (op : ArithOp) (wide : Bool) (a b : Dword) :
    op.apply wide false a (if wide then b else (b.setWidth 32).setWidth 64) = op.apply wide false a b := by
  cases wide with
  | true => rfl
  | false => simp only [ArithOp.apply, setWidth_low, Bool.false_eq_true, if_false]

/-! What the operations give that may overflow, on words and on doublewords. -/

theorem apply_add_word (a b : Dword) :
    ∃ f, ArithOp.add.apply false false a b = ((a.setWidth 32 + b.setWidth 32 : Word).setWidth 64, f) ∧
      f.overflow = (a.setWidth 32 : Word).saddOverflow (b.setWidth 32) := by
  refine ⟨(ArithOp.add.eval false (a.setWidth 32 : Word) (b.setWidth 32)).2, ?_, holds_o_add _ _⟩
  simp [ArithOp.apply, ArithOp.eval, addFlags]

theorem apply_sub_word (a b : Dword) :
    ∃ f, ArithOp.sub.apply false false a b = ((a.setWidth 32 - b.setWidth 32 : Word).setWidth 64, f) ∧
      f.overflow = (a.setWidth 32 : Word).ssubOverflow (b.setWidth 32) := by
  refine ⟨(ArithOp.sub.eval false (a.setWidth 32 : Word) (b.setWidth 32)).2, ?_, holds_o_sub _ _⟩
  simp [ArithOp.apply, ArithOp.eval, subFlags]

theorem apply_add_dword (a b : Dword) :
    ∃ f, ArithOp.add.apply true false a b = (a + b, f) ∧ f.overflow = a.saddOverflow b := by
  refine ⟨(ArithOp.add.eval false a b).2, ?_, holds_o_add _ _⟩
  simp [ArithOp.apply, ArithOp.eval, addFlags]

theorem apply_sub_dword (a b : Dword) :
    ∃ f, ArithOp.sub.apply true false a b = (a - b, f) ∧ f.overflow = a.ssubOverflow b := by
  refine ⟨(ArithOp.sub.eval false a b).2, ?_, holds_o_sub _ _⟩
  simp [ArithOp.apply, ArithOp.eval, subFlags]

/-- Arithmetic on a known register that keeps the result. -/
theorem arithReg?_keeps {op : ArithOp} (hc : op.usesCarry = false) (hk : op.keeps = true) (wide : Bool)
    (ha : s.get dst = .dword a) (b : Dword) :
    s.arithReg? op wide dst b =
      some ((s.withFlags (some (op.apply wide false a b).2)).set dst (op.apply wide false a b).1) := by
  show ((s.get dst).operand? wide).bind (fun a =>
    (s.arith? op wide a b).bind (fun x => some (if op.keeps then x.2.set dst x.1 else x.2))) = _
  rw [ha, operand?_dword, Option.bind_some, arith?_eq hc, apply_operand_left, Option.bind_some, if_pos hk]

theorem perform_arith {op : ArithOp} (hc : op.usesCarry = false) (hk : op.keeps = true) (wide : Bool)
    (ha : s.get dst = .dword a) (hb : s.get src = .dword b) :
    (arith op wide dst src).perform s =
      some ((s.withFlags (some (op.apply wide false a b).2)).set dst (op.apply wide false a b).1) := by
  show ((s.get src).operand? wide).bind (s.arithReg? op wide dst) = _
  rw [hb, operand?_dword, Option.bind_some, arithReg?_keeps hc hk wide ha, apply_operand_right]

theorem perform_arithImm {op : ArithOp} (hc : op.usesCarry = false) (hk : op.keeps = true) (wide : Bool)
    (ha : s.get dst = .dword a) (imm : Word) :
    (arithImm op wide dst imm).perform s =
      some ((s.withFlags (some (op.apply wide false a (sextWord imm)).2)).set dst
        (op.apply wide false a (sextWord imm)).1) :=
  arithReg?_keeps hc hk wide ha (sextWord imm)

theorem perform_cmp (ha : s.get dst = .dword a) (hb : s.get src = .dword b) :
    (arith .cmp true dst src).perform s = some (s.withFlags (some (ArithOp.cmp.eval false a b).2)) := by
  show ((s.get src).operand? true).bind (fun b => ((s.get dst).operand? true).bind (fun a =>
    (s.arith? .cmp true a b).bind (fun x => some (if ArithOp.cmp.keeps then x.2.set dst x.1 else x.2)))) = _
  rw [ha, hb]
  rfl

theorem perform_cmpImm (ha : s.get dst = .dword a) (imm : Word) :
    (arithImm .cmp true dst imm).perform s =
      some (s.withFlags (some (ArithOp.cmp.eval false a (sextWord imm)).2)) := by
  show ((s.get dst).operand? true).bind (fun a => (s.arith? .cmp true a (sextWord imm)).bind
    (fun x => some (if ArithOp.cmp.keeps then x.2.set dst x.1 else x.2))) = _
  rw [ha]
  rfl

theorem setWidth_sextWord (w : Word) : (sextWord w).setWidth 32 = w := by
  apply BitVec.eq_of_getLsbD_eq
  intro i hi
  have hi' : i < 64 := by omega
  rw [sextWord, BitVec.getLsbD_setWidth, BitVec.getLsbD_signExtend]
  simp only [hi, hi', decide_true, Bool.true_and, if_true]

theorem perform_cmpImm_word {w : Word} (ha : s.get dst = .word w) (imm : Word) :
    (arithImm .cmp false dst imm).perform s =
      some (s.withFlags (some (ArithOp.cmp.eval false w imm).2)) := by
  show ((s.get dst).operand? false).bind (fun a => (s.arith? .cmp false a (sextWord imm)).bind
    (fun x => some (if ArithOp.cmp.keeps then x.2.set dst x.1 else x.2))) = _
  rw [ha]
  show some (s.withFlags (some (ArithOp.cmp.eval false ((w.setWidth 64 : Dword).setWidth 32 : Word)
    ((sextWord imm).setWidth 32)).2)) = _
  rw [setWidth_setWidth, setWidth_sextWord]

theorem perform_test_word {w : Word} (ha : s.get dst = .word w) :
    (test false dst dst).perform s = some (s.withFlags (some (ArithOp.and.eval false w w).2)) := by
  show ((s.get dst).operand? false).bind (fun x => ((s.get dst).operand? false).bind
    (fun y => some (s.testFlags false x y))) = _
  rw [ha]
  show some (s.withFlags (some (ArithOp.and.eval false ((w.setWidth 64 : Dword).setWidth 32 : Word)
    ((w.setWidth 64 : Dword).setWidth 32)).2)) = _
  rw [setWidth_setWidth]

theorem perform_test (ha : s.get dst = .dword a) :
    (test true dst dst).perform s = some (s.withFlags (some (ArithOp.and.eval false a a).2)) := by
  show ((s.get dst).operand? true).bind (fun x => ((s.get dst).operand? true).bind
    (fun y => some (s.testFlags true x y))) = _
  rw [ha]
  rfl

theorem perform_shiftImm (op : ShiftOp) (wide : Bool) (ha : s.get dst = .dword a) (amount : Byte) :
    ∃ f, (shiftImm op wide dst amount).perform s =
      some ((s.withFlags f).set dst (op.apply wide a (ShiftOp.places wide amount))) := by
  have low : op.apply wide (if wide then a else (a.setWidth 32).setWidth 64) (ShiftOp.places wide amount) =
      op.apply wide a (ShiftOp.places wide amount) := by
    cases wide with
    | true => rfl
    | false => simp only [ShiftOp.apply, setWidth_low, Bool.false_eq_true, if_false]
  refine ⟨if ShiftOp.places wide amount = 0 then s.flags else none, ?_⟩
  show ((s.get dst).operand? wide).bind (fun a =>
    some ((if ShiftOp.places wide amount = 0 then s else { s with flags := none }).set dst
      (op.apply wide a (ShiftOp.places wide amount)))) = _
  rw [ha, operand?_dword, Option.bind_some, low]
  split <;> rfl

theorem perform_shiftCl (op : ShiftOp) (wide : Bool) (ha : s.get dst = .dword a)
    (hb : s.get .rcx = .dword b) :
    ∃ f, (shiftCl op wide dst).perform s =
      some ((s.withFlags f).set dst (op.apply wide a (ShiftOp.places wide (b.setWidth 8)))) := by
  have low : ((b.setWidth 32 : Word).setWidth 64 : Dword).setWidth 8 = (b.setWidth 8 : Byte) := by
    apply BitVec.eq_of_toNat_eq
    simp only [BitVec.toNat_setWidth]
    omega
  have e : (shiftCl op wide dst).perform s = (shiftImm op wide dst (b.setWidth 8)).perform s := by
    show ((s.get .rcx).operand? false).bind (fun c => s.shift? op wide dst (c.setWidth 8)) = _
    rw [hb]
    show s.shift? op wide dst (((b.setWidth 32 : Word).setWidth 64 : Dword).setWidth 8) = _
    rw [low]
    rfl
  rw [e]
  exact perform_shiftImm op wide ha (b.setWidth 8)

theorem perform_imul (ha : s.get dst = .dword a) (hb : s.get src = .dword b) :
    (imul true dst src).perform s = some ((s.withFlags none).set dst (a * b)) := by
  show ((s.get dst).operand? true).bind (fun a => ((s.get src).operand? true).bind
    (fun b => some ({ s with flags := none }.set dst (a * b)))) = _
  rw [ha, hb]
  rfl

/-- A condition as a truth value in the low byte. -/
theorem perform_setcc {f : Flags} (hf : s.flags = some f) (c : Cond) (ha : s.get dst = .dword a) :
    (setcc c dst).perform s = some (s.set dst (a &&& ~~~0xFF#64 ||| flag (c.holds f))) := by
  show ((s.get dst).operand? true).bind (fun v => (s.flags.map c.holds).bind
    (fun holds => some (s.set dst (v &&& ~~~0xFF#64 ||| flag holds)))) = _
  rw [ha, hf]
  rfl

theorem perform_cmov {f : Flags} (hf : s.flags = some f) (c : Cond) (ha : s.get dst = .dword a)
    (hb : s.get src = .dword b) :
    (cmov c true dst src).perform s = some (s.set dst (if c.holds f then b else a)) := by
  show ((s.get dst).operand? true).bind (fun old => ((s.get src).operand? true).bind (fun new =>
    (s.flags.map c.holds).bind (fun holds => some (s.set dst (if holds then new else old))))) = _
  rw [ha, hb, hf]
  rfl

theorem perform_cmovWord {f : Flags} (hf : s.flags = some f) (c : Cond) {x y : Word}
    (ha : s.get dst = .dword (x.setWidth 64)) (hb : s.get src = .dword (y.setWidth 64)) :
    (cmov c false dst src).perform s = some (s.set dst ((if c.holds f then y else x).setWidth 64)) := by
  show ((s.get dst).operand? false).bind (fun old => ((s.get src).operand? false).bind (fun new =>
    (s.flags.map c.holds).bind (fun holds => some (s.set dst (if holds then new else old))))) = _
  rw [ha, hb, hf, operand?_dword, operand?_dword]
  simp only [Bool.false_eq_true, if_false, setWidth_setWidth, Option.bind_some, Option.map_some]
  cases c.holds f <;> rfl

/-! ## Fields of the processor state -/

theorem perform_load (he : s.get .env = .dword s.base) (f : Field) (dst : Reg) :
    (load f.wide dst .env (BitVec.ofNat 32 f.offset)).perform s = some (s.set dst (s.value f)) := by
  show (s.field? f.wide .env (BitVec.ofNat 32 f.offset)).bind (fun f => some (s.set dst (s.value f))) = _
  rw [field?_offset he]
  rfl

theorem perform_loadExtend (he : s.get .env = .dword s.base) {f : Field} (hw : f.wide = false)
    (dst : Reg) :
    (loadExtend .signWord dst .env (BitVec.ofNat 32 f.offset)).perform s =
      some (s.set dst (sextWord ((s.value f).setWidth 32))) := by
  show (s.field? false .env (BitVec.ofNat 32 f.offset)).bind
    (fun f => some (s.set dst (sextWord ((s.value f).setWidth 32)))) = _
  rw [field?_word he hw]
  rfl

theorem perform_store (he : s.get .env = .dword s.base) (f : Field) (hv : s.get src = .dword v) :
    (store f.wide src .env (BitVec.ofNat 32 f.offset)).perform s =
      some (s.setField f (if f.wide then v else (v.setWidth 32).setWidth 64)) := by
  show ((s.get src).operand? f.wide).bind (fun v =>
    (s.field? f.wide .env (BitVec.ofNat 32 f.offset)).bind (fun f => some (s.setField f v))) = _
  rw [hv, operand?_dword, field?_offset he]
  rfl

theorem perform_storeImm (he : s.get .env = .dword s.base) {f : Field} (hw : f.wide = false)
    (imm : Word) :
    (storeImm .env (BitVec.ofNat 32 f.offset) imm).perform s =
      some (s.setField f (imm.setWidth 64)) := by
  show (s.field? false .env (BitVec.ofNat 32 f.offset)).bind
    (fun f => some (s.setField f (imm.setWidth 64))) = _
  rw [field?_word he hw]
  rfl

theorem perform_cmpField (he : s.get .env = .dword s.base) {f : Field} (hw : f.wide = false)
    (imm : Word) :
    (arithMemImm .cmp .env (BitVec.ofNat 32 f.offset) imm).perform s =
      some (s.withFlags (some (ArithOp.cmp.eval false ((s.value f).setWidth 32 : Word) imm).2)) := by
  show (s.field? false .env (BitVec.ofNat 32 f.offset)).bind (fun f =>
    (s.arith? .cmp false (s.value f) (sextWord imm)).bind
      (fun x => some (if ArithOp.cmp.keeps then x.2.setField f x.1 else x.2))) = _
  rw [field?_word he hw]
  show some (s.withFlags (some (ArithOp.cmp.eval false ((s.value f).setWidth 32 : Word)
    ((sextWord imm).setWidth 32)).2)) = _
  rw [setWidth_sextWord]

theorem perform_testField (he : s.get .env = .dword s.base) {f : Field} (hw : f.wide = false)
    (imm : Word) :
    (testMemImm .env (BitVec.ofNat 32 f.offset) imm).perform s =
      some (s.withFlags (some (ArithOp.and.eval false ((s.value f).setWidth 32 : Word) imm).2)) := by
  show (s.field? false .env (BitVec.ofNat 32 f.offset)).bind
    (fun f => some (s.testFlags false (s.value f) (imm.setWidth 64))) = _
  rw [field?_word he hw]
  show some (s.withFlags (some (ArithOp.and.eval false ((s.value f).setWidth 32 : Word)
    ((imm.setWidth 64 : Dword).setWidth 32)).2)) = _
  rw [setWidth_setWidth]

end Insn

end EmotionEngine.Host
