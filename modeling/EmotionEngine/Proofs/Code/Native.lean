import EmotionEngine.Proofs.Code.Operands
import Mathlib.Tactic.Tauto

/-!
The code of instructions that work in host registers alone: arithmetic, shifts, products and moves. Each
operation has a lemma that its host instructions compute what the operation gives; the copies around
them are the same everywhere.

Main statement: for every such instruction the code follows the flow of the instruction
(`Placed.code_alu` and the theorems after it).
-/

namespace EmotionEngine.Code

open Host (Content Keeps Reg Slot Cond)
open Host.Insn (perform_arith perform_arithImm perform_extend setWidth_setWidth setWidth_sextWord)

namespace Placed

variable {s : Site} {mid written : Plan.State} {hollow : List GuestReg} {h h1 : Host.State} {g : Guest}

/-! ## Frames of code -/

theorem scratch0_ne_slot : ∀ k : Slot, Reg.scratch0 ≠ k.reg := by decide

theorem scratch1_ne_slot : ∀ k : Slot, Reg.scratch1 ≠ k.reg := by decide

theorem scratch2_ne_slot : ∀ k : Slot, Reg.scratch2 ≠ k.reg := by decide

/-- Whether the instruction may read a guest value: one that it declares, or register 0. -/
def Reads (s : Site) (r : GuestReg) : Prop := r ≠ .gpr 0 → r ∈ s.insn.insn.uses.reads

theorem read1 (p : Placed s mid written hollow h g) {r : GuestReg} (hr : Reads s r) (dst : Reg)
    (hd : dst ∉ Reg.calleeSaved) :
    ∃ h1, Runs (items [s.read dst r]) h (.through h1) ∧ Keeps h h1 ∧
      h1.get dst = .dword (g.cpu.file r) := by
  obtain ⟨f, e⟩ := p.perform_read hr dst
  exact ⟨_, .insn e (.nil _), ((Keeps.refl h).withFlags f).set hd _, Host.State.get_set_self _ _ _⟩

/-- Two values in the first two scratch registers. -/
theorem read2 (p : Placed s mid written hollow h g) {r r' : GuestReg} (hr : Reads s r)
    (hr' : Reads s r') :
    ∃ h1, Runs (items [s.read .scratch0 r, s.read .scratch1 r']) h (.through h1) ∧ Keeps h h1 ∧
      h1.get .scratch0 = .dword (g.cpu.file r) ∧ h1.get .scratch1 = .dword (g.cpu.file r') := by
  obtain ⟨h1, r1, k1, v1⟩ := p.read1 hr .scratch0 (by decide)
  obtain ⟨f, e⟩ := (p.keeps k1).perform_read hr' .scratch1
  refine ⟨_, r1.append (.insn e (.nil _)), (k1.withFlags f).set (by decide) _, ?_,
    Host.State.get_set_self _ _ _⟩
  rw [Host.State.get_set_of_ne _ _ (by decide)]
  exact v1

theorem ensures_signExtend (p : Placed s mid written hollow h g) (k1 : Keeps h h1) {rd : RegNum}
    {v : Dword} (hw : s.insn.insn.uses.writes = regList [.gpr rd])
    (he : s.insn.insn.uses.envWrites = []) (hv : h1.get .scratch0 = .dword v) :
    Ensures (.insn signExtend :: items (s.write (.gpr rd) .scratch0)) h1
      (s.Follows written (g.goOn (g.cpu.setReg rd (sext32 v)))) := by
  refine .insn (perform_extend .signWord hv) ?_
  exact p.ensures_setReg (k1.set (by decide) _) hw he scratch0_ne_slot (Host.State.get_set_self _ _ _)

theorem ensures_trapIf (p : Placed s mid written hollow h g) (k1 : Keeps h h1) {i : Host.Insn}
    {f : Host.Flags} {v : Dword} (hi : i.perform h1 = some ((h1.withFlags (some f)).set .scratch0 v))
    {rd : RegNum} {result : Option Dword} {traps : Bool} {rest : List Item}
    (trap : traps = true → f.overflow = true → result = none)
    (go : ¬(traps = true ∧ f.overflow = true) → ∀ h2, Keeps h h2 → h2.get .scratch0 = .dword v →
      Ensures rest h2 (s.Follows written (g.writeResult rd result))) :
    Ensures (.insn i :: (s.trapIf traps ++ rest)) h1 (s.Follows written (g.writeResult rd result)) := by
  have k2 : Keeps h ((h1.withFlags (some f)).set .scratch0 v) := (k1.withFlags _).set (by decide) v
  refine .insn hi ?_
  cases traps with
  | false => exact go (fun c => Bool.false_ne_true c.1) _ k2 (Host.State.get_set_self _ _ _)
  | true =>
    cases ho : f.overflow with
    | true =>
      rw [trap rfl ho]
      exact Site.ensures_fault (p.sim.keeps k2) p.mid_valid p.flushPre (congrArg some ho) (Or.inl rfl)
    | false =>
      refine .pass (congrArg some ho) ?_
      exact go (fun c => by rw [ho] at c; exact Bool.false_ne_true c.2) _ k2
        (Host.State.get_set_self _ _ _)

theorem ensures_word (p : Placed s mid written hollow h g) (k1 : Keeps h h1) {i : Host.Insn}
    {r : Dword × Host.Flags} (hi : i.perform h1 = some ((h1.withFlags (some r.2)).set .scratch0 r.1))
    {w : Word} {overflow : Bool} (hr : ∃ f, r = (w.setWidth 64, f) ∧ f.overflow = overflow)
    {rd : RegNum} (hw : s.insn.insn.uses.writes = regList [.gpr rd])
    (he : s.insn.insn.uses.envWrites = []) (traps : Bool) :
    Ensures (.insn i :: (s.trapIf traps ++ (.insn signExtend :: items (s.write (.gpr rd) .scratch0)))) h1
      (s.Follows written
        (g.writeResult rd (if traps && overflow then none else some (sextWord w)))) := by
  obtain ⟨f, rfl, rfl⟩ := hr
  refine p.ensures_trapIf k1 hi ?_ ?_
  · rintro rfl ho
    rw [ho]
    rfl
  · intro no h2 k2 v2
    rw [if_neg (by simpa using no)]
    have e := p.ensures_signExtend k2 hw he v2
    rwa [sext32, setWidth_setWidth] at e

/-- A sum or difference of doublewords, with or without a trap. -/
theorem ensures_dword (p : Placed s mid written hollow h g) (k1 : Keeps h h1) {i : Host.Insn}
    {r : Dword × Host.Flags} (hi : i.perform h1 = some ((h1.withFlags (some r.2)).set .scratch0 r.1))
    {v : Dword} {overflow : Bool} (hr : ∃ f, r = (v, f) ∧ f.overflow = overflow)
    {rd : RegNum} (hw : s.insn.insn.uses.writes = regList [.gpr rd])
    (he : s.insn.insn.uses.envWrites = []) (traps : Bool) :
    Ensures (.insn i :: (s.trapIf traps ++ items (s.write (.gpr rd) .scratch0))) h1
      (s.Follows written (g.writeResult rd (if traps && overflow then none else some v))) := by
  obtain ⟨f, rfl, rfl⟩ := hr
  refine p.ensures_trapIf k1 hi ?_ ?_
  · rintro rfl ho
    rw [ho]
    rfl
  · intro no h2 k2 v2
    rw [if_neg (by simpa using no)]
    exact p.ensures_setReg k2 hw he scratch0_ne_slot v2

theorem ensures_truth (p : Placed s mid written hollow h g) (k1 : Keeps h h1) {f : Host.Flags}
    (hf : h1.flags = some f) (c : Cond) {a : Dword} (ha : h1.get .scratch0 = .dword a)
    {rd : RegNum} (hw : s.insn.insn.uses.writes = regList [.gpr rd])
    (he : s.insn.insn.uses.envWrites = []) :
    Ensures (items (truth c) ++ items (s.write (.gpr rd) .scratch0)) h1
      (s.Follows written (g.goOn (g.cpu.setReg rd (flag (c.holds f))))) := by
  have low : ∀ b : Bool,
      Host.Extend.zeroByte.apply ((a &&& ~~~0xFF#64 ||| flag b).setWidth 32) = flag b := by
    intro b
    have cleared : (a.setWidth 32 &&& (~~~0xFF#64).setWidth 32 : Word).setWidth 8 = 0#8 := by
      rw [BitVec.setWidth_and, show ((~~~0xFF#64).setWidth 32 : Word).setWidth 8 = 0#8 by decide,
        BitVec.and_zero]
    show (((a &&& ~~~0xFF#64 ||| flag b).setWidth 32 : Word).setWidth 8).setWidth 64 = flag b
    rw [BitVec.setWidth_or, BitVec.setWidth_and, BitVec.setWidth_or, cleared]
    cases b <;> rfl
  refine .insn (Host.Insn.perform_setcc hf c ha) (.insn (perform_extend .zeroByte
    (Host.State.get_set_self _ _ _)) ?_)
  refine p.ensures_setReg ((k1.set (by decide) _).set (by decide) _) hw he scratch0_ne_slot ?_
  rw [Host.State.get_set_self, low]

/-! ## Arithmetic -/

theorem sext32_add (a b : Dword) : sext32 (a + b) = sextWord (a.setWidth 32 + b.setWidth 32) := by
  rw [sext32, BitVec.setWidth_add a b (by decide)]

theorem sext32_sub (a b : Dword) : sext32 (a - b) = sextWord (a.setWidth 32 - b.setWidth 32) := by
  rw [sext32]
  congr 1
  apply BitVec.eq_of_toNat_eq
  simp only [BitVec.toNat_setWidth, BitVec.toNat_sub]
  omega

theorem ensures_alu (p : Placed s mid written hollow h g) (k1 : Keeps h h1) (op : AluOp) {rd : RegNum}
    (hw : s.insn.insn.uses.writes = regList [.gpr rd]) (he : s.insn.insn.uses.envWrites = [])
    {a b : Dword} (ha : h1.get .scratch0 = .dword a) (hb : h1.get .scratch1 = .dword b) :
    Ensures (s.alu op ++ items (s.write (.gpr rd) .scratch0)) h1
      (s.Follows written (g.writeResult rd (op.eval a b))) := by
  have bits : ∀ {o : Host.ArithOp} (_ : o.usesCarry = false) (_ : o.keeps = true) {v : Dword}
      (_ : (o.apply true false a b).1 = v),
      Ensures (.insn (.arith o true .scratch0 .scratch1) :: items (s.write (.gpr rd) .scratch0)) h1
        (s.Follows written (g.goOn (g.cpu.setReg rd v))) := by
    intro o hc hk v hv
    refine .insn (perform_arith hc hk true ha hb) ?_
    refine p.ensures_setReg ((k1.withFlags _).set (by decide) _) hw he scratch0_ne_slot ?_
    rw [Host.State.get_set_self, hv]
  have compare : ∀ (c : Cond) {v : Bool} (_ : c.holds (Host.ArithOp.cmp.eval false a b).2 = v),
      Ensures (.insn (.arith .cmp true .scratch0 .scratch1) ::
        (items (truth c) ++ items (s.write (.gpr rd) .scratch0))) h1
        (s.Follows written (g.goOn (g.cpu.setReg rd (flag v)))) := by
    rintro c v rfl
    exact .insn (Host.Insn.perform_cmp ha hb) (p.ensures_truth (k1.withFlags _) rfl c ha hw he)
  cases op with
  | add =>
    exact p.ensures_word k1 (perform_arith rfl rfl false ha hb) (Host.Insn.apply_add_word a b) hw he true
  | addu =>
    rw [AluOp.eval, sext32_add]
    exact p.ensures_word k1 (perform_arith rfl rfl false ha hb) (Host.Insn.apply_add_word a b) hw he false
  | sub =>
    exact p.ensures_word k1 (perform_arith rfl rfl false ha hb) (Host.Insn.apply_sub_word a b) hw he true
  | subu =>
    rw [AluOp.eval, sext32_sub]
    exact p.ensures_word k1 (perform_arith rfl rfl false ha hb) (Host.Insn.apply_sub_word a b) hw he false
  | dadd =>
    exact p.ensures_dword k1 (perform_arith rfl rfl true ha hb) (Host.Insn.apply_add_dword a b) hw he true
  | daddu =>
    exact p.ensures_dword k1 (perform_arith rfl rfl true ha hb) (Host.Insn.apply_add_dword a b) hw he false
  | dsub =>
    exact p.ensures_dword k1 (perform_arith rfl rfl true ha hb) (Host.Insn.apply_sub_dword a b) hw he true
  | dsubu =>
    exact p.ensures_dword k1 (perform_arith rfl rfl true ha hb) (Host.Insn.apply_sub_dword a b) hw he false
  | and => exact bits rfl rfl rfl
  | or => exact bits rfl rfl rfl
  | xor => exact bits rfl rfl rfl
  | nor =>
    refine .insn (perform_arith rfl rfl true ha hb) (.insn (Host.Insn.perform_not
      (Host.State.get_set_self _ _ _)) ?_)
    exact p.ensures_setReg (((k1.withFlags _).set (by decide) _).set (by decide) _) hw he scratch0_ne_slot
      (Host.State.get_set_self _ _ _)
  | slt => exact compare .l (Host.holds_l_cmp a b)
  | sltu => exact compare .b (Host.holds_b_cmp a b)

theorem reads_of {rs : List GuestReg} (hu : s.insn.insn.uses.reads = regList rs) {r : GuestReg}
    (hr : r ∈ rs) : Reads s r := by
  intro h0
  rw [hu, mem_regList]
  exact ⟨hr, h0⟩

theorem code_alu (p : Placed s mid written hollow h g) {op : AluOp} {rd rs rt : RegNum}
    (hi : s.insn.insn = .alu op rd rs rt) : Ensures s.code h (s.Follows written (g.exec s.insn)) := by
  have hr : s.insn.insn.uses.reads = regList [.gpr rs, .gpr rt] := by rw [hi]; rfl
  obtain ⟨h1, r1, k1, ha, hb⟩ := p.read2 (reads_of hr List.mem_cons_self)
    (reads_of hr (List.mem_cons_of_mem _ List.mem_cons_self))
  have code : s.code = items [s.read .scratch0 (.gpr rs), s.read .scratch1 (.gpr rt)] ++
      (s.alu op ++ items (s.write (.gpr rd) .scratch0)) := by
    simp only [Site.code, hi, List.append_assoc]
  have flow : g.exec s.insn = g.writeResult rd (op.eval (g.cpu.reg rs) (g.cpu.reg rt)) := by
    simp only [Guest.exec, hi]
  rw [code, flow]
  exact .append r1 (p.ensures_alu k1 op (by rw [hi]; rfl) (by rw [hi]; rfl) ha hb)

/-! ## Immediates -/

theorem sextWord_signExtend (imm : Half) : sextWord (imm.signExtend 32) = simm imm := by
  unfold sextWord simm
  apply BitVec.eq_of_getLsbD_eq
  intro i hi
  simp only [BitVec.getLsbD_signExtend, BitVec.msb_signExtend]
  grind

theorem sextWord_setWidth (imm : Half) : sextWord (imm.setWidth 32) = imm.setWidth 64 := by
  unfold sextWord
  rw [BitVec.signExtend_eq_setWidth_of_msb_false]
  · apply BitVec.eq_of_toNat_eq
    simp only [BitVec.toNat_setWidth]
    omega
  · simp [BitVec.msb_setWidth]

theorem simm_shift (imm : Half) : simm imm <<< 16 = sextWord (imm.setWidth 32 <<< 16) := by
  unfold sextWord simm
  apply BitVec.eq_of_getLsbD_eq
  intro i hi
  simp only [BitVec.getLsbD_signExtend, BitVec.getLsbD_shiftLeft, BitVec.getLsbD_setWidth,
    BitVec.msb_eq_getLsbD_last]
  grind

theorem ensures_aluImm (p : Placed s mid written hollow h g) (k1 : Keeps h h1) (op : AluImmOp)
    (imm : Half) {rd : RegNum} (hw : s.insn.insn.uses.writes = regList [.gpr rd])
    (he : s.insn.insn.uses.envWrites = []) {a : Dword} (ha : h1.get .scratch0 = .dword a) :
    Ensures (s.aluImm op imm ++ items (s.write (.gpr rd) .scratch0)) h1
      (s.Follows written (g.writeResult rd (op.eval a imm))) := by
  have signed := sextWord_signExtend imm
  have unsigned := sextWord_setWidth imm
  have bits : ∀ {o : Host.ArithOp} (_ : o.usesCarry = false) (_ : o.keeps = true) {v : Dword}
      (_ : (o.apply true false a (imm.setWidth 64)).1 = v),
      Ensures (.insn (.arithImm o true .scratch0 (imm.setWidth 32)) ::
        items (s.write (.gpr rd) .scratch0)) h1 (s.Follows written (g.goOn (g.cpu.setReg rd v))) := by
    intro o hc hk v hv
    refine .insn (perform_arithImm hc hk true ha _) ?_
    refine p.ensures_setReg ((k1.withFlags _).set (by decide) _) hw he scratch0_ne_slot ?_
    rw [Host.State.get_set_self, unsigned, hv]
  have compare : ∀ (c : Cond) {v : Bool} (_ : c.holds (Host.ArithOp.cmp.eval false a (simm imm)).2 = v),
      Ensures (.insn (.arithImm .cmp true .scratch0 (imm.signExtend 32)) ::
        (items (truth c) ++ items (s.write (.gpr rd) .scratch0))) h1
        (s.Follows written (g.goOn (g.cpu.setReg rd (flag v)))) := by
    rintro c v rfl
    rw [← signed]
    exact .insn (Host.Insn.perform_cmpImm ha _) (p.ensures_truth (k1.withFlags _) rfl c ha hw he)
  have word : ∀ traps, Ensures (.insn (.arithImm .add false .scratch0 (imm.signExtend 32)) ::
      (s.trapIf traps ++ (.insn signExtend :: items (s.write (.gpr rd) .scratch0)))) h1
      (s.Follows written (g.writeResult rd
        (if traps && (a.setWidth 32 : Word).saddOverflow ((simm imm).setWidth 32) then none
          else some (sextWord (a.setWidth 32 + (simm imm).setWidth 32))))) := by
    intro traps
    rw [← signed]
    exact p.ensures_word k1 (perform_arithImm rfl rfl false ha _) (Host.Insn.apply_add_word a _) hw he traps
  have dword : ∀ traps, Ensures (.insn (.arithImm .add true .scratch0 (imm.signExtend 32)) ::
      (s.trapIf traps ++ items (s.write (.gpr rd) .scratch0))) h1
      (s.Follows written (g.writeResult rd
        (if traps && a.saddOverflow (simm imm) then none else some (a + simm imm)))) := by
    intro traps
    rw [← signed]
    exact p.ensures_dword k1 (perform_arithImm rfl rfl true ha _) (Host.Insn.apply_add_dword a _) hw he traps
  cases op with
  | addi => exact word true
  | addiu =>
    rw [AluImmOp.eval, sext32_add]
    exact word false
  | daddi => exact dword true
  | daddiu => exact dword false
  | slti => exact compare .l (Host.holds_l_cmp a _)
  | sltiu => exact compare .b (Host.holds_b_cmp a _)
  | andi => exact bits rfl rfl rfl
  | ori => exact bits rfl rfl rfl
  | xori => exact bits rfl rfl rfl

theorem code_aluImm (p : Placed s mid written hollow h g) {op : AluImmOp} {rt rs : RegNum} {imm : Half}
    (hi : s.insn.insn = .aluImm op rt rs imm) : Ensures s.code h (s.Follows written (g.exec s.insn)) := by
  have hr : s.insn.insn.uses.reads = regList [.gpr rs] := by rw [hi]; rfl
  obtain ⟨h1, r1, k1, ha⟩ := p.read1 (reads_of hr List.mem_cons_self) .scratch0 (by decide)
  have code : s.code = items [s.read .scratch0 (.gpr rs)] ++
      (s.aluImm op imm ++ items (s.write (.gpr rt) .scratch0)) := by
    simp only [Site.code, hi]
    rfl
  have flow : g.exec s.insn = g.writeResult rt (op.eval (g.cpu.reg rs) imm) := by
    simp only [Guest.exec, hi]
  rw [code, flow]
  exact .append r1 (p.ensures_aluImm k1 op imm (by rw [hi]; rfl) (by rw [hi]; rfl) ha)

theorem code_lui (p : Placed s mid written hollow h g) {rt : RegNum} {imm : Half}
    (hi : s.insn.insn = .lui rt imm) : Ensures s.code h (s.Follows written (g.exec s.insn)) := by
  have code : s.code = items (s.writeImm rt (simm imm <<< 16)) := by
    simp only [Site.code, hi]
  have flow : g.exec s.insn = g.goOn (g.cpu.setReg rt (sextWord (imm.setWidth 32 <<< 16))) := by
    simp only [Guest.exec, hi]
  obtain ⟨h2, r2, sim, _⟩ := p.writeImm (Keeps.refl h) (sextWord (imm.setWidth 32 <<< 16))
    (by rw [hi]; rfl) (by rw [hi]; rfl)
  rw [code, flow, simm_shift]
  exact ⟨_, r2, sim⟩

/-! ## Shifts -/

theorem ensures_shifted (p : Placed s mid written hollow h g) (k1 : Keeps h h1) (wide : Bool)
    {rd : RegNum} (hw : s.insn.insn.uses.writes = regList [.gpr rd])
    (he : s.insn.insn.uses.envWrites = []) {v : Dword} (hv : h1.get .scratch0 = .dword v) :
    Ensures (items ((if wide then [] else [signExtend]) ++ s.write (.gpr rd) .scratch0)) h1
      (s.Follows written (g.goOn (g.cpu.setReg rd (if wide then v else sext32 v)))) := by
  cases wide with
  | true => exact p.ensures_setReg k1 hw he scratch0_ne_slot hv
  | false => exact p.ensures_signExtend k1 hw he hv

theorem sext32_low (w : Word) : sext32 (w.setWidth 64) = sextWord w := by
  rw [sext32, setWidth_setWidth]

theorem eval_nothing {op : ShiftOp} {n : Nat} (h0 : (op.host n).2.2 = 0) (a : Dword) :
    op.eval a n = if (op.host n).2.1 then a else sext32 a := by
  cases op with
  | sll | srl | sra =>
    have e : n = 0 := h0
    subst e
    simp [ShiftOp.eval, ShiftOp.host, sext32]
  | dsll | dsrl | dsra =>
    have e : n = 0 := h0
    subst e
    simp [ShiftOp.eval, ShiftOp.host]
  | dsll32 | dsrl32 | dsra32 => exact absurd h0 (Nat.succ_ne_zero _)

theorem places_host (op : ShiftOp) (sa : Fin 32) :
    Host.ShiftOp.places (op.host sa.val).2.1 (BitVec.ofNat 8 (op.host sa.val).2.2) =
      (op.host sa.val).2.2 := by
  cases op <;> revert sa <;> decide

theorem eval_host (op : ShiftOp) (a : Dword) (n : Nat) :
    op.eval a n =
      if (op.host n).2.1 then (op.host n).1.apply (op.host n).2.1 a (op.host n).2.2
      else sext32 ((op.host n).1.apply (op.host n).2.1 a (op.host n).2.2) := by
  cases op with
  | sll | srl | sra => exact (sext32_low _).symm
  | dsll | dsrl | dsra | dsll32 | dsrl32 | dsra32 => rfl

theorem code_shift (p : Placed s mid written hollow h g) {op : ShiftOp} {rd rt : RegNum} {sa : Fin 32}
    (hi : s.insn.insn = .shift op rd rt sa) : Ensures s.code h (s.Follows written (g.exec s.insn)) := by
  have hr : s.insn.insn.uses.reads = regList [.gpr rt] := by rw [hi]; rfl
  have hw : s.insn.insn.uses.writes = regList [.gpr rd] := by rw [hi]; rfl
  have he : s.insn.insn.uses.envWrites = [] := by rw [hi]; rfl
  obtain ⟨h1, r1, k1, ha⟩ := p.read1 (reads_of hr List.mem_cons_self) .scratch0 (by decide)
  have code : s.code = items [s.read .scratch0 (.gpr rt)] ++
      (items (if (op.host sa.val).2.2 = 0 then [] else
        [.shiftImm (op.host sa.val).1 (op.host sa.val).2.1 .scratch0 (BitVec.ofNat 8 (op.host sa.val).2.2)]) ++
      items ((if (op.host sa.val).2.1 then [] else [signExtend]) ++ s.write (.gpr rd) .scratch0)) := by
    simp only [Site.code, hi, ← items_append, List.cons_append, List.nil_append, List.append_assoc]
  have flow : g.exec s.insn = g.goOn (g.cpu.setReg rd (op.eval (g.cpu.reg rt) sa.val)) := by
    simp only [Guest.exec, hi]
  have shifted : ∃ h2, Runs (items (if (op.host sa.val).2.2 = 0 then [] else
      [.shiftImm (op.host sa.val).1 (op.host sa.val).2.1 .scratch0 (BitVec.ofNat 8 (op.host sa.val).2.2)]))
      h1 (.through h2) ∧ Keeps h h2 ∧ ∃ v, h2.get .scratch0 = .dword v ∧
        op.eval (g.cpu.reg rt) sa.val = if (op.host sa.val).2.1 then v else sext32 v := by
    by_cases h0 : (op.host sa.val).2.2 = 0
    · rw [if_pos h0]
      exact ⟨h1, .nil h1, k1, _, ha, eval_nothing h0 _⟩
    · rw [if_neg h0]
      obtain ⟨f, e⟩ := Host.Insn.perform_shiftImm (op.host sa.val).1 (op.host sa.val).2.1 ha
        (BitVec.ofNat 8 (op.host sa.val).2.2)
      rw [places_host] at e
      exact ⟨_, .insn e (.nil _), (k1.withFlags f).set (by decide) _, _, Host.State.get_set_self _ _ _,
        eval_host op _ _⟩
  obtain ⟨h2, r2, k2, v, hv, result⟩ := shifted
  rw [code, flow, result]
  exact .append r1 (.append r2 (p.ensures_shifted k2 _ hw he hv))

/-- A shift by a register of the guest is one of the host, which takes the amount modulo the size of the
operand too. -/
theorem eval_host_var (op : ShiftVarOp) (a amount : Dword) :
    op.eval a amount =
      if op.host.2 then op.host.1.apply op.host.2 a (Host.ShiftOp.places op.host.2 (amount.setWidth 8))
      else sext32 (op.host.1.apply op.host.2 a (Host.ShiftOp.places op.host.2 (amount.setWidth 8))) := by
  have five : Host.ShiftOp.places false (amount.setWidth 8) = amount.toNat % 32 := by
    simp only [Host.ShiftOp.places, BitVec.toNat_setWidth, Bool.false_eq_true, if_false]
    omega
  have six : Host.ShiftOp.places true (amount.setWidth 8) = amount.toNat % 64 := by
    simp only [Host.ShiftOp.places, BitVec.toNat_setWidth, if_true]
    omega
  cases op with
  | sllv | srlv | srav =>
    simp only [ShiftVarOp.host, five]
    exact (sext32_low _).symm
  | dsllv | dsrlv | dsrav =>
    simp only [ShiftVarOp.host, six]
    rfl

theorem code_shiftVar (p : Placed s mid written hollow h g) {op : ShiftVarOp} {rd rt rs : RegNum}
    (hi : s.insn.insn = .shiftVar op rd rt rs) : Ensures s.code h (s.Follows written (g.exec s.insn)) := by
  have hr : s.insn.insn.uses.reads = regList [.gpr rt, .gpr rs] := by rw [hi]; rfl
  obtain ⟨h1, r1, k1, ha, hb⟩ := p.read2 (reads_of hr List.mem_cons_self)
    (reads_of hr (List.mem_cons_of_mem _ List.mem_cons_self))
  have code : s.code = items [s.read .scratch0 (.gpr rt), s.read .scratch1 (.gpr rs)] ++
      (.insn (.shiftCl op.host.1 op.host.2 .scratch0) ::
        items ((if op.host.2 then [] else [signExtend]) ++ s.write (.gpr rd) .scratch0)) := by
    simp only [Site.code, hi, items_append, List.append_assoc]
    rfl
  have flow : g.exec s.insn = g.goOn (g.cpu.setReg rd (op.eval (g.cpu.reg rt) (g.cpu.reg rs))) := by
    simp only [Guest.exec, hi]
  obtain ⟨f, e⟩ := Host.Insn.perform_shiftCl op.host.1 op.host.2 ha hb
  rw [code, flow, eval_host_var]
  exact .append r1 (.insn e (p.ensures_shifted ((k1.withFlags f).set (by decide) _) _ (by rw [hi]; rfl)
    (by rw [hi]; rfl) (Host.State.get_set_self _ _ _)))

/-! ## Products -/

theorem sshiftRight_eq (v : Dword) : v.sshiftRight 32 = sext32 (v >>> 32) := by
  unfold sext32 sextWord
  apply BitVec.eq_of_getLsbD_eq
  intro i hi
  simp only [BitVec.getLsbD_signExtend, BitVec.getLsbD_sshiftRight, BitVec.getLsbD_setWidth,
    BitVec.getLsbD_ushiftRight, BitVec.msb_eq_getLsbD_last]
  grind

/-- Two packed words are taken apart. -/
theorem runs_splitHiLo {v : Dword} (hv : h1.get .scratch0 = .dword v) :
    ∃ h2, Runs (items splitHiLo) h1 (.through h2) ∧ Keeps h1 h2 ∧
      h2.get .scratch0 = .dword (sext32 v) ∧ h2.get .scratch2 = .dword (sext32 (v >>> 32)) := by
  obtain ⟨f, e⟩ := Host.Insn.perform_shiftImm (s := h1.set .scratch2 v) .sar true
    (h1.get_set_self .scratch2 v) 32
  have low : (((h1.set .scratch2 v).withFlags f).set .scratch2
      (Host.ShiftOp.apply .sar true v (Host.ShiftOp.places true 32))).get .scratch0 = .dword v := by
    rw [Host.State.get_set_of_ne _ _ (by decide)]
    show (h1.set .scratch2 v).get .scratch0 = _
    rw [Host.State.get_set_of_ne _ _ (by decide), hv]
  refine ⟨_, .insn (Host.Insn.perform_mov hv) (.insn e (.insn (perform_extend .signWord low) (.nil _))),
    ?_, Host.State.get_set_self _ _ _, ?_⟩
  · exact ((((Keeps.refl h1).set (by decide) v).withFlags f).set (by decide) _).set (by decide) _
  · rw [Host.State.get_set_of_ne _ _ (by decide), Host.State.get_set_self, ← sshiftRight_eq]
    rfl

theorem ensures_mulResult (p : Placed s mid written hollow h g) (k1 : Keeps h h1) {rd : RegNum} (r : HiLo)
    (hw : s.insn.insn.uses.writes = regList [.gpr rd, .hi, .lo])
    (he : s.insn.insn.uses.envWrites = []) (hlo : h1.get .scratch0 = .dword r.lo)
    (hhi : h1.get .scratch2 = .dword r.hi) :
    Ensures (items (s.write .hi .scratch2 ++ (s.write .lo .scratch0 ++ s.write (.gpr rd) .scratch0))) h1
      (s.Follows written (g.goOn ({ g.cpu with lo := r.lo, hi := r.hi }.setReg rd r.lo))) := by
  show Ensures _ h1 (s.Follows written
    (.next, { g with cpu := { g.cpu with lo := r.lo, hi := r.hi }.setReg rd r.lo }))
  rw [← List.append_nil (s.write (.gpr rd) .scratch0)]
  refine p.ensures_writes k1 [(.hi, .scratch2), (.lo, .scratch0), (.gpr rd, .scratch0)] ?_ he ?_ ?_ rfl
    (Cpu.withFile_setReg _ rd r.lo) ?_
  · intro x
    rw [hw]
    simp only [mem_regList, List.mem_filter, List.map_cons, List.map_nil, List.mem_cons, List.not_mem_nil,
      or_false, decide_not, Bool.not_eq_true', decide_eq_false_iff_not]
    tauto
  · intro x hx
    simp only [List.mem_cons, List.not_mem_nil, or_false] at hx
    rcases hx with rfl | rfl | rfl
    · exact scratch2_ne_slot
    · exact scratch0_ne_slot
    · exact scratch0_ne_slot
  · intro x hx h0
    simp only [List.mem_cons, List.not_mem_nil, or_false] at hx
    rcases hx with rfl | rfl | rfl
    · rw [Cpu.file_setReg, if_neg (by simp)]
      exact hhi
    · rw [Cpu.file_setReg, if_neg (by simp)]
      exact hlo
    · rw [Seated.file_setReg_self h0]
      exact hlo
  · intro x hx
    rw [hw, mem_regList] at hx
    have ne : x ≠ .hi ∧ x ≠ .lo ∧ ¬(x = .gpr rd ∧ rd ≠ 0) := by
      refine ⟨?_, ?_, ?_⟩
      · rintro rfl
        exact hx (by simp)
      · rintro rfl
        exact hx (by simp)
      · rintro ⟨rfl, h0⟩
        exact hx (by simpa using h0)
    rw [Cpu.file_setReg, if_neg ne.2.2]
    cases x with
    | gpr _ => rfl
    | hi => exact absurd rfl ne.1
    | lo => exact absurd rfl ne.2.1

/-- A multiplication, where `i` and `j` widen its factors in their registers. -/
theorem ensures_multiply (p : Placed s mid written hollow h g) {op : MulDivOp} {rd rs rt : RegNum}
    (hi : s.insn.insn = .mulDiv op rd rs rt) (isMul : op.isMul = true) {widen : Dword → Dword}
    (eval : ∀ a b, op.eval a b = .ofProduct (widen a * widen b)) {i j : Host.Insn}
    (wi : ∀ {x : Host.State} {v}, x.get .scratch0 = .dword v → i.perform x = some (x.set .scratch0 (widen v)))
    (wj : ∀ {x : Host.State} {v}, x.get .scratch1 = .dword v → j.perform x = some (x.set .scratch1 (widen v))) :
    Ensures (items (s.multiply [i, j] rd rs rt)) h (s.Follows written (g.exec s.insn)) := by
  have hr : s.insn.insn.uses.reads = regList [.gpr rs, .gpr rt] := by rw [hi]; rfl
  have hw : s.insn.insn.uses.writes = regList [.gpr rd, .hi, .lo] := by
    simp only [hi, Insn.uses, isMul]
    rfl
  obtain ⟨h1, r1, k1, ha, hb⟩ := p.read2 (reads_of hr List.mem_cons_self)
    (reads_of hr (List.mem_cons_of_mem _ List.mem_cons_self))
  generalize product : widen (g.cpu.reg rs) * widen (g.cpu.reg rt) = v
  have code : items (s.multiply [i, j] rd rs rt) = items [s.read .scratch0 (.gpr rs), s.read .scratch1 (.gpr rt)] ++
      (.insn i :: .insn j :: .insn (.imul true .scratch0 .scratch1) :: (items splitHiLo ++
        items (s.write .hi .scratch2 ++ (s.write .lo .scratch0 ++ s.write (.gpr rd) .scratch0)))) := by
    simp only [Site.multiply, items_append, List.append_assoc]
    rfl
  have flow : g.exec s.insn = g.goOn ({ g.cpu with
      lo := (HiLo.ofProduct v).lo, hi := (HiLo.ofProduct v).hi }.setReg rd (HiLo.ofProduct v).lo) := by
    simp only [Guest.exec, hi, isMul, eval, product, if_true]
  rw [code, flow]
  have hb' : (h1.set .scratch0 (widen (g.cpu.reg rs))).get .scratch1 = .dword (g.cpu.reg rt) := by
    rw [Host.State.get_set_of_ne _ _ (by decide)]
    exact hb
  have first : ((h1.set .scratch0 (widen (g.cpu.reg rs))).set .scratch1 (widen (g.cpu.reg rt))).get .scratch0 =
      .dword (widen (g.cpu.reg rs)) := by
    rw [Host.State.get_set_of_ne _ _ (by decide), Host.State.get_set_self]
  have multiplied := Host.Insn.perform_imul first (Host.State.get_set_self _ _ _)
  rw [product] at multiplied
  have k2 := ((((k1.set (r := .scratch0) (by decide) (widen (g.cpu.reg rs))).set (r := .scratch1) (by decide)
    (widen (g.cpu.reg rt))).withFlags none).set (r := .scratch0) (by decide) v)
  obtain ⟨h3, r3, k3, lo, hi'⟩ := runs_splitHiLo (Host.State.get_set_self _ .scratch0 v)
  refine .append r1 (.insn (wi ha) (.insn (wj hb') (.insn multiplied (.append r3 ?_))))
  exact p.ensures_mulResult (k2.trans k3) (.ofProduct v) hw (by rw [hi]; rfl) lo hi'

theorem code_mult (p : Placed s mid written hollow h g) {rd rs rt : RegNum}
    (hi : s.insn.insn = .mulDiv .mult rd rs rt) : Ensures s.code h (s.Follows written (g.exec s.insn)) := by
  have code : s.code = items (s.multiply
      [.extend .signWord .scratch0 .scratch0, .extend .signWord .scratch1 .scratch1] rd rs rt) := by
    simp only [Site.code, hi, Site.mulDiv]
  rw [code]
  exact p.ensures_multiply hi rfl (fun _ _ => rfl) (perform_extend .signWord) (perform_extend .signWord)

theorem code_multu (p : Placed s mid written hollow h g) {rd rs rt : RegNum}
    (hi : s.insn.insn = .mulDiv .multu rd rs rt) : Ensures s.code h (s.Follows written (g.exec s.insn)) := by
  have code : s.code = items (s.multiply
      [.mov false .scratch0 .scratch0, .mov false .scratch1 .scratch1] rd rs rt) := by
    simp only [Site.code, hi, Site.mulDiv]
  rw [code]
  exact p.ensures_multiply hi rfl (fun _ _ => rfl) Host.Insn.perform_movLow Host.Insn.perform_movLow

/-! ## Moves -/

/-- The move of HI or LO to a general register. -/
theorem ensures_moveFrom (p : Placed s mid written hollow h g) {x : GuestReg} {r : RegNum} (reads : Reads s x)
    (hw : s.insn.insn.uses.writes = regList [.gpr r]) (he : s.insn.insn.uses.envWrites = []) :
    Ensures (items (s.read .scratch0 x :: s.write (.gpr r) .scratch0)) h
      (s.Follows written (g.goOn (g.cpu.setReg r (g.cpu.file x)))) := by
  obtain ⟨h1, r1, k1, ha⟩ := p.read1 reads .scratch0 (by decide)
  exact .append r1 (p.ensures_setReg k1 hw he scratch0_ne_slot ha)

theorem code_mfhi (p : Placed s mid written hollow h g) {r : RegNum}
    (hi : s.insn.insn = .hiLo .mfhi r) : Ensures s.code h (s.Follows written (g.exec s.insn)) := by
  have reads : Reads s .hi := fun _ => by rw [hi]; exact List.mem_singleton.mpr rfl
  have code : s.code = items (s.read .scratch0 .hi :: s.write (.gpr r) .scratch0) := by
    simp only [Site.code, hi]
  have flow : g.exec s.insn = g.goOn (g.cpu.setReg r g.cpu.hi) := by
    simp only [Guest.exec, hi]
  rw [code, flow]
  exact p.ensures_moveFrom reads (by rw [hi]; rfl) (by rw [hi]; rfl)

theorem code_mflo (p : Placed s mid written hollow h g) {r : RegNum}
    (hi : s.insn.insn = .hiLo .mflo r) : Ensures s.code h (s.Follows written (g.exec s.insn)) := by
  have reads : Reads s .lo := fun _ => by rw [hi]; exact List.mem_singleton.mpr rfl
  have code : s.code = items (s.read .scratch0 .lo :: s.write (.gpr r) .scratch0) := by
    simp only [Site.code, hi]
  have flow : g.exec s.insn = g.goOn (g.cpu.setReg r g.cpu.lo) := by
    simp only [Guest.exec, hi]
  rw [code, flow]
  exact p.ensures_moveFrom reads (by rw [hi]; rfl) (by rw [hi]; rfl)

/-- The move of a general register to one that is no general register. -/
theorem ensures_moveTo (p : Placed s mid written hollow h g) {x : GuestReg} {r : RegNum} (h0 : x ≠ .gpr 0)
    (hr : s.insn.insn.uses.reads = regList [.gpr r]) (hw : s.insn.insn.uses.writes = [x])
    (he : s.insn.insn.uses.envWrites = []) {cpu : Cpu}
    (rest : ∀ f, cpu.withFile f = g.cpu.withFile f)
    (file : ∀ y, cpu.file y = if y = x then g.cpu.reg r else g.cpu.file y) :
    Ensures (items (s.read .scratch0 (.gpr r) :: s.write x .scratch0)) h
      (s.Follows written (g.goOn cpu)) := by
  obtain ⟨h1, r1, k1, ha⟩ := p.read1 (reads_of hr List.mem_cons_self) .scratch0 (by decide)
  show Ensures (items [s.read .scratch0 (.gpr r)] ++ items (s.write x .scratch0)) h
    (s.Follows written (.next, { g with cpu }))
  refine .append r1 ?_
  rw [← List.append_nil (s.write x .scratch0)]
  refine p.ensures_writes k1 [(x, .scratch0)] ?_ he ?_ ?_ rfl rest ?_
  · intro y
    rw [hw]
    simp only [List.map_cons, List.map_nil, List.mem_filter, List.mem_singleton, decide_not,
      Bool.not_eq_true', decide_eq_false_iff_not]
    constructor
    · rintro rfl
      exact ⟨rfl, h0⟩
    · exact And.left
  · simpa using scratch0_ne_slot
  · intro y hy _
    rw [List.mem_singleton] at hy
    subst hy
    rw [file, if_pos rfl]
    exact ha
  · intro y hy
    rw [hw, List.mem_singleton] at hy
    rw [file, if_neg hy]

theorem code_mthi (p : Placed s mid written hollow h g) {r : RegNum}
    (hi : s.insn.insn = .hiLo .mthi r) : Ensures s.code h (s.Follows written (g.exec s.insn)) := by
  have flow : g.exec s.insn = g.goOn { g.cpu with hi := g.cpu.reg r } := by
    simp only [Guest.exec, hi]
  have code : s.code = items (s.read .scratch0 (.gpr r) :: s.write .hi .scratch0) := by
    simp only [Site.code, hi]
  rw [code, flow]
  refine p.ensures_moveTo (by simp) (by rw [hi]; rfl) (by rw [hi]; rfl) (by rw [hi]; rfl)
    (fun _ => rfl) ?_
  intro y
  cases y <;> rfl

theorem code_mtlo (p : Placed s mid written hollow h g) {r : RegNum}
    (hi : s.insn.insn = .hiLo .mtlo r) : Ensures s.code h (s.Follows written (g.exec s.insn)) := by
  have flow : g.exec s.insn = g.goOn { g.cpu with lo := g.cpu.reg r } := by
    simp only [Guest.exec, hi]
  have code : s.code = items (s.read .scratch0 (.gpr r) :: s.write .lo .scratch0) := by
    simp only [Site.code, hi]
  rw [code, flow]
  refine p.ensures_moveTo (by simp) (by rw [hi]; rfl) (by rw [hi]; rfl) (by rw [hi]; rfl)
    (fun _ => rfl) ?_
  intro y
  cases y <;> rfl

theorem code_condMove (p : Placed s mid written hollow h g) {op : CondMoveOp} {rd rs rt : RegNum}
    (hi : s.insn.insn = .condMove op rd rs rt) : Ensures s.code h (s.Follows written (g.exec s.insn)) := by
  have hr : s.insn.insn.uses.reads = regList [.gpr rs, .gpr rt, .gpr rd] := by rw [hi]; rfl
  obtain ⟨h1, r1, k1, v1, _⟩ := p.reads [(.scratch0, .gpr rt), (.scratch1, .gpr rs), (.scratch2, .gpr rd)]
    (show ∀ r ∈ [Reg.scratch0, Reg.scratch1, Reg.scratch2], r ∉ Reg.calleeSaved by decide)
    (show [Reg.scratch0, Reg.scratch1, Reg.scratch2].Nodup by decide)
    (by
      simp only [List.mem_cons, List.not_mem_nil, or_false]
      rintro x (rfl | rfl | rfl)
      · exact reads_of hr (by simp)
      · exact reads_of hr (by simp)
      · exact reads_of hr (by simp))
  have ht : h1.get .scratch0 = .dword (g.cpu.reg rt) := v1 _ List.mem_cons_self
  have hs : h1.get .scratch1 = .dword (g.cpu.reg rs) :=
    v1 (.scratch1, .gpr rs) (List.mem_cons_of_mem _ List.mem_cons_self)
  have hd : h1.get .scratch2 = .dword (g.cpu.reg rd) :=
    v1 (.scratch2, .gpr rd) (List.mem_cons_of_mem _ (List.mem_cons_of_mem _ List.mem_cons_self))
  have code : s.code = items [s.read .scratch0 (.gpr rt), s.read .scratch1 (.gpr rs),
      s.read .scratch2 (.gpr rd)] ++ (.insn (.test true .scratch0 .scratch0) ::
        .insn (.cmov (if op = .movz then .e else .ne) true .scratch2 .scratch1) ::
        items (s.write (.gpr rd) .scratch2)) := by
    simp only [Site.code, hi]
    rfl
  have flow : g.exec s.insn = g.goOn (g.cpu.setReg rd
      (if (if op = .movz then Cond.e else .ne).holds
        (Host.ArithOp.and.eval false (g.cpu.reg rt) (g.cpu.reg rt)).2
        then g.cpu.reg rs else g.cpu.reg rd)) := by
    have zero : Cond.e.holds (Host.ArithOp.and.eval false (g.cpu.reg rt) (g.cpu.reg rt)).2 =
        (g.cpu.reg rt == 0) := by
      rw [Host.holds_e_test, BitVec.and_self]
    have nonzero : Cond.ne.holds (Host.ArithOp.and.eval false (g.cpu.reg rt) (g.cpu.reg rt)).2 =
        !(g.cpu.reg rt == 0) := by
      rw [← zero]
      rfl
    simp only [Guest.exec, hi]
    cases op with
    | movz =>
      rw [show (if CondMoveOp.movz = .movz then Cond.e else .ne) = .e from rfl, zero]
      cases g.cpu.reg rt == 0
      · exact congrArg g.goOn (g.cpu.setReg_reg rd).symm
      · rfl
    | movn =>
      rw [show (if CondMoveOp.movn = .movz then Cond.e else .ne) = .ne from rfl, nonzero]
      cases g.cpu.reg rt == 0
      · rfl
      · exact congrArg g.goOn (g.cpu.setReg_reg rd).symm
  rw [code, flow]
  refine .append r1 (.insn (Host.Insn.perform_test ht) (.insn (Host.Insn.perform_cmov rfl _ hd hs) ?_))
  exact p.ensures_setReg ((k1.withFlags _).set (by decide) _) (by rw [hi]; rfl) (by rw [hi]; rfl)
    scratch2_ne_slot (Host.State.get_set_self _ _ _)

end Placed

end EmotionEngine.Code
