import EmotionEngine.Proofs.Block.Exec
import EmotionEngine.Proofs.Code.Control

/-!
Calls of helpers in the code of an instruction, and the checks behind them. A helper works on the guest
as the processor state in memory has it, which may be out of date in its guest values; an operation that
leaves those alone does there what it does to the guest itself.

Main statements: after the call of a helper whose operation is `Aloof`, the host stands for the guest
after the operation (`Sim.back`), and the checks leave exactly where the operation failed
(`Placed.ensures_checkFault`, `Placed.ensures_checkDone`, `Seated.ensures_checkStore`).
-/

namespace EmotionEngine

open Host (Content Keeps Reg Slot Cond Helper arg)

/-! ## Operations on guests that leave the guest values alone -/

namespace Guest

/-- An operation on a guest that neither reads nor writes guest values. -/
def Aloof {α : Type} (op : Guest → α × Guest) : Prop :=
  ∀ g f, op (g.withFile f) = ((op g).1, (op g).2.withFile f)

theorem file_of_aloof {α : Type} {op : Guest → α × Guest} (h : Aloof op) (g : Guest) :
    (op g).2.cpu.file = g.cpu.file := by
  have e := congrArg (fun r => r.2.cpu.file) (h g g.cpu.file)
  simpa using e

/-- An operation on the processor as one on the guest. -/
def onCpu {α : Type} (op : Cpu → α × Cpu) (g : Guest) : α × Guest :=
  ((op g.cpu).1, { g with cpu := (op g.cpu).2 })

theorem aloof_onCpu {α : Type} {op : Cpu → α × Cpu} (h : Cpu.Aloof op) : Aloof (onCpu op) := by
  intro g f
  unfold onCpu
  rw [cpu_withFile, h]
  rfl

theorem aloof_load (w : Width) (vaddr : Word) : Aloof (fun g => g.load w vaddr) :=
  fun g f => load_withFile g w vaddr f

theorem aloof_store (w : Width) (vaddr : Word) (v : Quad) : Aloof (fun g => g.store w vaddr v) :=
  fun g f => store_withFile g w vaddr v f

end Guest

/-! ## Returning from a helper -/

namespace Host.State

variable (s : State) (g : Guest) (c : Content)

theorem get_back_of_saved {r : Reg} (hr : r ∈ Reg.calleeSaved) : (s.back g c).get r = s.get r := by
  have ne : r ≠ .rax := by rintro rfl; revert hr; decide
  unfold back
  rw [get_put, if_neg ne, get_forget, if_pos hr]
  rfl

@[simp] theorem get_back_scratch0 : (s.back g c).get .scratch0 = c := get_put_self _ _ _

@[simp] theorem guest_back : (s.back g c).guest = g := rfl

@[simp] theorem base_back : (s.back g c).base = s.base := by
  simp only [back, put, forget]

@[simp] theorem spill_back : (s.back g c).spill = s.spill := by
  simp only [back, put, forget]

/-! ## Arguments -/

variable {s}

theorem guestArg?_eq (h : s.get (arg 0) = .dword s.base) : s.guestArg? = some s.guest := by
  unfold guestArg? dwordArg?
  rw [h]
  exact if_pos rfl

theorem wordArg?_eq {k : Fin 5} {v : Dword} (h : s.get (arg k) = .dword v) :
    s.wordArg? k = some (v.setWidth 32) := by
  unfold wordArg?
  rw [h]
  rfl

theorem dwordArg?_eq {k : Fin 5} {v : Dword} (h : s.get (arg k) = .dword v) :
    s.dwordArg? k = some v := by
  unfold dwordArg?
  rw [h]
  rfl

def number (n : Nat) : Dword := (BitVec.ofNat 32 n).setWidth 64

theorem wordArg?_number {k : Fin 5} {n : Nat} (h : s.get (arg k) = .dword (number n)) :
    s.wordArg? k = some (BitVec.ofNat 32 n) := by
  rw [wordArg?_eq h, number, Insn.setWidth_setWidth]

theorem regArg?_number {k : Fin 5} {r : RegNum} (h : s.get (arg k) = .dword (number r.val)) :
    s.regArg? k = some r := by
  have named : ∀ r : RegNum, regNum? (BitVec.ofNat 32 r.val) = some r := by decide
  unfold regArg?
  rw [wordArg?_number h]
  exact named r

end Host.State

namespace Sim

variable {st : Plan.State} {hollow : List GuestReg} {h h' : Host.State} {g : Guest}

/-- An aloof operation on the guest in memory gives what it gives on the guest, and the host stands for
the guest after it. -/
theorem back {α : Type} (sim : Sim st hollow h g) {op : Guest → α × Guest} (ha : Guest.Aloof op)
    (c : Content) :
    (op h.guest).1 = (op g).1 ∧ Sim st hollow (h.back (op h.guest).2 c) (op g).2 := by
  have e : op h.guest = ((op g).1, (op g).2.withFile h.guest.cpu.file) := by
    conv_lhs => rw [sim.serving.guest]
    exact ha g _
  rw [e]
  refine ⟨rfl, sim.of_guest (h.guest_back _ c) (Guest.file_of_aloof ha g) (h.base_back _ c)
    (h.spill_back _ c) (fun r hr => h.get_back_of_saved _ c hr)⟩

end Sim

namespace Code

theorem perform_call (x : Helper) (h : Host.State) :
    (Host.Insn.call .scratch0).perform (h.set .scratch0 x.address) = x.call (h.set .scratch0 x.address) := by
  show ((h.set .scratch0 x.address).operand? true .scratch0).bind
    (fun a => (Helper.ofAddress? a).bind (fun y => y.call (h.set .scratch0 x.address))) = _
  unfold Host.State.operand?
  rw [Host.State.get_set_self]
  show (Helper.ofAddress? x.address).bind _ = _
  rw [Helper.ofAddress?_address]
  rfl

theorem runs_call {x : Helper} {h h' : Host.State} (e : x.call (h.set .scratch0 x.address) = some h') :
    Runs (items (call x)) h (.through h') :=
  .insn rfl (.insn ((perform_call x h).trans e) (.nil h'))

variable {s : Site} {mid written : Plan.State} {hollow : List GuestReg} {h h1 : Host.State} {g : Guest}

namespace Placed

/-! ## Checks -/

theorem cmp_faultPending (sim : Sim mid hollow h1 g) :
    (Host.Insn.arithMemImm .cmp .env (offset Layout.faultPending) 0).perform h1 =
      some (h1.withFlags (some (Host.ArithOp.cmp.eval false (BitVec.ofNat 32 g.cpu.faultPending.toNat)
        (0 : Word)).2)) := by
  have e := Host.Insn.perform_cmpField sim.serving.env (f := .faultPending) rfl 0
  have pending : h1.guest.cpu.faultPending = g.cpu.faultPending := by rw [sim.serving.guest]; rfl
  have value : ((h1.value .faultPending).setWidth 32 : Word) =
      BitVec.ofNat 32 g.cpu.faultPending.toNat := by
    rw [← pending]
    show ((flag h1.guest.cpu.faultPending).setWidth 32 : Word) = _
    cases h1.guest.cpu.faultPending <;> rfl
  rw [value] at e
  exact e

/-- Leave if the last helper recorded an exception, and else go on. -/
theorem ensures_checkFault (p : Placed s mid written hollow h g) {g' : Guest} {c : ExcCode}
    (sim : Sim mid hollow h1 g') (hp : g'.cpu.faultPending = true) (hc : g'.cpu.excCode = c.toWord)
    {rest : List Item} : Ensures (s.checkFault ++ rest) h1 (s.Follows written (.fault c, g')) := by
  refine .insn (cmp_faultPending sim) ?_
  refine Site.ensures_fault (sim.keeps ((Keeps.refl h1).withFlags _)) p.mid_valid p.flushPre ?_
    (Or.inr ⟨rfl, hc⟩)
  rw [hp]
  rfl

theorem ensures_checkFault_pass (sim : Sim mid hollow h1 g) (hp : g.cpu.faultPending = false)
    {rest : List Item} {Q : Outcome → Prop} (go : ∀ f, Ensures rest (h1.withFlags f) Q) :
    Ensures (s.checkFault ++ rest) h1 Q := by
  refine .insn (cmp_faultPending sim) (.pass ?_ (go _))
  rw [hp]
  rfl

/-- Leave if a privileged operation failed. -/
theorem ensures_checkDone (p : Placed s mid written hollow h g) {g' : Guest} {c : ExcCode}
    (sim : Sim mid hollow h1 g') (hv : h1.get .scratch0 = Host.done false)
    (hc : g'.cpu.excCode = c.toWord) : Ensures s.checkDone h1 (s.Follows written (.fault c, g')) := by
  refine .insn (Host.Insn.perform_test_word hv) ?_
  exact Site.ensures_fault (sim.keeps ((Keeps.refl h1).withFlags _)) p.mid_valid p.flushPre rfl
    (Or.inr ⟨rfl, hc⟩)

theorem ensures_checkDone_pass (hv : h1.get .scratch0 = Host.done true) {Q : Outcome → Prop}
    (q : ∀ f, Q (.through (h1.withFlags f))) : Ensures s.checkDone h1 Q :=
  .insn (Host.Insn.perform_test_word hv) (.pass rfl (.nil (q _)))

end Placed

/-- Leave as the status of a store says. -/
theorem Seated.ensures_checkStore (p : Seated s mid written hollow h g) {v : Quad} {w : Width} {a : Word}
    (sim : Sim mid hollow h1 (g.store w a v).2)
    (hv : h1.get .scratch0 = .word (BitVec.ofNat 32 (g.store w a v).1.toNat))
    (hw : s.insn.insn.uses.writes = []) (he : s.insn.insn.uses.envWrites = []) :
    Ensures s.checkStore h1 (s.Follows written (g.execStore w a v)) := by
  have step : ∀ {f : Option Host.Flags} (k : Word), (Host.Insn.arithImm .cmp false .scratch0 k).perform
      (h1.withFlags f) = some ((h1.withFlags f).withFlags (some (Host.ArithOp.cmp.eval false
        (BitVec.ofNat 32 (g.store w a v).1.toNat) k).2)) :=
    fun k => Host.Insn.perform_cmpImm_word (s := h1.withFlags _) hv k
  have keep : ∀ f : Option Host.Flags, Sim mid hollow (h1.withFlags f) (g.store w a v).2 :=
    fun f => sim.keeps ((Keeps.refl h1).withFlags f)
  have equal : ∀ (x : Host.State) (k : Word), (x.withFlags (some (Host.ArithOp.cmp.eval false
      (BitVec.ofNat 32 (g.store w a v).1.toNat) k).2)).holds? .e =
        some (BitVec.ofNat 32 (g.store w a v).1.toNat == k) := by
    intro x k
    rw [Host.State.holds?_withFlags, Host.holds_e_cmp]
  unfold Guest.execStore
  obtain ⟨mem, -, e | e | ⟨c, -, e⟩⟩ := g.store_cases w a v
  · rw [e] at step equal keep ⊢
    refine .insn (step (f := h1.flags) 1) (.pass (equal _ 1) (.insn (step 2) (.pass (equal _ 2) (.nil ?_))))
    exact (p.with_sim (keep _)).unwritten (Keeps.refl _) hw he
  · rw [e] at step equal keep ⊢
    refine .insn (step (f := h1.flags) 1) (.pass (equal _ 1) (.insn (step 2) ?_))
    exact Site.ensures_modified ((p.with_sim (keep _)).unwritten (Keeps.refl _) hw he)
      p.written_valid p.flushPost (equal _ 2)
  · rw [e] at step equal keep ⊢
    refine .insn (step (f := h1.flags) 1) ?_
    dsimp only
    rw [Guest.recordedFault_fault]
    exact Site.ensures_fault (keep _) p.mid_valid p.flushPre (equal _ 1) (Or.inr ⟨rfl, rfl⟩)

end Code

end EmotionEngine
