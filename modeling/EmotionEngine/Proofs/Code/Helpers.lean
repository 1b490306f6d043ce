import EmotionEngine.Proofs.Code.Calls

/-!
The code of instructions that call helpers: loads and stores, divisions, the system control coprocessor,
the floating point unit and the operations on whole registers. Scalar helpers get their values in
registers, so a store takes only a doubleword; the operations on whole registers work in the register
file itself, and the plan sees to it that what they read there is current.

Main statement: for every such instruction the code follows the flow of the instruction
(`Placed.code_load` and the theorems after it).
-/

namespace EmotionEngine

open Host (Content Keeps Reg Slot Cond Helper arg)

/-! ## Stores of doublewords -/

theorem leBytes_mod {n k : Nat} (h : n ≤ k) (v : Nat) : leBytes n (v % twoPow (8 * k)) = leBytes n v := by
  induction n generalizing v k with
  | zero => rfl
  | succ n ih =>
    obtain ⟨k, rfl⟩ : ∃ j, k = j + 1 := ⟨k - 1, by omega⟩
    have grow : twoPow (8 * (k + 1)) = 256 * twoPow (8 * k) := by
      rw [Nat.mul_succ, twoPow_add, Nat.mul_comm]
    have byte : BitVec.ofNat 8 (v % (256 * twoPow (8 * k))) = BitVec.ofNat 8 v := by
      apply BitVec.eq_of_toNat_eq
      simp only [BitVec.toNat_ofNat]
      exact Nat.mod_mod_of_dvd v (Nat.dvd_mul_right 256 _)
    rw [leBytes, leBytes, grow, byte, Nat.mod_mul_right_div_self, ih (by omega)]

theorem toNat_lowHalf (q : Quad) : ((lowHalf q).setWidth 128).toNat = q.toNat % twoPow (8 * 8) := by
  have h : twoPow (8 * 8) = 2 ^ 64 := by decide
  rw [lowHalf, h, BitVec.toNat_setWidth, BitVec.toNat_setWidth]
  omega

theorem Width.size_le {w : Width} (h : w ≠ .quad) : w.size ≤ 8 := by
  cases w with
  | quad => exact absurd rfl h
  | byte | half | word | dword => decide

theorem Memory.write_lowHalf (m : Memory) {w : Width} (h : w ≠ .quad) (vaddr : Word) (q : Quad) :
    m.write w vaddr ((lowHalf q).setWidth 128) = m.write w vaddr q := by
  have divides : twoPow (8 * w.size) ∣ twoPow (8 * 8) := by
    obtain ⟨d, hd⟩ : ∃ d, 8 * 8 = 8 * w.size + d := ⟨8 * 8 - 8 * w.size, by have := w.size_le h; omega⟩
    rw [hd, twoPow_add]
    exact Nat.dvd_mul_right _ _
  have truncate : w.truncate ((lowHalf q).setWidth 128) = w.truncate q := by
    unfold Width.truncate
    rw [toNat_lowHalf, Nat.mod_mod_of_dvd _ divides]
  unfold write
  rw [toNat_lowHalf, leBytes_mod (w.size_le h), truncate]

theorem Guest.store_lowHalf (g : Guest) {w : Width} (h : w ≠ .quad) (vaddr : Word) (q : Quad) :
    g.store w vaddr ((lowHalf q).setWidth 128) = g.store w vaddr q := by
  unfold store
  dsimp only
  rw [Memory.write_lowHalf _ h]

/-! ## What helpers do with their arguments -/

namespace Host.Helper

variable {s : State} {a v : Dword}

/-- A helper that finds an argument goes on with its value. -/
theorem answers {α : Type} {x : Option α} {b : α} {rest : α → Option State} {t : State}
    (found : x = some b) (h : rest b = some t) : x >>= rest = some t := by
  rw [found]
  exact h

theorem call_load {w : Width} (hw : w ≠ .quad) (a0 : s.get (arg 0) = .dword s.base)
    (a1 : s.get (arg 1) = .dword a) :
    (load w).call s = some (s.back (s.guest.load w (a.setWidth 32)).2
      (.dword (((s.guest.load w (a.setWidth 32)).1.getD 0).setWidth 64))) := by
  cases w with
  | quad => exact absurd rfl hw
  | byte | half | word | dword =>
    refine answers (State.guestArg?_eq a0) ?_
    refine answers (State.wordArg?_eq a1) ?_
    rfl

theorem call_loadQuad (a0 : s.get (arg 0) = .dword s.base) (a1 : s.get (arg 1) = .dword a) {rt : RegNum}
    (a2 : s.get (arg 2) = .dword (State.number rt.val)) :
    (load .quad).call s = some (match s.guest.load .quad (a.setWidth 32) with
      | (some v, g) => s.back { g with cpu := g.cpu.setRegQuad rt v } .unknown
      | (none, g) => s.back g .unknown) := by
  refine answers (State.guestArg?_eq a0) ?_
  refine answers (State.wordArg?_eq a1) ?_
  refine answers (State.regArg?_number a2) ?_
  show (match s.guest.load .quad (a.setWidth 32) with
      | (some v, g) => some (s.back { g with cpu := g.cpu.setRegQuad rt v } .unknown)
      | (none, g) => some (s.back g .unknown)) = _
  split <;> rfl

theorem call_store {w : Width} (hw : w ≠ .quad) (a0 : s.get (arg 0) = .dword s.base)
    (a1 : s.get (arg 1) = .dword a) (a2 : s.get (arg 2) = .dword v) :
    (store w).call s = some (s.back (s.guest.store w (a.setWidth 32) (v.setWidth 128)).2
      (.word (BitVec.ofNat 32 (s.guest.store w (a.setWidth 32) (v.setWidth 128)).1.toNat))) := by
  cases w with
  | quad => exact absurd rfl hw
  | byte | half | word | dword =>
    refine answers (State.guestArg?_eq a0) ?_
    refine answers (State.wordArg?_eq a1) ?_
    refine answers (State.dwordArg?_eq a2) ?_
    rfl

theorem call_storeQuad (a0 : s.get (arg 0) = .dword s.base) (a1 : s.get (arg 1) = .dword a) {rt : RegNum}
    (a2 : s.get (arg 2) = .dword (State.number rt.val)) :
    (store .quad).call s = some (s.back
      (s.guest.store .quad (a.setWidth 32) (s.guest.cpu.regQuad rt)).2
      (.word (BitVec.ofNat 32
        (s.guest.store .quad (a.setWidth 32) (s.guest.cpu.regQuad rt)).1.toNat))) := by
  refine answers (State.guestArg?_eq a0) ?_
  refine answers (State.wordArg?_eq a1) ?_
  refine answers (State.regArg?_number a2) ?_
  rfl

theorem call_div (a0 : s.get (arg 0) = .dword a) (a1 : s.get (arg 1) = .dword v) :
    div.call s = some (s.back s.guest (.dword (MulDivOp.div.eval a v).pack)) := by
  refine answers (State.dwordArg?_eq a0) ?_
  refine answers (State.dwordArg?_eq a1) ?_
  rfl

theorem call_divu (a0 : s.get (arg 0) = .dword a) (a1 : s.get (arg 1) = .dword v) :
    divu.call s = some (s.back s.guest (.dword (MulDivOp.divu.eval a v).pack)) := by
  refine answers (State.dwordArg?_eq a0) ?_
  refine answers (State.dwordArg?_eq a1) ?_
  rfl

theorem call_mfc0 (a0 : s.get (arg 0) = .dword s.base) {rd : RegNum}
    (a1 : s.get (arg 1) = .dword (State.number rd.val)) :
    mfc0.call s = some (s.back (Guest.onCpu (fun c => c.mfc0 rd) s.guest).2
      (.dword (((s.guest.cpu.mfc0 rd).1.getD 0).setWidth 64))) := by
  refine answers (State.guestArg?_eq a0) ?_
  refine answers (State.regArg?_number a1) ?_
  rfl

theorem call_mtc0 (a0 : s.get (arg 0) = .dword s.base) {rd : RegNum}
    (a1 : s.get (arg 1) = .dword (State.number rd.val)) (a2 : s.get (arg 2) = .dword v) :
    mtc0.call s = some (s.back (Guest.onCpu (fun c => c.mtc0 rd (v.setWidth 32)) s.guest).2
      (done (s.guest.cpu.mtc0 rd (v.setWidth 32)).1)) := by
  refine answers (State.guestArg?_eq a0) ?_
  refine answers (State.regArg?_number a1) ?_
  refine answers (State.dwordArg?_eq a2) ?_
  rfl

theorem call_eret (a0 : s.get (arg 0) = .dword s.base) :
    eret.call s = some (s.back (Guest.onCpu Cpu.eret s.guest).2 (done s.guest.cpu.eret.1)) := by
  refine answers (State.guestArg?_eq a0) ?_
  rfl

theorem call_setEie (a0 : s.get (arg 0) = .dword s.base) {enable : Bool}
    (a1 : s.get (arg 1) = .dword (State.number enable.toNat)) :
    setEie.call s = some (s.back (Guest.onCpu (fun c => c.setEie enable) s.guest).2
      (done (s.guest.cpu.setEie enable).1)) := by
  have e : (BitVec.ofNat 32 enable.toNat != 0) = enable := by cases enable <;> rfl
  refine answers (State.guestArg?_eq a0) ?_
  refine answers (State.wordArg?_number a1) ?_
  show some (s.back { s.guest with cpu := (s.guest.cpu.setEie (BitVec.ofNat 32 enable.toNat != 0)).2 }
    (done (s.guest.cpu.setEie (BitVec.ofNat 32 enable.toNat != 0)).1)) = _
  rw [e]
  rfl

theorem call_fpuArith (a0 : s.get (arg 0) = .dword s.base) {op : FpuOp} {fd fs ft : RegNum}
    (a1 : s.get (arg 1) = .dword (State.number op.toNat))
    (a2 : s.get (arg 2) = .dword (State.number fd.val)) (a3 : s.get (arg 3) = .dword (State.number fs.val))
    (a4 : s.get (arg 4) = .dword (State.number ft.val)) :
    fpuArith.call s = some (s.back
      (Guest.onCpu (fun c => ((), c.fpuArith op fd fs ft)) s.guest).2 .unknown) := by
  have named : FpuOp.ofNat? (BitVec.ofNat 32 op.toNat).toNat = some op := by cases op <;> rfl
  refine answers (State.guestArg?_eq a0) ?_
  refine answers (Option.bind_eq_some_iff.2 ⟨_, State.wordArg?_number a1, named⟩) ?_
  refine answers (State.regArg?_number a2) ?_
  refine answers (State.regArg?_number a3) ?_
  refine answers (State.regArg?_number a4) ?_
  rfl

theorem call_fpuCompare (a0 : s.get (arg 0) = .dword s.base) {cond : FpuCond} {fs ft : RegNum}
    (a1 : s.get (arg 1) = .dword (State.number cond.toNat))
    (a2 : s.get (arg 2) = .dword (State.number fs.val))
    (a3 : s.get (arg 3) = .dword (State.number ft.val)) :
    fpuCompare.call s = some (s.back
      (Guest.onCpu (fun c => ((), c.fpuCompare cond fs ft)) s.guest).2 .unknown) := by
  have named : FpuCond.ofNat? (BitVec.ofNat 32 cond.toNat).toNat = some cond := by cases cond <;> rfl
  refine answers (State.guestArg?_eq a0) ?_
  refine answers (Option.bind_eq_some_iff.2 ⟨_, State.wordArg?_number a1, named⟩) ?_
  refine answers (State.regArg?_number a2) ?_
  refine answers (State.regArg?_number a3) ?_
  rfl

theorem call_mmi (a0 : s.get (arg 0) = .dword s.base) {op : MmiOp} {rd rs rt : RegNum}
    (a1 : s.get (arg 1) = .dword (State.number op.toNat))
    (a2 : s.get (arg 2) = .dword (State.number rd.val)) (a3 : s.get (arg 3) = .dword (State.number rs.val))
    (a4 : s.get (arg 4) = .dword (State.number rt.val)) :
    mmi.call s = some (s.back (Guest.onCpu (fun c =>
      ((), c.setRegQuad rd (op.eval (c.regQuad rs) (c.regQuad rt)))) s.guest).2 .unknown) := by
  have named : MmiOp.ofNat? (BitVec.ofNat 32 op.toNat).toNat = some op := by cases op <;> rfl
  refine answers (State.guestArg?_eq a0) ?_
  refine answers (Option.bind_eq_some_iff.2 ⟨_, State.wordArg?_number a1, named⟩) ?_
  refine answers (State.regArg?_number a2) ?_
  refine answers (State.regArg?_number a3) ?_
  refine answers (State.regArg?_number a4) ?_
  rfl

end Host.Helper

namespace Code.Placed

variable {s : Site} {mid written : Plan.State} {hollow : List GuestReg} {h h1 : Host.State} {g : Guest}

/-! ## Loads -/

/-- The address of a memory operand in the second argument register. -/
theorem runs_effectiveAddr (p : Placed s mid written hollow h g) {base : RegNum} (off : Half)
    (hr : Reads s (.gpr base)) :
    ∃ h1 a, Runs (items (s.effectiveAddr base off)) h (.through h1) ∧ Keeps h h1 ∧
      h1.get (arg 1) = .dword a ∧ a.setWidth 32 = g.cpu.effectiveAddr base off := by
  obtain ⟨h1, r1, k1, v1⟩ := p.read1 hr (arg 1) (by decide)
  unfold Site.effectiveAddr Cpu.effectiveAddr
  by_cases h0 : off = 0
  · subst h0
    refine ⟨h1, _, r1, k1, v1, ?_⟩
    rw [show (0 : Half).signExtend 32 = 0 by decide]
    exact (BitVec.add_zero _).symm
  · rw [if_neg h0]
    obtain ⟨f, e, _⟩ := Host.Insn.apply_add_word (g.cpu.reg base) (sextWord (off.signExtend 32))
    refine ⟨_, _, r1.append (.insn (Host.Insn.perform_arithImm rfl rfl false v1 _) (.nil _)),
      (k1.withFlags _).set (by decide) _, Host.State.get_set_self _ _ _, ?_⟩
    show (((Host.ArithOp.add.apply false false (g.cpu.reg base) (sextWord (off.signExtend 32))).1).setWidth 32
      : Word) = _
    rw [e, Host.Insn.setWidth_setWidth, Host.Insn.setWidth_sextWord]

theorem runs_numbers (ns : List (Fin 5 × Nat)) (hn : (ns.map Prod.fst).Nodup) (h : Host.State) :
    ∃ h1, Runs (items (ns.map (fun x => numArg x.1 x.2))) h (.through h1) ∧ Keeps h h1 ∧
      (∀ x ∈ ns, h1.get (arg x.1) = .dword (Host.State.number x.2)) ∧
      ∀ k, k ∉ ns.map Prod.fst → h1.get (arg k) = h.get (arg k) := by
  have ne : ∀ j k : Fin 5, j ≠ k → arg j ≠ arg k := by decide
  have unsaved : ∀ k : Fin 5, arg k ∉ Reg.calleeSaved := by decide
  induction ns generalizing h with
  | nil => exact ⟨h, .nil h, Keeps.refl h, by simp, fun _ _ => rfl⟩
  | cons x ns ih =>
    rw [List.map_cons, List.nodup_cons] at hn
    obtain ⟨h1, r1, k1, v1, o1⟩ := ih hn.2 (h.set (arg x.1) (Host.State.number x.2))
    refine ⟨h1, .insn rfl r1, ((Keeps.refl h).set (unsaved x.1) _).trans k1, ?_, ?_⟩
    · intro y hy
      rcases List.mem_cons.mp hy with rfl | hy
      · rw [o1 _ hn.1, Host.State.get_set_self]
      · exact v1 y hy
    · intro k hk
      rw [List.map_cons, List.mem_cons, not_or] at hk
      rw [o1 k hk.2, Host.State.get_set_of_ne _ _ (ne _ _ hk.1)]

/-- The host at the call of a helper that takes the processor state and then numbers; `h1` is what it
finds. -/
theorem runs_arguments (sim : Sim mid hollow h g) (x : Helper) (ns : List (Fin 5 × Nat))
    (hn : (0 :: ns.map Prod.fst).Nodup) :
    ∃ h1, (∀ h2, x.call h1 = some h2 →
        Runs (items (envArg :: (ns.map (fun x => numArg x.1 x.2) ++ call x))) h (.through h2)) ∧
      Keeps h h1 ∧ h1.get (arg 0) = .dword h1.base ∧
      (∀ y ∈ ns, h1.get (arg y.1) = .dword (Host.State.number y.2)) ∧
      ∀ k, k ∉ 0 :: ns.map Prod.fst → h1.get (arg k) = h.get (arg k) := by
  have ne : ∀ k : Fin 5, arg k ≠ .scratch0 := by decide
  have ne0 : ∀ k : Fin 5, k ≠ 0 → arg k ≠ arg 0 := by decide
  rw [List.nodup_cons] at hn
  obtain ⟨h1, r1, k1, v1, o1⟩ := runs_numbers ns hn.2 (h.set (arg 0) h.base)
  have k2 : Keeps h (h1.set .scratch0 x.address) :=
    (((Keeps.refl h).set (by decide) h.base).trans k1).set (by decide) _
  refine ⟨h1.set .scratch0 x.address, ?_, k2, ?_, ?_, ?_⟩
  · intro h2 e
    refine .insn (Host.Insn.perform_mov sim.serving.env) ?_
    show Runs (items (ns.map (fun x => numArg x.1 x.2) ++ call x)) _ (.through h2)
    rw [items_append]
    exact r1.append (runs_call e)
  · rw [Host.State.get_set_of_ne _ _ (ne 0), o1 0 hn.1, Host.State.get_set_self, k2.base]
  · intro y hy
    rw [Host.State.get_set_of_ne _ _ (ne y.1), v1 y hy]
  · intro k hk
    rw [List.mem_cons, not_or] at hk
    rw [Host.State.get_set_of_ne _ _ (ne k), o1 k hk.2, Host.State.get_set_of_ne _ _ (ne0 k hk.1)]

theorem runs_load (sim : Sim mid hollow h1 g) {w : Width} (hw : w ≠ .quad) {a : Dword}
    (a1 : h1.get (arg 1) = .dword a) :
    ∃ h2, Runs (items (envArg :: call (.load w))) h1 (.through h2) ∧
      Sim mid hollow h2 (g.load w (a.setWidth 32)).2 ∧
      h2.get .scratch0 = .dword (((g.load w (a.setWidth 32)).1.getD 0).setWidth 64) := by
  obtain ⟨h2, run, k2, a0, _, rest⟩ := runs_arguments sim (.load w) [] (by decide)
  have called := Helper.call_load hw a0 ((rest 1 (by decide)).trans a1)
  obtain ⟨e, sim'⟩ := (sim.keeps k2).back (Guest.aloof_load w (a.setWidth 32)) _
  refine ⟨_, run _ called, sim', ?_⟩
  rw [Host.State.get_back_scratch0]
  exact congrArg (fun v : Option Quad => Content.dword ((v.getD 0).setWidth 64)) e

theorem ensures_extendLoad (p : Placed s mid written hollow h g) {op : LoadOp} (hop : op ≠ .lq)
    (k1 : Keeps h h1) {rt : RegNum} (hw : s.insn.insn.uses.writes = regList [.gpr rt])
    (he : s.insn.insn.uses.envWrites = []) {v : Quad} (hv : h1.get .scratch0 = .dword (v.setWidth 64)) :
    Ensures (items (Site.extendLoad op ++ s.write (.gpr rt) .scratch0)) h1
      (s.Follows written (g.goOn (g.cpu.setReg rt (op.extend v)))) := by
  have extended : ∀ x : Host.Extend, Ensures (.insn (.extend x .scratch0 .scratch0) ::
      items (s.write (.gpr rt) .scratch0)) h1 (s.Follows written
        (g.goOn (g.cpu.setReg rt (x.apply ((v.setWidth 64).setWidth 32))))) := by
    intro x
    refine .insn (Host.Insn.perform_extend x hv) ?_
    exact p.ensures_setReg (k1.set (by decide) _) hw he scratch0_ne_slot (Host.State.get_set_self _ _ _)
  have low : ((v.setWidth 64 : Dword).setWidth 32 : Word) = v.setWidth 32 :=
    BitVec.setWidth_setWidth_of_le v (by decide)
  cases op with
  | lb =>
    have e := extended .signByte
    rwa [low, show Host.Extend.signByte.apply (v.setWidth 32) = LoadOp.lb.extend v from
      congrArg (BitVec.signExtend 64) (BitVec.setWidth_setWidth_of_le v (by decide))] at e
  | lh =>
    have e := extended .signHalf
    rwa [low, show Host.Extend.signHalf.apply (v.setWidth 32) = LoadOp.lh.extend v from
      congrArg (BitVec.signExtend 64) (BitVec.setWidth_setWidth_of_le v (by decide))] at e
  | lw =>
    have e := extended .signWord
    rwa [low] at e
  | lbu | lhu | lwu | ld => exact p.ensures_setReg k1 hw he scratch0_ne_slot hv
  | lq => exact absurd rfl hop

theorem code_load (p : Placed s mid written hollow h g) (quiet : g.cpu.faultPending = false) {op : LoadOp}
    (hop : op ≠ .lq) {rt base : RegNum} {off : Half} (hi : s.insn.insn = .load op rt base off) :
    Ensures s.code h (s.Follows written (g.exec s.insn)) := by
  have uses : s.insn.insn.uses = { reads := regList [.gpr base], writes := regList [.gpr rt] } := by
    rw [hi]
    cases op with
    | lq => exact absurd rfl hop
    | lb | lh | lw | lbu | lhu | lwu | ld => rfl
  have width : op.width ≠ .quad := by
    cases op with
    | lq => exact absurd rfl hop
    | lb | lh | lw | lbu | lhu | lwu | ld => decide
  have code : s.code = items (s.effectiveAddr base off) ++ (items (envArg :: call (.load op.width)) ++
      (s.checkFault ++ items (Site.extendLoad op ++ s.write (.gpr rt) .scratch0))) := by
    simp only [Site.code, hi, Site.load, if_neg hop, items_append, List.append_assoc]
    rfl
  have flow : g.exec s.insn = g.execLoad op rt (g.cpu.effectiveAddr base off) := by
    simp only [Guest.exec, hi]
  have hr : s.insn.insn.uses.reads = regList [.gpr base] := by rw [uses]
  obtain ⟨h1, a, r1, k1, a1, ha⟩ := p.runs_effectiveAddr off (reads_of hr List.mem_cons_self)
  obtain ⟨h2, r2, sim, hv⟩ := runs_load (p.sim.keeps k1) width a1
  have zero : (g.load op.width (a.setWidth 32)).2.cpu.reg 0 = 0 :=
    (congrFun (Guest.file_load g _ _) (.gpr 0)).trans p.zero
  rw [code, flow, ← ha]
  refine .append r1 (.append r2 ?_)
  unfold Guest.execLoad
  obtain ⟨mem, -, ⟨v, e⟩ | ⟨c, -, e⟩⟩ := g.load_cases op.width (a.setWidth 32)
  · rw [e] at sim hv zero ⊢
    dsimp only at hv ⊢
    rw [if_neg hop]
    refine ensures_checkFault_pass sim quiet (fun f => ?_)
    exact (p.with_sim sim zero).ensures_extendLoad hop ((Keeps.refl h2).withFlags f) (by rw [uses])
      (by rw [uses]) hv
  · rw [e] at sim ⊢
    dsimp only
    rw [Guest.recordedFault_fault]
    exact p.ensures_checkFault sim rfl rfl

theorem code_fpuLoad (p : Placed s mid written hollow h g) (quiet : g.cpu.faultPending = false)
    {ft base : RegNum} {off : Half} (hi : s.insn.insn = .fpuLoad ft base off) :
    Ensures s.code h (s.Follows written (g.exec s.insn)) := by
  have code : s.code = items (s.effectiveAddr base off) ++ (items (envArg :: call (.load .word)) ++
      (s.checkFault ++ [.insn (.store false .scratch0 .env (offset (Field.fpr ft).offset))])) := by
    simp only [Site.code, hi, items_append, List.append_assoc]
    rfl
  have flow : g.exec s.insn = g.execFpuLoad ft (g.cpu.effectiveAddr base off) := by
    simp only [Guest.exec, hi]
  have hr : s.insn.insn.uses.reads = regList [.gpr base] := by rw [hi]; rfl
  obtain ⟨h1, a, r1, k1, a1, ha⟩ := p.runs_effectiveAddr off (reads_of hr List.mem_cons_self)
  obtain ⟨h2, r2, sim, hv⟩ := runs_load (p.sim.keeps k1) (w := .word) (by decide) a1
  have zero : (g.load .word (a.setWidth 32)).2.cpu.reg 0 = 0 :=
    (congrFun (Guest.file_load g _ _) (.gpr 0)).trans p.zero
  rw [code, flow, ← ha]
  refine .append r1 (.append r2 ?_)
  unfold Guest.execFpuLoad
  obtain ⟨mem, -, ⟨v, e⟩ | ⟨c, -, e⟩⟩ := g.load_cases .word (a.setWidth 32)
  · rw [e] at sim hv zero ⊢
    dsimp only at hv ⊢
    refine ensures_checkFault_pass sim quiet (fun f => ?_)
    have sim' := (p.with_sim sim zero).unwritten ((Keeps.refl h2).withFlags f) (by rw [hi]; rfl)
      (by rw [hi]; rfl)
    have low : ((v.setWidth 64 : Dword).setWidth 32 : Word) = v.setWidth 32 :=
      BitVec.setWidth_setWidth_of_le v (by decide)
    have e' := Host.Insn.perform_store (s := h2.withFlags f) sim'.serving.env (.fpr ft) hv
    rw [show (Field.fpr ft).wide = false from rfl, if_neg (by decide)] at e'
    refine .insn e' (.nil ?_)
    rw [Option.getD_some, low]
    exact sim'.setField_fpr ft _
  · rw [e] at sim ⊢
    dsimp only
    rw [Guest.recordedFault_fault]
    exact p.ensures_checkFault sim rfl rfl

/-! ## Stores -/

/-- A store by a helper: the status that it returns, and the guest after it. -/
theorem runs_store (sim : Sim mid hollow h1 g) {w : Width} (hw : w ≠ .quad) {a v : Dword}
    (a1 : h1.get (arg 1) = .dword a) (a2 : h1.get (arg 2) = .dword v) :
    ∃ h2, Runs (items (envArg :: call (.store w))) h1 (.through h2) ∧
      Sim mid hollow h2 (g.store w (a.setWidth 32) (v.setWidth 128)).2 ∧
      h2.get .scratch0 =
        .word (BitVec.ofNat 32 (g.store w (a.setWidth 32) (v.setWidth 128)).1.toNat) := by
  obtain ⟨h2, run, k2, a0, _, rest⟩ := runs_arguments sim (.store w) [] (by decide)
  have called := Helper.call_store hw a0 ((rest 1 (by decide)).trans a1) ((rest 2 (by decide)).trans a2)
  obtain ⟨e, sim'⟩ := (sim.keeps k2).back (Guest.aloof_store w (a.setWidth 32) (v.setWidth 128)) _
  refine ⟨_, run _ called, sim', ?_⟩
  rw [Host.State.get_back_scratch0]
  exact congrArg (fun st : StoreStatus => Content.word (BitVec.ofNat 32 st.toNat)) e

theorem code_store (p : Placed s mid written hollow h g) {op : StoreOp} (hop : op ≠ .sq)
    {rt base : RegNum} {off : Half} (hi : s.insn.insn = .store op rt base off) :
    Ensures s.code h (s.Follows written (g.exec s.insn)) := by
  have uses : s.insn.insn.uses = { reads := regList [.gpr base, .gpr rt] } := by
    rw [hi]
    cases op with
    | sq => exact absurd rfl hop
    | sb | sh | sw | sd => rfl
  have width : op.width ≠ .quad := by
    cases op with
    | sq => exact absurd rfl hop
    | sb | sh | sw | sd => decide
  have code : s.code = items (s.effectiveAddr base off) ++ (.insn (s.read (arg 2) (.gpr rt)) ::
      (items (envArg :: call (.store op.width)) ++ s.checkStore)) := by
    simp only [Site.code, hi, Site.store, if_neg hop, items_append, List.append_assoc]
    rfl
  have flow : g.exec s.insn = g.execStore op.width (g.cpu.effectiveAddr base off)
      ((g.cpu.reg rt).setWidth 128) := by
    simp only [Guest.exec, hi, Guest.execStore]
    rw [Cpu.reg_eq, Guest.store_lowHalf _ width]
  have hr : s.insn.insn.uses.reads = regList [.gpr base, .gpr rt] := by rw [uses]
  obtain ⟨h1, a, r1, k1, a1, ha⟩ := p.runs_effectiveAddr off (reads_of hr List.mem_cons_self)
  obtain ⟨f, e⟩ := (p.keeps k1).perform_read
    (reads_of hr (List.mem_cons_of_mem _ List.mem_cons_self)) (arg 2)
  have k2 := (k1.withFlags f).set (show arg 2 ∉ Reg.calleeSaved by decide) (g.cpu.file (.gpr rt))
  have a1' : ((h1.withFlags f).set (arg 2) (g.cpu.file (.gpr rt))).get (arg 1) = .dword a := by
    rw [Host.State.get_set_of_ne _ _ (by decide)]
    exact a1
  obtain ⟨h3, r3, sim, hv⟩ := runs_store (p.sim.keeps k2) width a1' (Host.State.get_set_self _ _ _)
  rw [code, flow, ← ha]
  exact .append r1 (.insn e (.append r3 (p.ensures_checkStore sim hv (by rw [uses]) (by rw [uses]))))

theorem code_fpuStore (p : Placed s mid written hollow h g) {ft base : RegNum} {off : Half}
    (hi : s.insn.insn = .fpuStore ft base off) : Ensures s.code h (s.Follows written (g.exec s.insn)) := by
  have code : s.code = items (s.effectiveAddr base off) ++
      (.insn (.load false (arg 2) .env (offset (Field.fpr ft).offset)) ::
        (items (envArg :: call (.store .word)) ++ s.checkStore)) := by
    simp only [Site.code, hi, items_append, List.append_assoc]
    rfl
  have flow : g.exec s.insn =
      g.execStore .word (g.cpu.effectiveAddr base off) ((g.cpu.freg ft).setWidth 128) := by
    simp only [Guest.exec, hi]
  have hr : s.insn.insn.uses.reads = regList [.gpr base] := by rw [hi]; rfl
  obtain ⟨h1, a, r1, k1, a1, ha⟩ := p.runs_effectiveAddr off (reads_of hr List.mem_cons_self)
  have sim := p.sim.keeps k1
  have value : h1.value (.fpr ft) = (g.cpu.freg ft).setWidth 64 := by
    show (h1.guest.cpu.freg ft).setWidth 64 = _
    rw [sim.serving.guest]
    rfl
  have wide : (g.cpu.freg ft).setWidth 128 = ((g.cpu.freg ft).setWidth 64 : Dword).setWidth 128 := by
    apply BitVec.eq_of_toNat_eq
    have := (g.cpu.freg ft).isLt
    simp only [BitVec.toNat_setWidth]
    omega
  have e := Host.Insn.perform_load sim.serving.env (.fpr ft) (arg 2)
  rw [value] at e
  have k2 := k1.set (show arg 2 ∉ Reg.calleeSaved by decide) ((g.cpu.freg ft).setWidth 64)
  have a1' : (h1.set (arg 2) ((g.cpu.freg ft).setWidth 64)).get (arg 1) = .dword a := by
    rw [Host.State.get_set_of_ne _ _ (by decide)]
    exact a1
  obtain ⟨h3, r3, sim', hv⟩ := runs_store (p.sim.keeps k2) (w := .word) (by decide) a1'
    (Host.State.get_set_self _ _ _)
  rw [code, flow, ← ha, wide]
  exact .append r1 (.insn e (.append r3 (p.ensures_checkStore sim' hv (by rw [hi]; rfl) (by rw [hi]; rfl))))

/-! ## Divisions -/

theorem setWidth_pack (r : HiLo) : (r.pack.setWidth 32 : Word) = r.lo.setWidth 32 := by
  apply BitVec.eq_of_getLsbD_eq
  intro i hi
  simp [HiLo.pack, hi, show i < 64 by omega]

theorem setWidth_pack_shift (r : HiLo) : ((r.pack >>> 32).setWidth 32 : Word) = r.hi.setWidth 32 := by
  apply BitVec.eq_of_getLsbD_eq
  intro i hi
  simp [HiLo.pack, hi, show 32 + i < 64 by omega, show i < 64 by omega]

theorem division_words (op : MulDivOp) (hop : op.isMul = false) (a b : Dword) :
    ∃ lo hi : Word, op.eval a b = ⟨sextWord lo, sextWord hi⟩ := by
  cases op with
  | mult | multu => cases hop
  | div =>
    simp only [MulDivOp.eval, MulDivOp.signedDiv]
    split
    · refine ⟨if (a.setWidth 32 : Word).msb then 1 else -1, a.setWidth 32, ?_⟩
      split <;> rfl
    · exact ⟨_, _, rfl⟩
  | divu =>
    simp only [MulDivOp.eval, MulDivOp.unsignedDiv]
    split
    · exact ⟨-1, a.setWidth 32, rfl⟩
    · exact ⟨_, _, rfl⟩

/-- A division by a helper, which returns both results in one register. -/
theorem ensures_divide (p : Placed s mid written hollow h g) {op : MulDivOp} (hop : op.isMul = false)
    {x : Helper} (called : ∀ {s : Host.State} {a b : Dword}, s.get (arg 0) = .dword a →
      s.get (arg 1) = .dword b → x.call s = some (s.back s.guest (.dword (op.eval a b).pack)))
    {rs rt : RegNum} (uses : s.insn.insn.uses =
      { reads := regList [.gpr rs, .gpr rt], writes := regList [.hi, .lo] }) :
    Ensures (items (s.divide x rs rt)) h (s.Follows written (g.goOn { g.cpu with
      lo := (op.eval (g.cpu.reg rs) (g.cpu.reg rt)).lo
      hi := (op.eval (g.cpu.reg rs) (g.cpu.reg rt)).hi })) := by
  have hr : s.insn.insn.uses.reads = regList [.gpr rs, .gpr rt] := by rw [uses]
  obtain ⟨h1, r1, k1, v1, _⟩ := p.reads [(arg 0, .gpr rs), (arg 1, .gpr rt)]
    (show ∀ r ∈ [arg 0, arg 1], r ∉ Reg.calleeSaved by decide)
    (show [arg 0, arg 1].Nodup by decide)
    (by
      simp only [List.mem_cons, List.not_mem_nil, or_false]
      rintro x (rfl | rfl)
      · exact reads_of hr (by simp)
      · exact reads_of hr (by simp))
  have a0 : (h1.set .scratch0 x.address).get (arg 0) = .dword (g.cpu.reg rs) := by
    rw [Host.State.get_set_of_ne _ _ (by decide)]
    exact v1 _ List.mem_cons_self
  have a1 : (h1.set .scratch0 x.address).get (arg 1) = .dword (g.cpu.reg rt) := by
    rw [Host.State.get_set_of_ne _ _ (by decide)]
    exact v1 (arg 1, .gpr rt) (List.mem_cons_of_mem _ List.mem_cons_self)
  have r2 := runs_call (called a0 a1)
  have k2 : Keeps h ((h1.set .scratch0 x.address).back (h1.set .scratch0 x.address).guest
      (.dword (op.eval (g.cpu.reg rs) (g.cpu.reg rt)).pack)) := by
    have k := k1.set (show Reg.scratch0 ∉ Reg.calleeSaved by decide) x.address
    refine k.trans ⟨Host.State.guest_back _ _ _, Host.State.base_back _ _ _, Host.State.spill_back _ _ _, ?_⟩
    exact fun r hr => Host.State.get_back_of_saved _ _ _ hr
  obtain ⟨h3, r3, k3, lo, hi'⟩ := runs_splitHiLo (Host.State.get_back_scratch0
    (h1.set .scratch0 x.address) (h1.set .scratch0 x.address).guest
    (.dword (op.eval (g.cpu.reg rs) (g.cpu.reg rt)).pack))
  obtain ⟨wl, wh, words⟩ := division_words op hop (g.cpu.reg rs) (g.cpu.reg rt)
  rw [sext32, setWidth_pack] at lo
  rw [sext32, setWidth_pack_shift] at hi'
  have hw : s.insn.insn.uses.writes = regList [.gpr 0, .hi, .lo] := by rw [uses]; rfl
  have result := p.ensures_mulResult (k2.trans k3) (op.eval (g.cpu.reg rs) (g.cpu.reg rt)) hw (by rw [uses])
    (by rw [lo, words]; simp only [Host.Insn.setWidth_sextWord])
    (by rw [hi', words]; simp only [Host.Insn.setWidth_sextWord])
  have split : items (s.divide x rs rt) = items [s.read (arg 0) (.gpr rs), s.read (arg 1) (.gpr rt)] ++
      (items (call x) ++ (items splitHiLo ++ items (s.write .hi .scratch2 ++ (s.write .lo .scratch0 ++
        s.write (.gpr 0) .scratch0)))) := by
    unfold Site.divide
    simp only [items_append, List.append_assoc]
    rw [show s.write (.gpr 0) .scratch0 = [] from rfl]
    simp [items]
  rw [split]
  exact .append r1 (.append r2 (.append r3 result))

theorem code_divide (p : Placed s mid written hollow h g) {op : MulDivOp} (hop : op.isMul = false)
    {rd rs rt : RegNum} (hi : s.insn.insn = .mulDiv op rd rs rt) :
    Ensures s.code h (s.Follows written (g.exec s.insn)) := by
  have flow : g.exec s.insn = g.goOn { g.cpu with
      lo := (op.eval (g.cpu.reg rs) (g.cpu.reg rt)).lo
      hi := (op.eval (g.cpu.reg rs) (g.cpu.reg rt)).hi } := by
    simp only [Guest.exec, hi, hop]
    rfl
  cases op with
  | mult | multu => cases hop
  | div =>
    have code : s.code = items (s.divide .div rs rt) := by simp only [Site.code, hi, Site.mulDiv]
    rw [code, flow]
    exact p.ensures_divide hop Helper.call_div (by rw [hi]; rfl)
  | divu =>
    have code : s.code = items (s.divide .divu rs rt) := by simp only [Site.code, hi, Site.mulDiv]
    rw [code, flow]
    exact p.ensures_divide hop Helper.call_divu (by rw [hi]; rfl)

/-! ## System control -/

/-- The guest after an operation on the processor that leaves the guest values alone. -/
theorem zero_onCpu {α : Type} (p : Placed s mid written hollow h g) {op : Cpu → α × Cpu}
    (ha : Cpu.Aloof op) : (Guest.onCpu op g).2.cpu.reg 0 = 0 :=
  (congrFun (Cpu.file_of_aloof ha g.cpu) (.gpr 0)).trans p.zero

theorem code_mfc0 (p : Placed s mid written hollow h g) (quiet : g.cpu.faultPending = false)
    {rt rd : RegNum} (hi : s.insn.insn = .cop0Move .mfc0 rt rd) :
    Ensures s.code h (s.Follows written (g.exec s.insn)) := by
  have code : s.code = items (envArg :: ([(1, rd.val)].map (fun x => numArg x.1 x.2) ++ call .mfc0)) ++
      (s.checkFault ++ (.insn signExtend :: items (s.write (.gpr rt) .scratch0))) := by
    simp only [Site.code, hi, List.append_assoc]
    rfl
  obtain ⟨h1, run, k1, a0, v1, _⟩ := runs_arguments p.sim .mfc0 [(1, rd.val)] (by simp)
  have called := Helper.call_mfc0 a0 (v1 _ List.mem_cons_self)
  obtain ⟨e, sim⟩ := (p.sim.keeps k1).back (Guest.aloof_onCpu (Cpu.aloof_mfc0 rd))
    (.dword (((h1.guest.cpu.mfc0 rd).1.getD 0).setWidth 64))
  have hv := Host.State.get_back_scratch0 h1 (Guest.onCpu (fun c => c.mfc0 rd) h1.guest).2
    (.dword (((h1.guest.cpu.mfc0 rd).1.getD 0).setWidth 64))
  have zero := p.zero_onCpu (Cpu.aloof_mfc0 rd)
  change (g.cpu.mfc0 rd).2.reg 0 = 0 at zero
  have same : (h1.guest.cpu.mfc0 rd).1 = (g.cpu.mfc0 rd).1 := e
  rw [code]
  refine .append (run _ called) ?_
  rw [same] at hv sim ⊢
  change Sim mid hollow _ { g with cpu := (g.cpu.mfc0 rd).2 } at sim
  simp only [Guest.exec, hi]
  cases hu : g.cpu.cop0Usable with
  | true =>
    have done : g.cpu.mfc0 rd = (some (g.cpu.creg rd), g.cpu) := by unfold Cpu.mfc0; rw [hu]; rfl
    rw [done] at hv sim zero ⊢
    refine ensures_checkFault_pass sim quiet (fun f => ?_)
    have written := (p.with_sim sim zero).ensures_signExtend ((Keeps.refl _).withFlags f)
      (by rw [hi]; rfl) (by rw [hi]; rfl) hv
    rwa [Option.getD_some, sext32, Host.Insn.setWidth_setWidth] at written
  | false =>
    have failed : g.cpu.mfc0 rd = (none, g.cpu.raiseUnusable) := by unfold Cpu.mfc0; rw [hu]; rfl
    rw [failed] at sim ⊢
    dsimp only
    rw [Guest.recordedFault_of (show g.cpu.raiseUnusable.excCode =
      ExcCode.coprocessorUnusable.toWord from rfl)]
    exact p.ensures_checkFault sim rfl rfl

theorem ensures_privileged (p : Placed s mid written hollow h g) (k1 : Keeps h h1)
    {op : Cpu → Bool × Cpu} (ha : Cpu.Aloof op) {after : Flow} (go : after = .next ∨ after = .redirect)
    (failed : (op g.cpu).1 = false → (op g.cpu).2.excCode = ExcCode.coprocessorUnusable.toWord)
    (hw : s.insn.insn.uses.writes = []) (he : s.insn.insn.uses.envWrites = []) :
    Ensures s.checkDone (h1.back (Guest.onCpu op h1.guest).2 (Host.done (op h1.guest.cpu).1))
      (s.Follows written (g.execPrivileged after (op g.cpu))) := by
  obtain ⟨e, sim⟩ := (p.sim.keeps k1).back (Guest.aloof_onCpu ha) (Host.done (op h1.guest.cpu).1)
  have hv := Host.State.get_back_scratch0 h1 (Guest.onCpu op h1.guest).2 (Host.done (op h1.guest.cpu).1)
  have zero := p.zero_onCpu ha
  have same : (op h1.guest.cpu).1 = (op g.cpu).1 := e
  rw [same] at hv sim ⊢
  unfold Guest.onCpu at sim zero
  unfold Guest.execPrivileged
  cases hop : op g.cpu with
  | mk ok cpu =>
    rw [hop] at hv sim zero failed
    cases ok with
    | true =>
      refine ensures_checkDone_pass hv (fun f => ?_)
      have sim' := (p.with_sim sim zero).unwritten ((Keeps.refl _).withFlags f) hw he
      rcases go with rfl | rfl
      · exact sim'
      · exact sim'
    | false =>
      have hc : ({ g with cpu } : Guest).cpu.excCode = ExcCode.coprocessorUnusable.toWord := failed rfl
      dsimp only
      rw [Guest.recordedFault_of hc]
      exact p.ensures_checkDone sim hv hc

theorem code_mtc0 (p : Placed s mid written hollow h g) {rt rd : RegNum}
    (hi : s.insn.insn = .cop0Move .mtc0 rt rd) : Ensures s.code h (s.Follows written (g.exec s.insn)) := by
  have code : s.code = items [s.read (arg 2) (.gpr rt)] ++
      (items (envArg :: ([(1, rd.val)].map (fun x => numArg x.1 x.2) ++ call .mtc0)) ++ s.checkDone) := by
    simp only [Site.code, hi]
    rfl
  have flow : g.exec s.insn =
      g.execPrivileged .next (g.cpu.mtc0 rd ((g.cpu.reg rt).setWidth 32)) := by
    simp only [Guest.exec, hi]
  have failed : (g.cpu.mtc0 rd ((g.cpu.reg rt).setWidth 32)).1 = false →
      (g.cpu.mtc0 rd ((g.cpu.reg rt).setWidth 32)).2.excCode = ExcCode.coprocessorUnusable.toWord := by
    unfold Cpu.mtc0
    split
    · intro e
      cases e
    · intro _
      rfl
  have hr : s.insn.insn.uses.reads = regList [.gpr rt] := by rw [hi]; rfl
  obtain ⟨h1, r1, k1, v1⟩ := p.read1 (reads_of hr List.mem_cons_self) (arg 2) (by decide)
  obtain ⟨h2, run, k2, a0, n2, rest⟩ := runs_arguments (p.sim.keeps k1) .mtc0 [(1, rd.val)]
    (by simp)
  have called := Helper.call_mtc0 a0 (n2 _ List.mem_cons_self) ((rest 2 (by simp)).trans v1)
  rw [code, flow]
  exact .append r1 (.append (run _ called) (p.ensures_privileged (k1.trans k2)
    (Cpu.aloof_mtc0 rd _) (Or.inl rfl) failed (by rw [hi]; rfl) (by rw [hi]; rfl)))

theorem code_eret (p : Placed s mid written hollow h g) (hi : s.insn.insn = .eret) :
    Ensures s.code h (s.Follows written (g.exec s.insn)) := by
  have code : s.code = items (envArg :: ([].map (fun x : Fin 5 × Nat => numArg x.1 x.2) ++ call .eret)) ++
      s.checkDone := by
    simp only [Site.code, hi]
    rfl
  have flow : g.exec s.insn = g.execPrivileged .redirect g.cpu.eret := by
    simp only [Guest.exec, hi]
  have failed : g.cpu.eret.1 = false → g.cpu.eret.2.excCode = ExcCode.coprocessorUnusable.toWord := by
    unfold Cpu.eret
    split
    · intro e
      split at e <;> cases e
    · intro _
      rfl
  obtain ⟨h1, run, k1, a0, _, _⟩ := runs_arguments p.sim .eret [] (by decide)
  rw [code, flow]
  exact .append (run _ (Helper.call_eret a0)) (p.ensures_privileged k1 Cpu.aloof_eret (Or.inr rfl) failed
    (by rw [hi]; rfl) (by rw [hi]; rfl))

theorem ensures_setEie (p : Placed s mid written hollow h g) (enable : Bool)
    (uses : s.insn.insn.uses = {}) :
    Ensures (items ([envArg, numArg 1 enable.toNat] ++ call .setEie) ++ s.checkDone) h
      (s.Follows written (g.execPrivileged .next (g.cpu.setEie enable))) := by
  have failed : (g.cpu.setEie enable).1 = false →
      (g.cpu.setEie enable).2.excCode = ExcCode.coprocessorUnusable.toWord := by
    unfold Cpu.setEie
    split
    · intro e
      split at e <;> cases e
    · intro _
      rfl
  obtain ⟨h1, run, k1, a0, n1, _⟩ := runs_arguments p.sim .setEie [(1, enable.toNat)] (by simp)
  exact .append (run _ (Helper.call_setEie a0 (n1 _ List.mem_cons_self))) (p.ensures_privileged k1
    (Cpu.aloof_setEie enable) (Or.inl rfl) failed (by rw [uses]) (by rw [uses]))

theorem code_ei (p : Placed s mid written hollow h g) (hi : s.insn.insn = .ei) :
    Ensures s.code h (s.Follows written (g.exec s.insn)) := by
  have e := p.ensures_setEie true (by rw [hi]; rfl)
  simp only [Site.code, Guest.exec, hi]
  exact e

theorem code_di (p : Placed s mid written hollow h g) (hi : s.insn.insn = .di) :
    Ensures s.code h (s.Follows written (g.exec s.insn)) := by
  have e := p.ensures_setEie false (by rw [hi]; rfl)
  simp only [Site.code, Guest.exec, hi]
  exact e

/-! ## Floating point -/

/-- After the call of an operation on the processor that cannot fail. -/
theorem follows_onCpu (p : Placed s mid written hollow h g) (k1 : Keeps h h1) {op : Cpu → Unit × Cpu}
    (ha : Cpu.Aloof op) (hw : s.insn.insn.uses.writes = []) (he : s.insn.insn.uses.envWrites = []) :
    s.Follows written (g.goOn (op g.cpu).2)
      (.through (h1.back (Guest.onCpu op h1.guest).2 .unknown)) := by
  obtain ⟨_, sim⟩ := (p.sim.keeps k1).back (Guest.aloof_onCpu ha) .unknown
  exact (p.with_sim sim (p.zero_onCpu ha)).unwritten (Keeps.refl _) hw he

theorem code_fpuArith (p : Placed s mid written hollow h g) {op : FpuOp} {fd fs ft : RegNum}
    (hi : s.insn.insn = .fpuArith op fd fs ft) : Ensures s.code h (s.Follows written (g.exec s.insn)) := by
  have code : s.code = items (envArg :: ([(1, op.toNat), (2, fd.val), (3, fs.val), (4, ft.val)].map
      (fun x : Fin 5 × Nat => numArg x.1 x.2) ++ call .fpuArith)) ++ [] := by
    simp only [Site.code, hi, List.append_nil]
    rfl
  obtain ⟨h1, run, k1, a0, n1, _⟩ := runs_arguments p.sim .fpuArith
    [(1, op.toNat), (2, fd.val), (3, fs.val), (4, ft.val)] (show ([0, 1, 2, 3, 4] : List (Fin 5)).Nodup by decide)
  have called := Helper.call_fpuArith a0 (n1 (1, op.toNat) (by simp)) (n1 (2, fd.val) (by simp))
    (n1 (3, fs.val) (by simp)) (n1 (4, ft.val) (by simp))
  have flow : g.exec s.insn = g.goOn (g.cpu.fpuArith op fd fs ft) := by simp only [Guest.exec, hi]
  rw [code, flow]
  exact .append (run _ called)
    (.nil (p.follows_onCpu k1 (Cpu.aloof_fpuArith op fd fs ft) (by rw [hi]; rfl) (by rw [hi]; rfl)))

theorem code_fpuCompare (p : Placed s mid written hollow h g) {cond : FpuCond} {fs ft : RegNum}
    (hi : s.insn.insn = .fpuCompare cond fs ft) :
    Ensures s.code h (s.Follows written (g.exec s.insn)) := by
  have code : s.code = items (envArg :: ([(1, cond.toNat), (2, fs.val), (3, ft.val)].map
      (fun x : Fin 5 × Nat => numArg x.1 x.2) ++ call .fpuCompare)) ++ [] := by
    simp only [Site.code, hi, List.append_nil]
    rfl
  obtain ⟨h1, run, k1, a0, n1, _⟩ := runs_arguments p.sim .fpuCompare
    [(1, cond.toNat), (2, fs.val), (3, ft.val)] (show ([0, 1, 2, 3] : List (Fin 5)).Nodup by decide)
  have called := Helper.call_fpuCompare a0 (n1 (1, cond.toNat) (by simp)) (n1 (2, fs.val) (by simp))
    (n1 (3, ft.val) (by simp))
  have flow : g.exec s.insn = g.goOn (g.cpu.fpuCompare cond fs ft) := by simp only [Guest.exec, hi]
  rw [code, flow]
  exact .append (run _ called)
    (.nil (p.follows_onCpu k1 (Cpu.aloof_fpuCompare cond fs ft) (by rw [hi]; rfl) (by rw [hi]; rfl)))

/-! ## Whole registers -/

/-- A register that the plan keeps current in the register file is there as the guest has it. -/
theorem regQuad_eq (sim : Sim mid hollow h1 g) {r : RegNum} (clean : (mid.value (.gpr r)).dirty = false) :
    h1.guest.cpu.regQuad r = g.cpu.regQuad r := by
  have file : h1.guest.cpu.file (.gpr r) = g.cpu.file (.gpr r) :=
    Content.dword.inj (sim.tracks.clean (.gpr r) clean)
  have e := congrArg (fun x : Guest => x.cpu.regQuad r) sim.serving.guest
  rw [show (g.withFile h1.guest.cpu.file).cpu.regQuad r = joinHalves (highHalf (g.cpu.regQuad r))
    (h1.guest.cpu.file (.gpr r)) from Cpu.regQuad_withFile _ _ _, file] at e
  exact e.trans (joinHalves_halves _)

end Code.Placed

namespace Code.Seated

variable {s : Site} {mid written : Plan.State} {hollow : List GuestReg} {h h1 : Host.State} {g : Guest}

/-- What a helper reads in the register file is clean there; register 0 is never elsewhere. -/
theorem clean_of (p : Seated s mid written hollow h g) {rs : List GuestReg}
    (hu : s.insn.insn.uses.envReads = regList rs) {r : RegNum} (hr : .gpr r ∈ rs) :
    (mid.value (.gpr r)).dirty = false := by
  by_cases h0 : r = 0
  · subst h0
    rw [p.mid_valid.zero]
  · apply p.env
    rw [hu, mem_regList]
    exact ⟨hr, by simpa using h0⟩

/-- After a helper has written all of a register in the register file, the host stands for the guest with
that register. -/
theorem wroteQuad (p : Seated s mid written hollow h g) (hw : s.insn.insn.uses.writes = []) {rd : RegNum}
    (he : s.insn.insn.uses.envWrites = regList [.gpr rd]) {v : Quad} (c : Content) :
    Sim written [] (h.back { h.guest with cpu := h.guest.cpu.setRegQuad rd v } c)
      { g with cpu := g.cpu.setRegQuad rd v } := by
  by_cases h0 : rd = 0
  · subst h0
    exact p.unwritten ⟨h.guest_back _ c, h.base_back _ c, h.spill_back _ c,
      fun r hr => h.get_back_of_saved _ c hr⟩ hw he
  have guest : ({ h.guest with cpu := h.guest.cpu.setRegQuad rd v } : Guest) =
      ({ g with cpu := g.cpu.setRegQuad rd v } : Guest).withFile
        (Function.update h.guest.cpu.file (.gpr rd) (lowHalf v)) := by
    have e := congrArg (fun x : Guest => { x with cpu := x.cpu.setRegQuad rd v }) p.sim.serving.guest
    refine e.trans ?_
    unfold Guest.withFile
    dsimp only
    rw [Cpu.setRegQuad_withFile _ h0]
  have mem (r : GuestReg) : r ∈ s.insn.insn.uses.envWrites ↔ r = .gpr rd ∧ rd ≠ 0 := by
    rw [he, mem_regList, List.mem_singleton, and_congr_right_iff]
    rintro rfl
    simp
  have file (cpu : Cpu) (r : GuestReg) : Content.dword ((cpu.setRegQuad rd v).file r) =
      .dword (if r ∈ s.insn.insn.uses.envWrites then lowHalf v else cpu.file r) := by
    rw [Cpu.file_setRegQuad]
    simp only [mem]
  have home (r : GuestReg) : (h.back { h.guest with cpu := h.guest.cpu.setRegQuad rd v } c).copies.home r =
      .dword (if r ∈ s.insn.insn.uses.envWrites then lowHalf v else h.guest.cpu.file r) :=
    file h.guest.cpu r
  refine ⟨⟨?_, ?_⟩, ?_⟩
  · rw [h.get_back_of_saved _ c (by decide), h.base_back]
    exact p.sim.serving.env
  · rw [h.guest_back, guest, Guest.cpu_withFile, Cpu.file_withFile]
  · refine Tracks.noted p.sim.tracks p.mid_valid p.value (fun r hr => (p.unread r hr).1) ?_ ?_ ?_ ?_ ?_ ?_
      ?_
    · intro r hr
      rw [hw] at hr
      cases hr
    · intro r _ hr
      exact (file g.cpu r).trans (by rw [if_neg hr]; rfl)
    · intro r hr
      rw [hw] at hr
      cases hr
    · intro k _
      exact h.get_back_of_saved _ c (Slot.reg_mem_calleeSaved k)
    · intro r hr
      rw [home, if_pos hr]
      exact ((file g.cpu r).trans (by rw [if_pos hr])).symm
    · intro r hr
      rw [home, if_neg hr]
      rfl
    · funext r
      show Content.dword ((h.back _ c).spill.get _) = Content.dword (h.spill.get _)
      rw [h.spill_back]

theorem code_mmi (p : Seated s mid written hollow h g) {op : MmiOp} {rd rs rt : RegNum}
    (hi : s.insn.insn = .mmi op rd rs rt) : Ensures s.code h (s.Follows written (g.exec s.insn)) := by
  have code : s.code = items (envArg :: ([(1, op.toNat), (2, rd.val), (3, rs.val), (4, rt.val)].map
      (fun x : Fin 5 × Nat => numArg x.1 x.2) ++ call .mmi)) ++ [] := by
    simp only [Site.code, hi, List.append_nil]
    rfl
  obtain ⟨h1, run, k1, a0, n1, _⟩ := Placed.runs_arguments p.sim .mmi
    [(1, op.toNat), (2, rd.val), (3, rs.val), (4, rt.val)] (show ([0, 1, 2, 3, 4] : List (Fin 5)).Nodup by decide)
  have called := Helper.call_mmi a0 (n1 (1, op.toNat) (by simp)) (n1 (2, rd.val) (by simp))
    (n1 (3, rs.val) (by simp)) (n1 (4, rt.val) (by simp))
  have flow : g.exec s.insn =
      g.goOn (g.cpu.setRegQuad rd (op.eval (g.cpu.regQuad rs) (g.cpu.regQuad rt))) := by
    simp only [Guest.exec, hi]
  have reads : s.insn.insn.uses.envReads = regList [.gpr rs, .gpr rt] := by rw [hi]; rfl
  have sim := p.sim.keeps k1
  rw [code, flow, ← Placed.regQuad_eq sim (p.clean_of reads (by simp)),
    ← Placed.regQuad_eq sim (p.clean_of reads (by simp))]
  exact .append (run _ called) (.nil ((p.keeps k1).wroteQuad (by rw [hi]; rfl) (by rw [hi]; rfl) _))

theorem ensures_storeQuad (p : Seated s mid written hollow h g) {rt base : RegNum} {off : Half}
    (hi : s.insn.insn = .store .sq rt base off) {a : Dword} {h1 : Host.State}
    (r1 : Runs (items (s.effectiveAddr base off)) h (.through h1)) (k1 : Keeps h h1)
    (a1 : h1.get (arg 1) = .dword a) :
    Ensures s.code h (s.Follows written (g.execStore .quad (a.setWidth 32) (g.cpu.regQuad rt))) := by
  have code : s.code = items (s.effectiveAddr base off) ++ (.insn (numArg 2 rt.val) ::
      (items (envArg :: ([].map (fun x : Fin 5 × Nat => numArg x.1 x.2) ++ call (.store .quad))) ++
        s.checkStore)) := by
    simp only [Site.code, hi, Site.store, items_append, List.append_assoc]
    rfl
  have reads : s.insn.insn.uses.envReads = regList [.gpr rt] := by rw [hi]; rfl
  have k2 := k1.set (show arg 2 ∉ Reg.calleeSaved by decide) (Host.State.number rt.val)
  have a1' : (h1.set (arg 2) (Host.State.number rt.val)).get (arg 1) = .dword a := by
    rw [Host.State.get_set_of_ne _ _ (by decide)]
    exact a1
  obtain ⟨h3, run, k3, a0, _, rest⟩ := Placed.runs_arguments (p.sim.keeps k2) (.store .quad) [] (by decide)
  have sim := p.sim.keeps (k2.trans k3)
  have called := Helper.call_storeQuad a0 ((rest 1 (by decide)).trans a1')
    ((rest 2 (by decide)).trans (Host.State.get_set_self _ _ _))
  rw [Placed.regQuad_eq sim (p.clean_of reads (by simp))] at called
  obtain ⟨e, sim'⟩ := sim.back (Guest.aloof_store .quad (a.setWidth 32) (g.cpu.regQuad rt))
    (.word (BitVec.ofNat 32 (h3.guest.store .quad (a.setWidth 32) (g.cpu.regQuad rt)).1.toNat))
  have hv := Host.State.get_back_scratch0 h3 (h3.guest.store .quad (a.setWidth 32) (g.cpu.regQuad rt)).2
    (.word (BitVec.ofNat 32 (h3.guest.store .quad (a.setWidth 32) (g.cpu.regQuad rt)).1.toNat))
  have status : Content.word (BitVec.ofNat 32
      (h3.guest.store .quad (a.setWidth 32) (g.cpu.regQuad rt)).1.toNat) =
      .word (BitVec.ofNat 32 (g.store .quad (a.setWidth 32) (g.cpu.regQuad rt)).1.toNat) :=
    congrArg (fun st : StoreStatus => Content.word (BitVec.ofNat 32 st.toNat)) e
  rw [code]
  exact .append r1 (.insn rfl (.append (run _ called) (p.ensures_checkStore sim' (hv.trans status)
    (by rw [hi]; rfl) (by rw [hi]; rfl))))

end Code.Seated

namespace Code.Placed

variable {s : Site} {mid written : Plan.State} {hollow : List GuestReg} {h h1 : Host.State} {g : Guest}

theorem code_loadQuad (p : Placed s mid written hollow h g) (quiet : g.cpu.faultPending = false)
    {rt base : RegNum} {off : Half} (hi : s.insn.insn = .load .lq rt base off) :
    Ensures s.code h (s.Follows written (g.exec s.insn)) := by
  have code : s.code = items (s.effectiveAddr base off) ++ (items (envArg ::
      ([(2, rt.val)].map (fun x => numArg x.1 x.2) ++ call (.load .quad))) ++ (s.checkFault ++ [])) := by
    simp only [Site.code, hi, Site.load, items_append, List.append_assoc, List.append_nil]
    rfl
  have flow : g.exec s.insn = g.execLoad .lq rt (g.cpu.effectiveAddr base off) := by
    simp only [Guest.exec, hi]
  have hr : s.insn.insn.uses.reads = regList [.gpr base] := by rw [hi]; rfl
  obtain ⟨h1, a, r1, k1, a1, ha⟩ := p.runs_effectiveAddr off (reads_of hr List.mem_cons_self)
  obtain ⟨h2, run, k2, a0, n2, rest⟩ := runs_arguments (p.sim.keeps k1) (.load .quad) [(2, rt.val)]
    (by simp)
  have called := Helper.call_loadQuad a0 ((rest 1 (by simp)).trans a1) (n2 _ List.mem_cons_self)
  have k := k1.trans k2
  obtain ⟨e1, sim⟩ := (p.sim.keeps k).back (Guest.aloof_load .quad (a.setWidth 32)) .unknown
  have zero : (g.load .quad (a.setWidth 32)).2.cpu.reg 0 = 0 :=
    (congrFun (Guest.file_load g _ _) (.gpr 0)).trans p.zero
  rw [code, flow, ← ha]
  refine .append r1 (.append (run _ called) ?_)
  unfold Guest.execLoad
  -- The host's guest is loaded from first, and then the register is written in it.
  cases hl : h2.guest.load .quad (a.setWidth 32) with
  | mk value loaded =>
    rw [hl] at e1 sim
    change value = (g.load .quad (a.setWidth 32)).1 at e1
    obtain ⟨mem, -, ⟨v, e⟩ | ⟨c, -, e⟩⟩ := g.load_cases .quad (a.setWidth 32)
    · rw [e] at e1 sim zero
      rw [show LoadOp.lq.width = .quad from rfl, e, e1]
      have k3 : Keeps (h2.back loaded .unknown) { h2 with guest := loaded } :=
        ⟨(h2.guest_back _ _).symm, (h2.base_back _ _).symm, (h2.spill_back _ _).symm,
          fun r hr => (h2.get_back_of_saved _ _ hr).symm⟩
      have sim' : Sim written [] (h2.back { loaded with cpu := loaded.cpu.setRegQuad rt v } .unknown)
          { g with cpu := g.cpu.setRegQuad rt v, mem } :=
        (p.with_sim (sim.keeps k3) zero).wroteQuad (by rw [hi]; rfl) (by rw [hi]; rfl) .unknown
      have pending : (g.cpu.setRegQuad rt v).faultPending = false := by
        unfold Cpu.setRegQuad
        split
        · exact quiet
        · exact quiet
      refine ensures_checkFault_pass sim' pending (fun f => .nil ?_)
      exact sim'.keeps ((Keeps.refl _).withFlags f)
    · rw [e] at e1 sim
      rw [show LoadOp.lq.width = .quad from rfl, e, e1]
      dsimp only
      rw [Guest.recordedFault_fault]
      exact p.ensures_checkFault sim rfl rfl

theorem code_storeQuad (p : Placed s mid written hollow h g) {rt base : RegNum} {off : Half}
    (hi : s.insn.insn = .store .sq rt base off) :
    Ensures s.code h (s.Follows written (g.exec s.insn)) := by
  have flow : g.exec s.insn =
      g.execStore .quad (g.cpu.effectiveAddr base off) (g.cpu.regQuad rt) := by
    simp only [Guest.exec, hi]
    rfl
  have hr : s.insn.insn.uses.reads = regList [.gpr base] := by rw [hi]; rfl
  obtain ⟨h1, a, r1, k1, a1, ha⟩ := p.runs_effectiveAddr off (reads_of hr List.mem_cons_self)
  rw [flow, ← ha]
  exact p.ensures_storeQuad hi r1 k1 a1

end Code.Placed

end EmotionEngine
