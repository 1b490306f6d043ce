import EmotionEngine.Proofs.Code.Native

/-!
The code of branches, jumps and traps, and of moves from and to the floating point registers. A branch
copies its operands before the link is written, compares, and stores where control goes; a likely branch
that is not taken leaves the block.

Main statement: for every such instruction the code follows the flow of the instruction
(`Placed.code_branch` and the theorems after it).
-/

namespace EmotionEngine

open Host (Content Keeps Reg Slot Cond)

namespace Host

theorem holds_le_cmp {n : Nat} (a b : BitVec n) :
    Cond.le.holds (ArithOp.cmp.eval false a b).2 = a.sle b := by
  have e : Cond.le.holds (ArithOp.cmp.eval false a b).2 =
      (Cond.e.holds (ArithOp.cmp.eval false a b).2 || Cond.l.holds (ArithOp.cmp.eval false a b).2) := rfl
  rw [e, holds_e_cmp, holds_l_cmp, BitVec.slt_eq_decide, BitVec.sle_eq_decide, Bool.eq_iff_iff]
  simp only [Bool.or_eq_true, beq_iff_eq, decide_eq_true_eq]
  rw [← BitVec.toInt_inj]
  omega

end Host

/-- The condition of a branch after a comparison is the condition on the flags. -/
theorem BranchCond.holds_host (c : BranchCond) (a b : Dword) (hb : c.usesRt = false → b = 0) :
    c.host.holds (Host.ArithOp.cmp.eval false a b).2 = c.holds a b := by
  cases c with
  | eq => exact Host.holds_e_cmp a b
  | ne => exact congrArg (! ·) (Host.holds_e_cmp a b)
  | lez =>
    rw [hb rfl]
    exact Host.holds_le_cmp a 0
  | gtz =>
    rw [hb rfl]
    refine (congrArg (! ·) (Host.holds_le_cmp a 0)).trans ?_
    show (!a.sle 0) = (0 : Dword).slt a
    rw [BitVec.sle_eq_decide, BitVec.slt_eq_decide, Bool.eq_iff_iff]
    simp
  | ltz =>
    rw [hb rfl]
    exact Host.holds_l_cmp a 0
  | gez =>
    rw [hb rfl]
    refine (congrArg (! ·) (Host.holds_l_cmp a 0)).trans ?_
    show (!a.slt 0) = (0 : Dword).sle a
    rw [BitVec.sle_eq_decide, BitVec.slt_eq_decide, Bool.eq_iff_iff]
    simp

/-- Only what a condition uses of the second register counts. -/
theorem BranchCond.holds_eq (c : BranchCond) (a b b' : Dword) (h : c.usesRt = true → b = b') :
    c.holds a b = c.holds a b' := by
  cases c with
  | eq => rw [h rfl]
  | ne => rw [h rfl]
  | lez | gtz | ltz | gez => rfl

namespace Sim

variable {st : Plan.State} {hollow : List GuestReg} {h : Host.State} {g : Guest}

theorem setField (s : Sim st hollow h g) (f : Field) (v : Dword) {g' : Guest}
    (guest : (h.setField f v).guest = g'.withFile h.guest.cpu.file)
    (file : g'.cpu.file = g.cpu.file) (spill : (h.setField f v).spill = h.spill) :
    Sim st hollow (h.setField f v) g' :=
  s.of_guest guest file (Host.State.base_setField h f v) spill
    (fun r _ => Host.State.get_setField h f v r)

theorem setField_pc (s : Sim st hollow h g) (w : Word) :
    Sim st hollow (h.setField .pc (w.setWidth 64)) { g with cpu := { g.cpu with pc := w } } := by
  refine s.setField .pc _ ?_ rfl rfl
  have e := congrArg (fun x : Guest => { x with cpu := { x.cpu with pc := w } }) s.serving.guest
  show ({ h.guest with cpu := { h.guest.cpu with pc := (w.setWidth 64).setWidth 32 } } : Guest) = _
  rw [Host.Insn.setWidth_setWidth]
  exact e

theorem setField_fcr31 (s : Sim st hollow h g) (w : Word) :
    Sim st hollow (h.setField .fcr31 (w.setWidth 64)) { g with cpu := { g.cpu with fcr31 := w } } := by
  refine s.setField .fcr31 _ ?_ rfl rfl
  have e := congrArg (fun x : Guest => { x with cpu := { x.cpu with fcr31 := w } }) s.serving.guest
  show ({ h.guest with cpu := { h.guest.cpu with fcr31 := (w.setWidth 64).setWidth 32 } } : Guest) = _
  rw [Host.Insn.setWidth_setWidth]
  exact e

theorem setField_fpr (s : Sim st hollow h g) (r : RegNum) (w : Word) :
    Sim st hollow (h.setField (.fpr r) (w.setWidth 64)) { g with cpu := g.cpu.setFreg r w } := by
  refine s.setField (.fpr r) _ ?_ rfl rfl
  have e := congrArg (fun x : Guest => { x with cpu := x.cpu.setFreg r w }) s.serving.guest
  show ({ h.guest with cpu := h.guest.cpu.setFreg r ((w.setWidth 64).setWidth 32) } : Guest) = _
  rw [Host.Insn.setWidth_setWidth]
  exact e

end Sim

namespace Code.Placed

variable {s : Site} {mid written : Plan.State} {hollow : List GuestReg} {h h1 : Host.State} {g : Guest}

/-! ## Where control goes -/

theorem ensures_outcome (p : Placed s mid written hollow h g) {g' : Guest} {h1 : Host.State}
    (sim : Sim written [] h1 g') {f : Host.Flags} (hf : h1.flags = some f) (c : Cond) (target : Word)
    (likely : Bool) :
    Ensures (s.outcome c target likely) h1
      (s.Follows written (g'.execBranch s.insn.addr target (c.holds f) likely)) := by
  have holds : ∀ c : Cond, h1.holds? c = some (c.holds f) := by
    intro c
    unfold Host.State.holds?
    rw [hf]
    rfl
  cases likely with
  | true =>
    unfold Site.outcome Guest.execBranch
    cases hc : c.holds f with
    | true =>
      refine .pass (by rw [holds, Cond.holds_invert, hc]; rfl) ?_
      exact .insn (Host.Insn.perform_storeImm sim.serving.env (f := .pc) rfl target)
        (.nil (sim.setField_pc target))
    | false =>
      exact Site.ensures_skipSlot sim p.written_valid p.flushPost
        (by rw [holds, Cond.holds_invert, hc]; rfl)
  | false =>
    -- Both targets are moved into registers; the flags are still those of the comparison.
    have h2 := (h1.set .scratch2 (target.setWidth 64)).get_set_self .rsi ((s.insn.addr + 8).setWidth 64)
    have h3 : ((h1.set .scratch2 (target.setWidth 64)).set .rsi ((s.insn.addr + 8).setWidth 64)).get
        .scratch2 = .dword (target.setWidth 64) := by
      rw [Host.State.get_set_of_ne _ _ (by decide), Host.State.get_set_self]
    have k : Keeps h1 (((h1.set .scratch2 (target.setWidth 64)).set .rsi
        ((s.insn.addr + 8).setWidth 64)).set .rsi
        ((if c.holds f then target else s.insn.addr + 8).setWidth 64)) :=
      (((Keeps.refl h1).set (by decide) _).set (by decide) _).set (by decide) _
    have sim' := sim.keeps k
    have flags : ((h1.set .scratch2 (target.setWidth 64)).set .rsi
        ((s.insn.addr + 8).setWidth 64)).flags = some f := hf
    refine .insn rfl (.insn rfl (.insn (Host.Insn.perform_cmovWord flags c h2 h3) ?_))
    refine .insn (Host.Insn.perform_store sim'.serving.env .pc (Host.State.get_set_self _ _ _)) (.nil ?_)
    show s.Follows written (g'.execBranch s.insn.addr target (c.holds f) false) (.through
      (Host.State.setField _ .pc
        ((((if c.holds f then target else s.insn.addr + 8).setWidth 64 : Dword).setWidth 32).setWidth 64)))
    rw [Host.Insn.setWidth_setWidth]
    have e : g'.execBranch s.insn.addr target (c.holds f) false =
        g'.goOn { g'.cpu with pc := if c.holds f then target else s.insn.addr + 8 } := by
      unfold Guest.execBranch
      cases c.holds f <;> rfl
    rw [e]
    exact sim'.setField_pc _

/-- The processor with the link of a branch or jump, if it leaves one. -/
def linked (c : Cpu) (link : Option RegNum) (v : Dword) : Cpu := link.elim c (c.setReg · v)

theorem runs_link (p : Placed s mid written hollow h g) (k1 : Keeps h h1) (link : Option RegNum)
    (hw : s.insn.insn.uses.writes = link.elim [] (fun rd => regList [.gpr rd]))
    (he : s.insn.insn.uses.envWrites = []) (v : Dword) :
    ∃ h2, Runs (items (link.elim [] (s.writeImm · v))) h1 (.through h2) ∧
      Sim written [] h2 { g with cpu := linked g.cpu link v } ∧
      ∀ r, (∀ k : Slot, r ≠ k.reg) → h2.get r = h1.get r := by
  cases link with
  | some rd => exact p.writeImm k1 v hw he
  | none => exact ⟨h1, .nil h1, p.unwritten k1 hw he, fun _ _ => rfl⟩

def linkReg (link : Bool) : Option RegNum := if link then some 31 else none

theorem code_branch (p : Placed s mid written hollow h g) {cond : BranchCond} {rs rt : RegNum}
    {offset : Half} {likely link : Bool} (hi : s.insn.insn = .branch cond rs rt offset likely link) :
    Ensures s.code h (s.Follows written (g.exec s.insn)) := by
  have hr : s.insn.insn.uses.reads =
      regList (if cond.usesRt then [.gpr rs, .gpr rt] else [.gpr rs]) := by rw [hi]; rfl
  have hrs : Reads s (.gpr rs) := reads_of hr (by cases cond.usesRt <;> simp)
  have hrt : Reads s (.gpr (if cond.usesRt then rt else 0)) := by
    cases hu : cond.usesRt with
    | true => exact reads_of hr (by rw [hu]; simp)
    | false => exact fun h0 => absurd rfl h0
  obtain ⟨h1, r1, k1, ha, hb⟩ := p.read2 hrs hrt
  obtain ⟨h2, r2, sim, keep⟩ := p.runs_link k1 (linkReg link)
    (by rw [hi]; cases link <;> rfl) (by rw [hi]; rfl) (linkValue s.insn.addr)
  have ha2 : h2.get .scratch0 = .dword (g.cpu.reg rs) := (keep _ scratch0_ne_slot).trans ha
  have hb2 : h2.get .scratch1 = .dword (g.cpu.reg (if cond.usesRt then rt else 0)) :=
    (keep _ scratch1_ne_slot).trans hb
  have code : s.code =
      items [s.read .scratch0 (.gpr rs), s.read .scratch1 (.gpr (if cond.usesRt then rt else 0))] ++
        (items ((linkReg link).elim [] (s.writeImm · (linkValue s.insn.addr))) ++
        (.insn (.arith .cmp true .scratch0 .scratch1) ::
          s.outcome cond.host (branchTarget s.insn.addr offset) likely)) := by
    simp only [Site.code, hi, items_append, List.append_assoc]
    cases link <;> rfl
  have flow : g.exec s.insn = 
      ({ g with cpu := linked g.cpu (linkReg link) (linkValue s.insn.addr) } : Guest).execBranch
        s.insn.addr (branchTarget s.insn.addr offset) (cond.holds (g.cpu.reg rs) (g.cpu.reg rt)) likely := by
    simp only [Guest.exec, hi]
    cases link <;> rfl
  have zero : cond.usesRt = false → g.cpu.reg (if cond.usesRt then rt else 0) = 0 := by
    intro hu
    rw [hu]
    exact p.zero
  have taken : cond.holds (g.cpu.reg rs) (g.cpu.reg rt) = cond.host.holds
      (Host.ArithOp.cmp.eval false (g.cpu.reg rs) (g.cpu.reg (if cond.usesRt then rt else 0))).2 := by
    rw [cond.holds_host _ _ zero]
    apply cond.holds_eq
    intro hu
    rw [hu]
    rfl
  rw [code, flow, taken]
  refine .append r1 (.append r2 (.insn (Host.Insn.perform_cmp ha2 hb2) ?_))
  exact p.ensures_outcome (sim.keeps ((Keeps.refl h2).withFlags _)) rfl cond.host _ likely

theorem code_jump (p : Placed s mid written hollow h g) {index : BitVec 26} {link : Bool}
    (hi : s.insn.insn = .jump index link) : Ensures s.code h (s.Follows written (g.exec s.insn)) := by
  obtain ⟨h2, r2, sim, _⟩ := p.runs_link (Keeps.refl h) (linkReg link)
    (by rw [hi]; cases link <;> rfl) (by rw [hi]; rfl) (linkValue s.insn.addr)
  have code : s.code = items ((linkReg link).elim [] (s.writeImm · (linkValue s.insn.addr))) ++
        [.insn (setPc (jumpTarget s.insn.addr (index.setWidth 32)))] := by
    simp only [Site.code, hi, items_append]
    cases link <;> rfl
  have flow : g.exec s.insn = (.next, { g with cpu :=
      { linked g.cpu (linkReg link) (linkValue s.insn.addr) with
        pc := jumpTarget s.insn.addr (index.setWidth 32) } }) := by
    simp only [Guest.exec, hi]
    cases link <;> rfl
  rw [code, flow]
  exact .append r2 (.insn (Host.Insn.perform_storeImm sim.serving.env (f := .pc) rfl _)
    (.nil (sim.setField_pc _)))

theorem code_jumpReg (p : Placed s mid written hollow h g) {rs : RegNum} {link : Option RegNum}
    (hi : s.insn.insn = .jumpReg rs link) : Ensures s.code h (s.Follows written (g.exec s.insn)) := by
  have hr : s.insn.insn.uses.reads = regList [.gpr rs] := by rw [hi]; rfl
  obtain ⟨h1, r1, k1, ha⟩ := p.read1 (reads_of hr List.mem_cons_self) .scratch0 (by decide)
  obtain ⟨h2, r2, sim, keep⟩ := p.runs_link k1 link (by rw [hi]; cases link <;> rfl) (by rw [hi]; rfl)
    (linkValue s.insn.addr)
  have ha2 : h2.get .scratch0 = .dword (g.cpu.reg rs) := (keep _ scratch0_ne_slot).trans ha
  have code : s.code = items [s.read .scratch0 (.gpr rs)] ++ (items
      (link.elim [] (s.writeImm · (linkValue s.insn.addr))) ++
        [.insn (.store false .scratch0 .env (offset Layout.pc))]) := by
    simp only [Site.code, hi]
    cases link <;> simp [items]
  have flow : g.exec s.insn = (.next, { g with cpu :=
      { linked g.cpu link (linkValue s.insn.addr) with
        pc := (g.cpu.reg rs).setWidth 32 } }) := by
    simp only [Guest.exec, hi]
    cases link <;> rfl
  rw [code, flow]
  exact .append r1 (.append r2 (.insn (Host.Insn.perform_store sim.serving.env .pc ha2)
    (.nil (sim.setField_pc _))))

/-! ## Traps -/

/-- An instruction that always raises an exception. -/
theorem ensures_trap (p : Placed s mid written hollow h g) (c : ExcCode) :
    Ensures [s.fault none (some c)] h (s.Follows written (.fault c, g)) :=
  Site.ensures_fault p.sim p.mid_valid p.flushPre trivial (Or.inl rfl)

theorem code_nothing (p : Placed s mid written hollow h g)
    (hi : s.insn.insn = .nop ∨ s.insn.insn = .sync) : Ensures s.code h (s.Follows written (g.exec s.insn)) := by
  have code : s.code = [] ∧ g.exec s.insn = (.next, g) ∧ s.insn.insn.uses = {} := by
    rcases hi with hi | hi <;> simp only [Site.code, Guest.exec, hi, Insn.uses, and_self]
  obtain ⟨code, flow, uses⟩ := code
  rw [code, flow]
  exact .nil (p.unwritten (Keeps.refl h) (by rw [uses]) (by rw [uses]))

theorem code_fpuBranch (p : Placed s mid written hollow h g) {onTrue likely : Bool} {target : Half}
    (hi : s.insn.insn = .fpuBranch onTrue likely target) :
    Ensures s.code h (s.Follows written (g.exec s.insn)) := by
  have code : s.code = .insn (.testMemImm .env (offset Layout.fcr31) Fcr31.c) ::
      s.outcome (if onTrue then .ne else .e) (branchTarget s.insn.addr target) likely := by
    simp only [Site.code, hi]
  have fcr31 : ((h.value .fcr31).setWidth 32 : Word) = g.cpu.fcr31 := by
    rw [show h.value .fcr31 = h.guest.cpu.fcr31.setWidth 64 from rfl, Host.Insn.setWidth_setWidth,
      p.sim.serving.guest]
    rfl
  have flow : g.exec s.insn = g.execBranch s.insn.addr (branchTarget s.insn.addr target)
      ((if onTrue then Cond.ne else Cond.e).holds
        (Host.ArithOp.and.eval false g.cpu.fcr31 Fcr31.c).2) likely := by
    simp only [Guest.exec, hi]
    congr 1
    cases onTrue with
    | true => exact beq_true _
    | false =>
      rw [if_neg (by decide), Host.holds_e_test, beq_false]
      exact Bool.not_not _
  rw [code, flow, ← fcr31]
  refine .insn (Host.Insn.perform_testField p.sim.serving.env (f := .fcr31) rfl Fcr31.c) ?_
  refine p.ensures_outcome ?_ rfl _ _ likely
  refine p.unwritten ((Keeps.refl h).withFlags _) ?_ ?_ <;> rw [hi] <;> rfl

/-! ## Moves to and from the floating point unit -/

theorem code_mfc1 (p : Placed s mid written hollow h g) {rt fs : RegNum}
    (hi : s.insn.insn = .fpuMove .mfc1 rt fs) : Ensures s.code h (s.Follows written (g.exec s.insn)) := by
  have flow : g.exec s.insn = g.goOn (g.cpu.setReg rt (sextWord (g.cpu.freg fs))) := by
    simp only [Guest.exec, hi]
  have code : s.code = .insn (.loadExtend .signWord .scratch0 .env (offset (Field.fpr fs).offset)) ::
      items (s.write (.gpr rt) .scratch0) := by
    simp only [Site.code, hi]
    rfl
  have freg : ((h.value (.fpr fs)).setWidth 32 : Word) = g.cpu.freg fs := by
    rw [show h.value (.fpr fs) = (h.guest.cpu.freg fs).setWidth 64 from rfl,
      Host.Insn.setWidth_setWidth, p.sim.serving.guest]
    rfl
  rw [code, flow, ← freg]
  refine .insn (Host.Insn.perform_loadExtend p.sim.serving.env rfl .scratch0) ?_
  exact p.ensures_setReg ((Keeps.refl h).set (by decide) _) (by rw [hi]; rfl) (by rw [hi]; rfl)
    scratch0_ne_slot (Host.State.get_set_self _ _ _)

theorem code_mtc1 (p : Placed s mid written hollow h g) {rt fs : RegNum}
    (hi : s.insn.insn = .fpuMove .mtc1 rt fs) : Ensures s.code h (s.Follows written (g.exec s.insn)) := by
  have flow : g.exec s.insn = g.goOn (g.cpu.setFreg fs ((g.cpu.reg rt).setWidth 32)) := by
    simp only [Guest.exec, hi]
  have code : s.code = items [s.read .scratch0 (.gpr rt)] ++
      [.insn (.store false .scratch0 .env (offset (Field.fpr fs).offset))] := by
    simp only [Site.code, hi]
    rfl
  have hr : s.insn.insn.uses.reads = regList [.gpr rt] := by rw [hi]; rfl
  obtain ⟨h1, r1, k1, v1⟩ := p.read1 (reads_of hr List.mem_cons_self) .scratch0 (by decide)
  have sim : Sim written [] h1 g := p.unwritten k1 (by rw [hi]; rfl) (by rw [hi]; rfl)
  rw [code, flow]
  exact .append r1 (.insn (Host.Insn.perform_store sim.serving.env (.fpr fs) v1)
    (.nil (sim.setField_fpr fs _)))

theorem code_cfc1 (p : Placed s mid written hollow h g) {rt fs : RegNum}
    (hi : s.insn.insn = .fpuMove .cfc1 rt fs) : Ensures s.code h (s.Follows written (g.exec s.insn)) := by
  have flow : g.exec s.insn = g.goOn (g.cpu.setReg rt (sextWord (g.cpu.fpuControl fs.val))) := by
    simp only [Guest.exec, hi]
  -- Whichever register it is, one host instruction leaves its value.
  have one : ∃ i, s.code = .insn i :: items (s.write (.gpr rt) .scratch0) ∧
      ∃ f, i.perform h = some ((h.withFlags f).set .scratch0 (sextWord (g.cpu.fpuControl fs.val))) := by
    simp only [Site.code, hi, Site.fpuMove]
    refine ⟨_, rfl, ?_⟩
    by_cases h0 : fs = 0
    · subst h0
      rw [if_pos rfl]
      exact Host.Insn.perform_movImm h .scratch0 _
    · have v0 : fs.val ≠ 0 := fun e => h0 (Fin.ext e)
      rw [if_neg h0]
      unfold Cpu.fpuControl
      rw [if_neg v0]
      by_cases h31 : fs = 31
      · subst h31
        rw [if_pos rfl, if_pos (show (31 : RegNum).val = 31 from rfl)]
        refine ⟨h.flags, ?_⟩
        have e := Host.Insn.perform_loadExtend p.sim.serving.env (f := .fcr31) rfl .scratch0
        rw [show h.value .fcr31 = h.guest.cpu.fcr31.setWidth 64 from rfl,
          Host.Insn.setWidth_setWidth, p.sim.serving.guest] at e
        exact e
      · have v31 : fs.val ≠ 31 := fun e => h31 (Fin.ext e)
        rw [if_neg h31, if_neg v31]
        exact Host.Insn.perform_clear h .scratch0
  obtain ⟨i, code, f, e⟩ := one
  rw [code, flow]
  refine .insn e ?_
  exact p.ensures_setReg (((Keeps.refl h).withFlags f).set (by decide) _) (by rw [hi]; rfl)
    (by rw [hi]; rfl) scratch0_ne_slot (Host.State.get_set_self _ _ _)

theorem code_ctc1 (p : Placed s mid written hollow h g) {rt fs : RegNum}
    (hi : s.insn.insn = .fpuMove .ctc1 rt fs) : Ensures s.code h (s.Follows written (g.exec s.insn)) := by
  have flow : g.exec s.insn = g.goOn (g.cpu.setFpuControl fs.val ((g.cpu.reg rt).setWidth 32)) := by
    simp only [Guest.exec, hi]
  have none : ∀ {h1 : Host.State}, Keeps h h1 → Sim written [] h1 g :=
    fun k1 => p.unwritten k1 (by rw [hi]; rfl) (by rw [hi]; rfl)
  rw [flow]
  unfold Cpu.setFpuControl
  by_cases h31 : fs = 31
  · subst h31
    have code : s.code = items [s.read .scratch0 (.gpr rt)] ++
        [.insn (.arithImm .and false .scratch0 Fcr31.writable),
         .insn (.store false .scratch0 .env (offset (Field.fcr31).offset))] := by
      simp only [Site.code, hi]
      rfl
    have hr : s.insn.insn.uses.reads = regList [.gpr rt] := by rw [hi]; rfl
    obtain ⟨h1, r1, k1, v1⟩ := p.read1 (reads_of hr List.mem_cons_self) .scratch0 (by decide)
    have masked : ∃ f v, (Host.Insn.arithImm .and false .scratch0 Fcr31.writable).perform h1 =
        some ((h1.withFlags f).set .scratch0 v) ∧
        (v.setWidth 32 : Word) = (g.cpu.reg rt).setWidth 32 &&& Fcr31.writable := by
      refine ⟨_, _, Host.Insn.perform_arithImm rfl rfl false v1 Fcr31.writable, ?_⟩
      show ((((g.cpu.reg rt).setWidth 32 &&& (sextWord Fcr31.writable).setWidth 32 : Word).setWidth 64 :
        Dword).setWidth 32 : Word) = _
      rw [Host.Insn.setWidth_setWidth, Host.Insn.setWidth_sextWord]
    obtain ⟨f, v, e, low⟩ := masked
    have sim := none ((k1.withFlags f).set (show Reg.scratch0 ∉ Reg.calleeSaved by decide) v)
    rw [code, if_pos (show (31 : RegNum).val = 31 from rfl), ← low]
    exact .append r1 (.insn e (.insn (Host.Insn.perform_store sim.serving.env .fcr31
      (Host.State.get_set_self _ _ _)) (.nil (sim.setField_fcr31 _))))
  · have v31 : fs.val ≠ 31 := fun e => h31 (Fin.ext e)
    have code : s.code = [] := by
      simp only [Site.code, hi, Site.fpuMove, if_neg h31]
      rfl
    rw [code, if_neg v31]
    exact .nil (none (Keeps.refl h))

end Code.Placed

end EmotionEngine
