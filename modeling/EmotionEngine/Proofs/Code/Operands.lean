import EmotionEngine.Proofs.Code.Exits

/-!
Reads and writes of guest values in the code of an instruction. Operands are copied from their host
registers to scratch registers (`Placed.reads`), and results are copied back at the end
(`Seated.writes`). Between the two the code works in registers that stand for no guest value.

Main statement: after the writes, the host stands for the guest that has the written values
(`Seated.wrote`).
-/

namespace EmotionEngine.Code

open Host (Content Keeps Reg Slot)

/-- Where the code of an instruction starts: its operands are placed, and the host stands for the guest `g`. -/
structure Seated (s : Site) (mid written : Plan.State) (hollow : List GuestReg) (h : Host.State)
    (g : Guest) : Prop where
  sim : Sim mid hollow h g
  mid_valid : mid.Valid
  written_valid : written.Valid
  operand : ∀ r, r ∈ s.insn.insn.uses.reads ∨ r ∈ s.insn.insn.uses.writes →
    ∃ k, s.step.slot? r = some k
  slot : ∀ r k, s.step.slot? r = some k → (mid.value r).place = .slot k
  unread : ∀ r ∈ hollow, r ∈ s.insn.insn.uses.writes ∧ r ∉ s.insn.insn.uses.reads
  env : ∀ r ∈ s.insn.insn.uses.envReads, (mid.value r).dirty = false
  value : ∀ r, written.value r = Plan.State.noted s.insn.insn.uses mid r
  flushPre : s.step.flushPre = mid.flush
  flushPost : s.step.flushPost = written.flush

/-- The same where register 0 is zero, which the code takes it to be. -/
structure Placed (s : Site) (mid written : Plan.State) (hollow : List GuestReg) (h : Host.State)
    (g : Guest) : Prop extends Seated s mid written hollow h g where
  zero : g.cpu.reg 0 = 0

variable {s : Site} {mid written : Plan.State} {hollow : List GuestReg} {h h' : Host.State} {g g' : Guest}

namespace Seated

/-- The same instruction with another host and guest. -/
theorem with_sim (p : Seated s mid written hollow h g) (sim : Sim mid hollow h' g') :
    Seated s mid written hollow h' g' :=
  { p with sim }

theorem keeps (p : Seated s mid written hollow h g) (k : Keeps h h') : Seated s mid written hollow h' g :=
  p.with_sim (p.sim.keeps k)

theorem host_eq {r : GuestReg} {k : Slot} (hk : s.step.slot? r = some k) : s.host r = k.reg := by
  unfold Site.host
  rw [hk]
  rfl

/-- The host register of a value that the instruction reads holds it. -/
theorem get_host (p : Seated s mid written hollow h g) {r : GuestReg}
    (hr : r ∈ s.insn.insn.uses.reads) : h.get (s.host r) = .dword (g.cpu.file r) := by
  obtain ⟨k, hk⟩ := p.operand r (Or.inl hr)
  have e := p.sim.tracks.current r (fun hm => (p.unread r hm).2 hr)
  rw [p.slot r k hk] at e
  rw [host_eq hk]
  exact e

/-! ## Writes -/

/-- The host after results were copied to host registers of guest values. -/
structure Wrote (s : Site) (ws : List GuestReg) (file : GuestReg → Dword) (h h' : Host.State) :
    Prop where
  guest : h'.guest = h.guest
  base : h'.base = h.base
  spill : h'.spill = h.spill
  scratch : ∀ r, (∀ k : Slot, r ≠ k.reg) → h'.get r = h.get r
  slot : ∀ r ∈ ws, ∀ k, s.step.slot? r = some k → h'.get k.reg = .dword (file r)
  other : ∀ k, (∀ r ∈ ws, s.step.slot? r ≠ some k) → h'.get k.reg = h.get k.reg

theorem slot_injective (p : Seated s mid written hollow h g) {r x : GuestReg} {k : Slot}
    (hr : s.step.slot? r = some k) (hx : s.step.slot? x = some k) : r = x :=
  p.mid_valid.distinct (p.slot r k hr) (p.slot x k hx)

theorem Wrote.refl (s : Site) (file : GuestReg → Dword) (h : Host.State) : Wrote s [] file h h :=
  ⟨rfl, rfl, rfl, fun _ _ => rfl, by simp, fun _ _ => rfl⟩

theorem Wrote.single {r : GuestReg} {k : Slot} (hk : s.step.slot? r = some k) (h1 : Host.State)
    (f : Option Host.Flags) {v : Dword} {file : GuestReg → Dword} (hv : v = file r) :
    Wrote s [r] file h1 ((h1.withFlags f).set k.reg v) := by
  refine ⟨rfl, rfl, rfl, ?_, ?_, ?_⟩
  · intro x hx
    exact Host.State.get_set_of_ne _ _ (hx k)
  · intro x hx k' hk'
    rw [List.mem_singleton] at hx
    subst hx
    rw [hk] at hk'
    cases hk'
    rw [Host.State.get_set_self, hv]
  · intro k' hk'
    have ne : k'.reg ≠ k.reg := by
      intro e
      rw [Slot.reg_injective e] at hk'
      exact hk' r (List.mem_singleton.mpr rfl) hk
    exact Host.State.get_set_of_ne _ _ ne

/-- Results one after the other; a later one may go to the same register. -/
theorem Wrote.append (p : Seated s mid written hollow h g) {a b : List GuestReg}
    {file : GuestReg → Dword} {h1 h2 h3 : Host.State} (w : Wrote s a file h1 h2)
    (w' : Wrote s b file h2 h3) : Wrote s (a ++ b) file h1 h3 := by
  refine ⟨w'.guest.trans w.guest, w'.base.trans w.base, w'.spill.trans w.spill, ?_, ?_, ?_⟩
  · intro x hx
    exact (w'.scratch x hx).trans (w.scratch x hx)
  · intro r hr k hk
    by_cases hb : r ∈ b
    · exact w'.slot r hb k hk
    · have ha : r ∈ a := (List.mem_append.mp hr).resolve_right hb
      refine (w'.other k ?_).trans (w.slot r ha k hk)
      intro x hx e
      exact hb (p.slot_injective hk e ▸ hx)
  · intro k hk
    have hb := w'.other k (fun r hr => hk r (List.mem_append.mpr (Or.inr hr)))
    exact hb.trans (w.other k (fun r hr => hk r (List.mem_append.mpr (Or.inl hr))))

theorem Wrote.congr {a b : List GuestReg} {file : GuestReg → Dword} {h1 h2 : Host.State}
    (w : Wrote s a file h1 h2) (e : ∀ r, r ∈ b ↔ r ∈ a) : Wrote s b file h1 h2 :=
  ⟨w.guest, w.base, w.spill, w.scratch, fun r hr => w.slot r ((e r).mp hr),
    fun k hk => w.other k (fun r hr => hk r ((e r).mpr hr))⟩

/-- Results copied from scratch registers. -/
theorem writes (p : Seated s mid written hollow h g) {file : GuestReg → Dword}
    (ws : List (GuestReg × Reg)) (h1 : Host.State)
    (hw : ∀ x ∈ ws, x.1 ≠ .gpr 0 → x.1 ∈ s.insn.insn.uses.writes)
    (hs : ∀ x ∈ ws, ∀ k : Slot, x.2 ≠ k.reg)
    (hv : ∀ x ∈ ws, x.1 ≠ .gpr 0 → h1.get x.2 = .dword (file x.1)) :
    ∃ h2, Runs (items (ws.flatMap (fun x => s.write x.1 x.2))) h1 (.through h2) ∧
      Wrote s ((ws.map Prod.fst).filter (· ≠ .gpr 0)) file h1 h2 := by
  induction ws generalizing h1 with
  | nil => exact ⟨h1, .nil h1, .refl s file h1⟩
  | cons x ws ih =>
    have tail := fun h1 hv => ih h1 (fun y hy => hw y (List.mem_cons_of_mem _ hy))
      (fun y hy => hs y (List.mem_cons_of_mem _ hy)) hv
    rw [List.flatMap_cons, items_append, List.map_cons]
    by_cases h0 : x.1 = .gpr 0
    · obtain ⟨h2, r2, w2⟩ := tail h1 (fun y hy => hv y (List.mem_cons_of_mem _ hy))
      rw [Site.write, if_pos h0, List.filter_cons_of_neg (by simpa using h0)]
      exact ⟨h2, r2, w2⟩
    · obtain ⟨k, hk⟩ := p.operand x.1 (Or.inr (hw x List.mem_cons_self h0))
      have e := hv x List.mem_cons_self h0
      have step : (Host.Insn.mov true (s.host x.1) x.2).perform h1 =
          some ((h1.withFlags h1.flags).set k.reg (file x.1)) := by
        rw [host_eq hk]
        exact Host.Insn.perform_mov e
      have w1 : Wrote s [x.1] file h1 _ := .single hk h1 h1.flags rfl
      obtain ⟨h2, r2, w2⟩ := tail _ (fun y hy h0' => (w1.scratch y.2
        (hs y (List.mem_cons_of_mem _ hy))).trans (hv y (List.mem_cons_of_mem _ hy) h0'))
      rw [Site.write, if_neg h0, List.filter_cons_of_pos (by simpa using h0)]
      exact ⟨h2, .insn step r2, Wrote.append p w1 w2⟩

/-- After its writes, the host stands for the guest that the instruction leaves, if it wrote what that
guest has. -/
theorem wrote (p : Seated s mid written hollow h g) {h1 : Host.State} (k1 : Keeps h h1)
    (w : Wrote s s.insn.insn.uses.writes g'.cpu.file h1 h') (he : s.insn.insn.uses.envWrites = [])
    (hm : g'.mem = g.mem) (rest : ∀ f, g'.cpu.withFile f = g.cpu.withFile f)
    (same : ∀ r, r ∉ s.insn.insn.uses.writes → g'.cpu.file r = g.cpu.file r) :
    Sim written [] h' g' := by
  have serving := p.sim.serving
  have guest : h'.guest = h.guest := w.guest.trans k1.guest
  refine ⟨⟨?_, ?_⟩, ?_⟩
  · rw [w.scratch .env (by decide), w.base, k1.saved .env (by decide), k1.base]
    exact serving.env
  · rw [guest]
    refine serving.guest.trans ?_
    unfold Guest.withFile
    rw [rest, hm]
  · have placed : ∀ r ∈ s.insn.insn.uses.writes, ∀ k, (mid.value r).place = .slot k →
        s.step.slot? r = some k := by
      intro r hr k hk
      obtain ⟨k', hk'⟩ := p.operand r (Or.inr hr)
      have := p.slot r k' hk'
      rw [hk] at this
      cases this
      exact hk'
    refine Tracks.noted p.sim.tracks p.mid_valid p.value (fun r hr => (p.unread r hr).1) ?_ ?_ ?_ ?_ ?_ ?_
      ?_
    · intro r hr
      obtain ⟨k, hk⟩ := p.operand r (Or.inr hr)
      exact ⟨k, p.slot r k hk⟩
    · intro r hr _
      exact congrArg Content.dword (same r hr)
    · intro r hr k hk
      exact w.slot r hr k (placed r hr k hk)
    · intro k hk
      refine (w.other k ?_).trans (k1.saved k.reg (Slot.reg_mem_calleeSaved k))
      intro r hr e
      exact hk r hr (p.slot r k e)
    · intro r hr
      rw [he] at hr
      cases hr
    · intro r _
      show Content.dword (h'.guest.cpu.file r) = Content.dword (h.guest.cpu.file r)
      rw [guest]
    · funext r
      show Content.dword (h'.spill.get _) = Content.dword (h.spill.get _)
      rw [w.spill, k1.spill]

/-! ## Ends -/

theorem ensures_writes (p : Seated s mid written hollow h g) {h1 : Host.State} (k1 : Keeps h h1)
    (ws : List (GuestReg × Reg))
    (hw : ∀ r, r ∈ s.insn.insn.uses.writes ↔ r ∈ (ws.map Prod.fst).filter (· ≠ .gpr 0))
    (he : s.insn.insn.uses.envWrites = []) (hs : ∀ x ∈ ws, ∀ k : Slot, x.2 ≠ k.reg)
    (hv : ∀ x ∈ ws, x.1 ≠ .gpr 0 → h1.get x.2 = .dword (g'.cpu.file x.1))
    (hm : g'.mem = g.mem) (rest : ∀ f, g'.cpu.withFile f = g.cpu.withFile f)
    (same : ∀ r, r ∉ s.insn.insn.uses.writes → g'.cpu.file r = g.cpu.file r) :
    Ensures (items (ws.flatMap (fun x => s.write x.1 x.2))) h1 (s.Follows written (.next, g')) := by
  have named : ∀ x ∈ ws, x.1 ≠ .gpr 0 → x.1 ∈ s.insn.insn.uses.writes := by
    intro x hx h0
    rw [hw, List.mem_filter]
    exact ⟨List.mem_map_of_mem hx, by simpa using h0⟩
  obtain ⟨h2, r2, w2⟩ := p.writes ws h1 named hs hv
  exact ⟨_, r2, p.wrote k1 (w2.congr hw) he hm rest same⟩

/-- A register other than those written keeps its value. -/
theorem file_setReg_same {c : Cpu} {rd : RegNum} {v : Dword} {r : GuestReg}
    (h : r ∉ regList [.gpr rd]) : (c.setReg rd v).file r = c.file r := by
  rw [Cpu.file_setReg, if_neg]
  rintro ⟨rfl, h0⟩
  exact h (by simpa using h0)

theorem file_setReg_self {c : Cpu} {rd : RegNum} {v : Dword} (h : GuestReg.gpr rd ≠ .gpr 0) :
    (c.setReg rd v).file (.gpr rd) = v := by
  rw [Cpu.file_setReg, if_pos ⟨rfl, by simpa using h⟩]

/-- The code of an instruction that ends in the write of one register. -/
theorem ensures_setReg (p : Seated s mid written hollow h g) {h1 : Host.State} (k1 : Keeps h h1)
    {rd : RegNum} {src : Reg} {v : Dword} (hw : s.insn.insn.uses.writes = regList [.gpr rd])
    (he : s.insn.insn.uses.envWrites = []) (hs : ∀ k : Slot, src ≠ k.reg)
    (hv : h1.get src = .dword v) :
    Ensures (items (s.write (.gpr rd) src)) h1 (s.Follows written (g.goOn (g.cpu.setReg rd v))) := by
  show Ensures (items (s.write (.gpr rd) src)) h1
    (s.Follows written (.next, { g with cpu := g.cpu.setReg rd v }))
  rw [← List.append_nil (s.write _ _)]
  refine p.ensures_writes k1 [(.gpr rd, src)] (by intro r; rw [hw]; simp) he (by simpa using hs) ?_ rfl
    (g.cpu.withFile_setReg rd v) ?_
  · intro x hx h0
    rw [List.mem_singleton] at hx
    subst hx
    rw [file_setReg_self h0]
    exact hv
  · intro r hr
    rw [hw] at hr
    exact file_setReg_same hr

/-- A constant for one register, and what else the host holds then. -/
theorem writeImm (p : Seated s mid written hollow h g) {h1 : Host.State} (k1 : Keeps h h1)
    {rd : RegNum} (v : Dword) (hw : s.insn.insn.uses.writes = regList [.gpr rd])
    (he : s.insn.insn.uses.envWrites = []) :
    ∃ h2, Runs (items (s.writeImm rd v)) h1 (.through h2) ∧
      Sim written [] h2 { g with cpu := g.cpu.setReg rd v } ∧
      ∀ r, (∀ k : Slot, r ≠ k.reg) → h2.get r = h1.get r := by
  have wrote : ∀ {h2}, Wrote s s.insn.insn.uses.writes (g.cpu.setReg rd v).file h1 h2 →
      Sim written [] h2 { g with cpu := g.cpu.setReg rd v } := by
    intro h2 w
    refine p.wrote k1 w he rfl (g.cpu.withFile_setReg rd v) ?_
    intro r hr
    rw [hw] at hr
    exact file_setReg_same hr
  unfold Site.writeImm
  by_cases h0 : rd = 0
  · subst h0
    rw [if_pos rfl]
    exact ⟨h1, .nil h1, wrote (by rw [hw]; exact .refl s _ h1), fun _ _ => rfl⟩
  · have h0' : GuestReg.gpr rd ≠ .gpr 0 := by simpa using h0
    obtain ⟨k, hk⟩ := p.operand (.gpr rd) (Or.inr (by rw [hw]; simpa using h0))
    obtain ⟨f, e⟩ := Host.Insn.perform_movImm h1 k.reg v
    have w := Wrote.single hk h1 f (file_setReg_self (c := g.cpu) (v := v) h0').symm
    rw [if_neg h0, host_eq hk]
    refine ⟨_, .insn e (.nil _), wrote (w.congr ?_), w.scratch⟩
    intro r
    rw [hw]
    simp only [mem_regList, List.mem_singleton]
    constructor
    · exact And.left
    · rintro rfl
      exact ⟨rfl, h0'⟩

theorem unwritten (p : Seated s mid written hollow h g) {h1 : Host.State} (k1 : Keeps h h1)
    (hw : s.insn.insn.uses.writes = []) (he : s.insn.insn.uses.envWrites = []) :
    Sim written [] h1 g :=
  p.wrote k1 (by rw [hw]; exact .refl s _ h1) he rfl (fun _ => rfl) (fun _ _ => rfl)

end Seated

namespace Placed

/-! ## Reads -/

/-- The same instruction with another host and guest. -/
theorem with_sim (p : Placed s mid written hollow h g) (sim : Sim mid hollow h' g')
    (zero : g'.cpu.reg 0 = 0) : Placed s mid written hollow h' g' :=
  { p with sim, zero }

theorem keeps (p : Placed s mid written hollow h g) (k : Keeps h h') :
    Placed s mid written hollow h' g := p.with_sim (p.sim.keeps k) p.zero

theorem perform_read (p : Placed s mid written hollow h g) {r : GuestReg}
    (hr : r ≠ .gpr 0 → r ∈ s.insn.insn.uses.reads) (dst : Reg) :
    ∃ f, (s.read dst r).perform h = some ((h.withFlags f).set dst (g.cpu.file r)) := by
  unfold Site.read
  by_cases h0 : r = .gpr 0
  · subst h0
    rw [if_pos rfl, show g.cpu.file (.gpr 0) = 0 from p.zero]
    exact Host.Insn.perform_clear h dst
  · rw [if_neg h0]
    exact ⟨h.flags, Host.Insn.perform_mov (p.get_host (hr h0))⟩

/-- Guest values copied to scratch registers. -/
theorem reads (p : Placed s mid written hollow h g) (ps : List (Reg × GuestReg))
    (hd : ∀ r ∈ ps.map Prod.fst, r ∉ Reg.calleeSaved) (hn : (ps.map Prod.fst).Nodup)
    (hr : ∀ x ∈ ps, x.2 ≠ .gpr 0 → x.2 ∈ s.insn.insn.uses.reads) :
    ∃ h', Runs (items (ps.map (fun x => s.read x.1 x.2))) h (.through h') ∧ Keeps h h' ∧
      (∀ x ∈ ps, h'.get x.1 = .dword (g.cpu.file x.2)) ∧
      ∀ r, r ∉ ps.map Prod.fst → h'.get r = h.get r := by
  induction ps generalizing h with
  | nil => exact ⟨h, .nil h, Keeps.refl h, by simp, fun _ _ => rfl⟩
  | cons x ps ih =>
    obtain ⟨f, e⟩ := p.perform_read (hr x List.mem_cons_self) x.1
    have k1 : Keeps h ((h.withFlags f).set x.1 (g.cpu.file x.2)) :=
      ((Keeps.refl h).withFlags f).set (hd x.1 List.mem_cons_self) _
    rw [List.map_cons, List.nodup_cons] at hn
    obtain ⟨h', r', k', v', o'⟩ := ih (p.keeps k1) (fun y hy => hd y (List.mem_cons_of_mem _ hy)) hn.2
      (fun y hy => hr y (List.mem_cons_of_mem _ hy))
    refine ⟨h', .insn e r', k1.trans k', ?_, ?_⟩
    · intro y hy
      rcases List.mem_cons.mp hy with rfl | hy
      · rw [o' y.1 hn.1, Host.State.get_set_self]
      · exact v' y hy
    · intro r hm
      rw [List.map_cons, List.mem_cons, not_or] at hm
      rw [o' r hm.2, Host.State.get_set_of_ne _ _ hm.1]
      rfl

end Placed

end EmotionEngine.Code
