import EmotionEngine.Code.OfBlock
import EmotionEngine.Proofs.Code.Moves

/-!
The code of an instruction against the flow of the instruction itself. `Ensures` is what a piece of code
has to do: it runs, and the end of the run is as wanted. `Site.Follows` is the end that is wanted of the
code of an instruction: where the instruction goes on, the code runs through and stands for the new
guest; where it ends the block, the code returns the exit and leaves exactly the guest.

Main statements: the three ways out of a block leave the guest that the flow says (`ensures_fault`,
`ensures_skipSlot`, `ensures_modified`).
-/

namespace EmotionEngine

open Host (Content Keeps Reg Slot)

namespace Code

/-! ## Runs that end as wanted -/

/-- The pieces run, and the end of the run is as wanted. -/
def Ensures (body : List Item) (h : Host.State) (Q : Outcome → Prop) : Prop :=
  ∃ o, Runs body h o ∧ Q o

namespace Ensures

variable {body rest : List Item} {h h' : Host.State} {Q : Outcome → Prop}

theorem nil (q : Q (.through h)) : Ensures [] h Q := ⟨_, .nil h, q⟩

theorem insn {i : Host.Insn} (e : i.perform h = some h') (r : Ensures rest h' Q) :
    Ensures (.insn i :: rest) h Q := by
  obtain ⟨o, ho, q⟩ := r
  exact ⟨o, .insn e ho, q⟩

theorem append (r : Runs body h (.through h')) (r' : Ensures rest h' Q) : Ensures (body ++ rest) h Q := by
  obtain ⟨o, ho, q⟩ := r'
  exact ⟨o, r.append ho, q⟩

theorem pass {c : Host.Cond} {path : List Host.Insn} (e : h.holds? c = some false)
    (r : Ensures rest h Q) : Ensures (.leave (some c) path :: rest) h Q := by
  obtain ⟨o, ho, q⟩ := r
  exact ⟨o, .pass e ho, q⟩

theorem leave {cond : Option Host.Cond} {path : List Host.Insn} (j : Jumps h cond)
    (r : Runs (items path) h (.left h')) (q : Q (.left h')) : Ensures (.leave cond path :: rest) h Q :=
  ⟨_, .leave j r, q⟩

end Ensures

/-! ## Leaving -/

/-- The host has left the block: it returned the exit, and holds the guest. -/
structure Exits (h : Host.State) (e : BlockExit) (g : Guest) : Prop where
  guest : h.guest = g
  exit : exit? h = some e

theorem runs_exit (h : Host.State) (e : BlockExit) :
    ∃ h', Runs (items (exit e)) h (.left h') ∧ Exits h' e h.guest := by
  refine ⟨h.set .scratch0 ((BitVec.ofNat 32 e.toNat).setWidth 64), .insn rfl (.ret _ _), rfl, ?_⟩
  unfold exit?
  show ((h.set .scratch0 _).get .scratch0).word?.bind _ = some e
  rw [Host.State.get_set_self]
  cases e <;> rfl

end Code

namespace Host.State

theorem get_setField (h : State) (f : Field) (v : Dword) (r : Reg) :
    (h.setField f v).get r = h.get r := by
  cases f <;> rfl

theorem base_setField (h : State) (f : Field) (v : Dword) : (h.setField f v).base = h.base := by
  cases f <;> rfl

end Host.State

namespace Code

variable {h : Host.State}

theorem env_setField (he : h.get .env = .dword h.base) (f : Field) (v : Dword) :
    (h.setField f v).get .env = .dword (h.setField f v).base := by
  rw [Host.State.get_setField, Host.State.base_setField, he]

theorem runs_setState (he : h.get .env = .dword h.base) {f : Field} (hw : f.wide = false) (w : Word) :
    Runs (items [setState f.offset w]) h (.through (h.setField f (w.setWidth 64))) :=
  runs_insn (Host.Insn.perform_storeImm he hw w)

theorem runs_setPc (he : h.get .env = .dword h.base) (pc : Word) :
    ∃ h', Runs (items [setPc pc]) h (.through h') ∧ h'.get .env = .dword h'.base ∧
      h'.guest = { h.guest with cpu := { h.guest.cpu with pc } } := by
  refine ⟨_, runs_setState he (f := .pc) rfl pc, env_setField he .pc _, ?_⟩
  show ({ h.guest with cpu := { h.guest.cpu with pc := (pc.setWidth 64).setWidth 32 } } : Guest) = _
  rw [Host.Insn.setWidth_setWidth]

theorem runs_setExcCode (he : h.get .env = .dword h.base) (w : Word) :
    ∃ h', Runs (items [setState Layout.excCode w]) h (.through h') ∧ h'.get .env = .dword h'.base ∧
      h'.guest = { h.guest with cpu := { h.guest.cpu with excCode := w } } := by
  refine ⟨_, runs_setState he (f := .excCode) rfl w, env_setField he .excCode _, ?_⟩
  show ({ h.guest with cpu := { h.guest.cpu with excCode := (w.setWidth 64).setWidth 32 } } : Guest) = _
  rw [Host.Insn.setWidth_setWidth]

theorem runs_setDelaySlot (he : h.get .env = .dword h.base) (slot : Bool) :
    ∃ h', Runs (items [setState Layout.excDelaySlot (if slot then 1 else 0)]) h (.through h') ∧
      h'.get .env = .dword h'.base ∧
      h'.guest = { h.guest with cpu := { h.guest.cpu with excDelaySlot := slot } } := by
  refine ⟨_, runs_setState he (f := .excDelaySlot) rfl _, env_setField he .excDelaySlot _, ?_⟩
  cases slot <;> rfl

namespace Site

/-- The end of a run that the flow of an instruction asks for, where `st` is the state of the allocator
after the instruction. -/
def Follows (s : Site) (st : Plan.State) (r : Flow × Guest) (o : Outcome) : Prop :=
  match r.1, o with
  | .next, .through h => Sim st [] h r.2
  | .redirect, .through h => Sim st [] h r.2
  | .fault code, .left h => Exits h .exception (r.2.raiseAt s.insn code)
  | .skipDelaySlot, .left h =>
    Exits h .fallthrough { r.2 with cpu := { r.2.cpu with pc := s.insn.addr + 8 } }
  | .codeModified, .left h =>
    Exits h .codeModified
      (if s.insn.inDelaySlot then r.2 else { r.2 with cpu := { r.2.cpu with pc := s.insn.addr + 4 } })
  | _, _ => False

variable {s : Site} {st mid : Plan.State} {hollow : List GuestReg} {g : Guest} {rest : List Item}

/-- An exception leaves the guest from before the instruction, with the exception recorded. -/
theorem ensures_fault {cond : Option Host.Cond} {code : Option ExcCode} {c : ExcCode}
    (sim : Sim mid hollow h g) (hv : mid.Valid) (hf : s.step.flushPre = mid.flush) (hj : Jumps h cond)
    (hc : code = some c ∨ code = none ∧ g.cpu.excCode = c.toWord) :
    Ensures (s.fault cond code :: rest) h (s.Follows st (.fault c, g)) := by
  obtain ⟨h1, r1, e1, g1⟩ := sim.flush hv
  -- The code of the exception is stored now, or was stored by a helper.
  have recorded : ∃ h2, Runs (items (code.map (fun c => setState Layout.excCode c.toWord)).toList) h1
      (.through h2) ∧ h2.get .env = .dword h2.base ∧
      h2.guest = { g with cpu := { g.cpu with excCode := c.toWord } } := by
    rcases hc with rfl | ⟨rfl, hc⟩
    · obtain ⟨h2, r2, e2, g2⟩ := runs_setExcCode e1 c.toWord
      exact ⟨h2, r2, e2, by rw [g2, g1]⟩
    · refine ⟨h1, .nil h1, e1, ?_⟩
      rw [g1, ← hc]
  obtain ⟨h2, r2, e2, g2⟩ := recorded
  obtain ⟨h3, r3, e3, g3⟩ := runs_setPc e2 (if s.insn.inDelaySlot then s.insn.addr - 4 else s.insn.addr)
  obtain ⟨h4, r4, e4, g4⟩ := runs_setDelaySlot e3 s.insn.inDelaySlot
  obtain ⟨h5, r5, x5⟩ := runs_exit h4 .exception
  refine Ensures.leave hj (?_ : Runs _ _ (.left h5)) ?_
  · rw [hf, items_append, items_append, items_append]
    exact ((r1.append r2).append (r3.append r4)).append r5
  · refine ⟨?_, x5.exit⟩
    rw [x5.guest, g4, g3, g2]
    rfl

/-- A likely branch that is not taken leaves behind its delay slot. -/
theorem ensures_skipSlot {cond : Host.Cond} (sim : Sim st [] h g) (hv : st.Valid)
    (hf : s.step.flushPost = st.flush) (hj : h.holds? cond = some true) :
    Ensures (s.skipSlot cond :: rest) h (s.Follows st (.skipDelaySlot, g)) := by
  obtain ⟨h1, r1, e1, g1⟩ := sim.flush hv
  obtain ⟨h2, r2, e2, g2⟩ := runs_setPc e1 (s.insn.addr + 8)
  obtain ⟨h3, r3, x3⟩ := runs_exit h2 .fallthrough
  refine Ensures.leave hj (?_ : Runs _ _ (.left h3)) ?_
  · rw [hf, items_append, items_append]
    exact (r1.append r2).append r3
  · exact ⟨by rw [x3.guest, g2, g1], x3.exit⟩

/-- A store that invalidated the block leaves the guest from after it. -/
theorem ensures_modified {cond : Host.Cond} (sim : Sim st [] h g) (hv : st.Valid)
    (hf : s.step.flushPost = st.flush) (hj : h.holds? cond = some true) :
    Ensures (s.modified cond :: rest) h (s.Follows st (.codeModified, g)) := by
  obtain ⟨h1, r1, e1, g1⟩ := sim.flush hv
  have stored : ∃ h2, Runs (items (if s.insn.inDelaySlot then [] else [setPc (s.insn.addr + 4)])) h1
      (.through h2) ∧ h2.guest =
        if s.insn.inDelaySlot then g else { g with cpu := { g.cpu with pc := s.insn.addr + 4 } } := by
    cases s.insn.inDelaySlot with
    | true => exact ⟨h1, .nil h1, g1⟩
    | false =>
      obtain ⟨h2, r2, e2, g2⟩ := runs_setPc e1 (s.insn.addr + 4)
      exact ⟨h2, r2, by rw [g2, g1]; rfl⟩
  obtain ⟨h2, r2, g2⟩ := stored
  obtain ⟨h3, r3, x3⟩ := runs_exit h2 .codeModified
  refine Ensures.leave hj (?_ : Runs _ _ (.left h3)) ?_
  · rw [hf, items_append, items_append]
    exact (r1.append r2).append r3
  · exact ⟨x3.guest.trans g2, x3.exit⟩

end Site

end Code

end EmotionEngine
