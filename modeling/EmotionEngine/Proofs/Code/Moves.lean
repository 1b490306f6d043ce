import EmotionEngine.Proofs.Code.Link
import EmotionEngine.Proofs.Cpu.File
import EmotionEngine.Proofs.Host.Perform
import EmotionEngine.Proofs.Plan.Steps

/-!
Host states that stand for a guest under a plan. `Sim` is that the guest values are where the allocator's
state says, that all else about the guest is as plain execution has it, and that the base register holds
the address of the processor state. Moves of a plan keep it, and a flush leaves exactly the guest.

Main statements: moves that the allocator makes lead from one state of the allocator to the next
(`Sim.moves`), and after its flush list the host holds the guest (`Sim.flush`).
-/

namespace EmotionEngine

open Host (Content Keeps Reg Slot)
open Code (Outcome Runs items ofMove ofMoves)

/-! ## Copies in the host -/

namespace Host.State

def copies (h : State) : Copies Content where
  home g := .dword (h.guest.cpu.file g)
  spill g := .dword (h.value g.spillField)
  slot k := h.get k.reg

theorem value_homeField (h : State) (g : GuestReg) : h.value g.homeField = h.guest.cpu.file g := by
  cases g <;> rfl

theorem wide_homeField (g : GuestReg) : g.homeField.wide = true := by cases g <;> rfl

/-- The places for guest values are homes, spill slots and registers that calls preserve. -/
theorem copies_congr {h h' : State} (file : h'.guest.cpu.file = h.guest.cpu.file)
    (spill : h'.spill = h.spill) (saved : ∀ r ∈ Reg.calleeSaved, h'.get r = h.get r) :
    h'.copies = h.copies := by
  unfold copies
  simp only [Copies.mk.injEq]
  refine ⟨by rw [file], ?_, ?_⟩
  · funext r
    show Content.dword (h'.spill.get _) = Content.dword (h.spill.get _)
    rw [spill]
  · funext x
    exact saved x.reg (Slot.reg_mem_calleeSaved x)

theorem copies_keeps {h h' : State} (k : Keeps h h') : h'.copies = h.copies :=
  copies_congr (by rw [k.guest]) k.spill k.saved

/-- A host register for guest values is a place of its own. -/
theorem copies_set (h : State) (k : Slot) (v : Dword) :
    (h.set k.reg v).copies = h.copies.setSlot k (.dword v) := by
  unfold copies Copies.setSlot
  simp only [Copies.mk.injEq]
  refine ⟨rfl, rfl, ?_⟩
  funext x
  by_cases e : x = k
  · subst e
    simp
  · have ne : x.reg ≠ k.reg := fun e' => e (Slot.reg_injective e')
    rw [get_set_of_ne h v ne, Function.update_of_ne e]

theorem guest_setField_home (h : State) (g : GuestReg) (v : Dword) :
    (h.setField g.homeField v).guest = h.guest.withFile (Function.update h.guest.cpu.file g v) := by
  have low : ∀ f : GuestReg → Dword, (∀ r, f (.gpr r) = h.guest.cpu.reg r) →
      Cpu.withLow h.guest.cpu.gpr f = h.guest.cpu.gpr := by
    intro f hf
    apply Cpu.ext_gpr
    intro r
    rw [Cpu.get_withLow, hf r]
    exact joinHalves_halves _
  cases g with
  | gpr r =>
    have gpr : setAt h.guest.cpu.gpr r (joinHalves (highHalf (h.guest.cpu.regQuad r)) v) =
        Cpu.withLow h.guest.cpu.gpr (Function.update h.guest.cpu.file (.gpr r) v) := by
      apply Cpu.ext_gpr
      intro x
      rw [get_setAt, Cpu.get_withLow]
      by_cases e : x = r
      · subst e
        simp [Cpu.regQuad]
      · rw [if_neg e, Function.update_of_ne (by simpa using e)]
        exact (joinHalves_halves _).symm
    show ({ h.guest with cpu := { h.guest.cpu with gpr := _ } } : Guest) = _
    rw [gpr]
    rfl
  | hi =>
    unfold Guest.withFile Cpu.withFile
    rw [low _ (fun _ => rfl)]
    rfl
  | lo =>
    unfold Guest.withFile Cpu.withFile
    rw [low _ (fun _ => rfl)]
    rfl

theorem copies_setField_home (h : State) (g : GuestReg) (v : Dword) :
    (h.setField g.homeField v).copies = h.copies.setHome g (.dword v) := by
  unfold copies Copies.setHome
  simp only [Copies.mk.injEq]
  refine ⟨?_, ?_, ?_⟩
  · funext x
    rw [guest_setField_home, Guest.cpu_withFile, Cpu.file_withFile]
    by_cases e : x = g
    · subst e
      simp
    · rw [Function.update_of_ne e, Function.update_of_ne e]
  · cases g <;> rfl
  · cases g <;> rfl

theorem spillField_injective {g x : GuestReg} (h : g.spillField = x.spillField) : g = x := by
  apply GuestReg.index_injective
  have e := congrArg Field.offset h
  simp only [GuestReg.offset_spillField, GuestReg.spill, Layout.spill] at e
  omega

theorem copies_setField_spill (h : State) (g : GuestReg) (v : Dword) :
    (h.setField g.spillField v).copies = h.copies.setSpill g (.dword v) := by
  unfold copies Copies.setSpill
  simp only [Copies.mk.injEq]
  refine ⟨rfl, ?_, rfl⟩
  funext x
  rw [value_setField h g.spillField x.spillField v rfl]
  by_cases e : x = g
  · subst e
    simp
  · have ne : x.spillField ≠ g.spillField := fun e' => e (spillField_injective e')
    rw [if_neg ne, Function.update_of_ne e]

end Host.State

/-! ## Moves -/

/-- The host at work for a guest: it can reach the processor state, and all but the guest values in it is
as the guest has it. -/
structure Serving (h : Host.State) (g : Guest) : Prop where
  env : h.get .env = .dword h.base
  guest : h.guest = g.withFile h.guest.cpu.file

namespace Serving

variable {h h' : Host.State} {g : Guest}

theorem keeps (s : Serving h g) (k : Keeps h h') : Serving h' g := by
  refine ⟨?_, ?_⟩
  · rw [k.saved .env (by decide), k.base, s.env]
  · rw [k.guest]
    exact s.guest

/-- Guest values may change in host registers and at home. -/
theorem set_slot (s : Serving h g) (k : Slot) (v : Dword) : Serving (h.set k.reg v) g := by
  refine ⟨?_, s.guest⟩
  have ne : Reg.env ≠ k.reg := by revert k; decide
  rw [Host.State.get_set_of_ne h v ne]
  exact s.env

theorem setField_home (s : Serving h g) (r : GuestReg) (v : Dword) :
    Serving (h.setField r.homeField v) g := by
  refine ⟨?_, ?_⟩
  · cases r <;> exact s.env
  · rw [Host.State.guest_setField_home, Guest.cpu_withFile, Cpu.file_withFile]
    exact (congrArg (Guest.withFile · _) s.guest).trans (Guest.withFile_withFile _ _ _)

theorem setField_spill (s : Serving h g) (r : GuestReg) (v : Dword) :
    Serving (h.setField r.spillField v) g := ⟨s.env, s.guest⟩

end Serving

namespace Code

variable {h : Host.State} {g : Guest}

theorem runs_insn {i : Host.Insn} {h h' : Host.State} (e : i.perform h = some h') :
    Runs (items [i]) h (.through h') := .insn e (.nil h')

theorem items_append (a b : List Host.Insn) : items (a ++ b) = items a ++ items b := List.map_append

theorem runs_loadState (s : Serving h g) {f : Field} (hw : f.wide = true) (dst : Reg) :
    (loadState dst f.offset).perform h = some (h.set dst (h.value f)) := by
  have := Host.Insn.perform_load s.env f dst
  rwa [hw] at this

theorem runs_storeState (s : Serving h g) {f : Field} (hw : f.wide = true) {src : Reg} {v : Dword}
    (hv : h.get src = .dword v) : (storeState src f.offset).perform h = some (h.setField f v) := by
  have := Host.Insn.perform_store s.env f hv
  rwa [hw, if_pos rfl] at this

theorem runs_move (s : Serving h g) (m : Move) {v : Dword}
    (hv : h.copies.read m.guest m.source = .dword v) :
    ∃ h', Runs (items (ofMove m)) h (.through h') ∧ Serving h' g ∧ h'.copies = m.run h.copies := by
  rw [Move.run, hv]
  cases m with
  | loadHome r k =>
    have e := runs_loadState s (Host.State.wide_homeField r) k.reg
    rw [GuestReg.offset_homeField, Host.State.value_homeField] at e
    refine ⟨_, runs_insn e, s.set_slot k _, ?_⟩
    rw [Host.State.copies_set]
    exact congrArg (Copies.setSlot _ k) hv
  | reload r k =>
    have e := runs_loadState s (f := r.spillField) rfl k.reg
    refine ⟨_, runs_insn e, s.set_slot k _, ?_⟩
    rw [Host.State.copies_set]
    exact congrArg (Copies.setSlot _ k) hv
  | spill r k =>
    exact ⟨_, runs_insn (runs_storeState s (f := r.spillField) rfl hv), s.setField_spill r v,
      h.copies_setField_spill r v⟩
  | writeBack r k =>
    have e := runs_storeState s (Host.State.wide_homeField r) hv
    rw [GuestReg.offset_homeField] at e
    exact ⟨_, runs_insn e, s.setField_home r v, h.copies_setField_home r v⟩
  | spillToHome r =>
    have keep : Keeps h (h.set .scratch0 v) := (Keeps.refl h).set (by decide) v
    have e := runs_loadState s (f := r.spillField) rfl .scratch0
    rw [show h.value r.spillField = v from Content.dword.inj hv] at e
    have e' := runs_storeState (s.keeps keep) (Host.State.wide_homeField r)
      (h.get_set_self .scratch0 v)
    rw [GuestReg.offset_homeField] at e'
    refine ⟨_, .insn e (.insn e' (.nil _)), (s.keeps keep).setField_home r v, ?_⟩
    rw [Host.State.copies_setField_home, Host.State.copies_keeps keep]
    rfl

theorem runs_moves (s : Serving h g) {ms : List Move} {file : GuestReg → Dword}
    (hf : Faithful (fun r => Content.dword (file r)) ms h.copies) :
    ∃ h', Runs (items (ofMoves ms)) h (.through h') ∧ Serving h' g ∧
      h'.copies = h.copies.after ms := by
  induction ms generalizing h with
  | nil => exact ⟨h, .nil h, s, rfl⟩
  | cons m ms ih =>
    obtain ⟨h1, r1, s1, c1⟩ := runs_move s m hf.1
    obtain ⟨h2, r2, s2, c2⟩ := ih s1 (by rw [c1]; exact hf.2)
    refine ⟨h2, ?_, s2, ?_⟩
    · show Runs (items (ofMove m ++ ofMoves ms)) h (.through h2)
      rw [items_append]
      exact r1.append r2
    · rw [c2, c1, Copies.after_cons]

end Code

/-! ## The simulation -/

/-- The guest values as contents of host registers. -/
def Guest.contents (g : Guest) (r : GuestReg) : Content := .dword (g.cpu.file r)

/-- The host stands for a guest, with the guest values where the allocator's state says. -/
structure Sim (st : Plan.State) (hollow : List GuestReg) (h : Host.State) (g : Guest) : Prop where
  serving : Serving h g
  tracks : Tracks st hollow g.contents h.copies

namespace Sim

variable {st st' : Plan.State} {hollow hollow' : List GuestReg} {h h' : Host.State} {g : Guest}

theorem keeps (s : Sim st hollow h g) (k : Keeps h h') : Sim st hollow h' g := by
  refine ⟨s.serving.keeps k, ?_⟩
  rw [Host.State.copies_keeps k]
  exact s.tracks

/-- The guest may change in all but its guest values. -/
theorem of_guest {g' : Guest} (s : Sim st hollow h g) (guest : h'.guest = g'.withFile h.guest.cpu.file)
    (file : g'.cpu.file = g.cpu.file) (base : h'.base = h.base) (spill : h'.spill = h.spill)
    (saved : ∀ r ∈ Reg.calleeSaved, h'.get r = h.get r) : Sim st hollow h' g' := by
  have same : h'.guest.cpu.file = h.guest.cpu.file := by rw [guest, Guest.cpu_withFile, Cpu.file_withFile]
  have copies : h'.copies = h.copies := Host.State.copies_congr same spill saved
  refine ⟨⟨?_, ?_⟩, ?_⟩
  · rw [saved .env (by decide), base, s.serving.env]
  · rw [same]
    exact guest
  · rw [copies, show g'.contents = g.contents by funext r; rw [Guest.contents, file]; rfl]
    exact s.tracks

/-- Moves of the allocator lead from one of its states to another. -/
theorem moves (s : Sim st hollow h g) {ms : List Move} (c : Carries st hollow ms st' hollow') :
    ∃ h', Runs (items (ofMoves ms)) h (.through h') ∧ Sim st' hollow' h' g := by
  obtain ⟨f, t⟩ := c _ _ s.tracks
  obtain ⟨h', r, sv, e⟩ := Code.runs_moves s.serving f
  exact ⟨h', r, sv, by rw [e]; exact t⟩

/-- A flush leaves exactly the guest. -/
theorem flush (s : Sim st hollow h g) (hv : st.Valid) :
    ∃ h', Runs (items (ofMoves st.flush)) h (.through h') ∧ h'.get .env = .dword h'.base ∧
      h'.guest = g := by
  obtain ⟨h', r, sv, e⟩ := Code.runs_moves s.serving (s.tracks.faithful_flush hv)
  have file : h'.guest.cpu.file = g.cpu.file := by
    funext x
    have home := s.tracks.home_flush hv x
    rw [← e] at home
    exact Content.dword.inj home
  refine ⟨h', r, sv.env, ?_⟩
  rw [sv.guest, file, Guest.withFile_file]

end Sim

end EmotionEngine
