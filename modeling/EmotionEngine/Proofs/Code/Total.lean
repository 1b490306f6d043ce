import EmotionEngine.Proofs.Code.Blind
import EmotionEngine.Proofs.Code.Correct
import EmotionEngine.Proofs.Memory.Evolve

/-!
Code returns for any guest. Where register 0 is not zero, the code of a block and the block part: operations of the
guest read what is there, and the code takes it to be zero. But the code runs as it does for the same guest with
zero there (`Seated.ensures_blind`); only the two kinds of instruction whose helpers read whole registers are run as
they are. Either way it follows a flow that some operation of the guest could have had (`Seated.ensures_any`), and
so it comes to a known exit.

Main statement: `run_translated_any`.
-/

namespace EmotionEngine

open Host (Content Keeps arg)
open Plan (State)

namespace Host.State

@[simp] theorem blot_blot (h : Host.State) (v w : Dword) : (h.blot v).blot w = h.blot w := by
  unfold blot
  rw [Guest.blot_blot]

theorem blot_self (h : Host.State) : h.blot (h.guest.cpu.reg 0) = h := by
  unfold blot
  rw [Guest.blot_self]

theorem copies_blot (h : Host.State) (v : Dword) : (h.blot v).copies = h.copies.setHome (.gpr 0) (.dword v) := by
  unfold copies Copies.setHome
  simp only [Copies.mk.injEq]
  refine ⟨?_, funext fun r => ?_, rfl⟩
  · funext r
    show Content.dword ((h.guest.blot v).cpu.file r) = _
    rw [Guest.file_blot, Function.update_apply, Function.update_apply]
    split <;> rfl
  · exact congrArg Content.dword (h.value_blot v ⟨nofun, nofun⟩)

end Host.State

/-- A host that stands for a guest does so with anything in register 0. -/
theorem Sim.blot {st : State} {hollow : List GuestReg} {h : Host.State} {g : Guest} (sim : Sim st hollow h g)
    (valid : st.Valid) (v : Dword) : Sim st hollow (h.blot v) (g.blot v) := by
  have file : (g.blot v).contents = Function.update g.contents (.gpr 0) (.dword v) := by
    funext r
    show Content.dword ((g.blot v).cpu.file r) = _
    rw [Guest.file_blot, Function.update_apply, Function.update_apply]
    split <;> rfl
  refine ⟨⟨sim.serving.env, ?_⟩, ?_⟩
  · show h.guest.blot v = (g.blot v).withFile (h.guest.blot v).cpu.file
    rw [Guest.file_blot]
    conv_lhs => rw [sim.serving.guest]
    unfold Guest.blot
    rw [Guest.withFile_withFile, Guest.withFile_withFile, Guest.cpu_withFile, Cpu.file_withFile]
  · rw [file, h.copies_blot]
    exact sim.tracks.changeHome (by rw [valid.zero]) _

namespace Code

/-- The same way out with anything in register 0. -/
theorem Exits.blot {h : Host.State} {e : BlockExit} {g : Guest} (x : Exits h e g) (v : Dword) :
    Exits (h.blot v) e (g.blot v) :=
  ⟨congrArg (Guest.blot · v) x.guest, x.exit⟩

theorem Site.Follows.blot {s : Site} {st : State} {r : Flow × Guest} {o : Outcome} (follows : s.Follows st r o)
    (valid : st.Valid) (v : Dword) : s.Follows st (r.1, r.2.blot v) (o.blot v) := by
  obtain ⟨flow, g⟩ := r
  unfold Follows at follows ⊢
  cases flow <;> cases o
  case next.through | redirect.through => exact Sim.blot follows valid v
  case fault.left | skipDelaySlot.left => exact Exits.blot follows v
  case codeModified.left h =>
    have x : Exits _ _ _ := Exits.blot follows v
    rw [apply_ite (Guest.blot · v)] at x
    exact x
  all_goals exact follows

variable {s : Site} {mid written : State} {hollow : List GuestReg} {h : Host.State} {g : Guest}

theorem Seated.blot (p : Seated s mid written hollow h g) : Placed s mid written hollow (h.blot 0) (g.blot 0) :=
  { p.with_sim (p.sim.blot p.mid_valid 0) with zero := congrFun (g.file_blot 0) (.gpr 0) }

/-- Blind code follows what the instruction does with zero in register 0. -/
theorem Seated.ensures_blind (p : Seated s mid written hollow h g) (quiet : g.cpu.faultPending = false)
    (blind : Blind s.code) :
    Ensures s.code h (s.Follows written
      (((g.blot 0).exec s.insn).1, ((g.blot 0).exec s.insn).2.blot (h.guest.cpu.reg 0))) := by
  obtain ⟨o, run, follows⟩ := p.blot.code_follows quiet
  have again := blind.runs (h.guest.cpu.reg 0) p.blot.sim.serving.env run
  rw [Host.State.blot_blot, Host.State.blot_self] at again
  exact ⟨_, again, follows.blot p.written_valid _⟩

theorem Seated.runs_effectiveAddr (p : Seated s mid written hollow h g) {base : RegNum} (off : Half)
    (hr : Placed.Reads s (.gpr base)) :
    ∃ h1 a, Runs (items (s.effectiveAddr base off)) h (.through h1) ∧ Keeps h h1 ∧ h1.get (arg 1) = .dword a := by
  obtain ⟨h1, a, run, keeps, a1, -⟩ := p.blot.runs_effectiveAddr off hr
  have again := (Site.allBlind_effectiveAddr base off).blind.runs (h.guest.cpu.reg 0) p.blot.sim.serving.env run
  rw [Host.State.blot_blot, Host.State.blot_self] at again
  refine ⟨_, a, again, ⟨?_, keeps.base, keeps.spill, keeps.saved⟩, a1⟩
  show h1.guest.blot _ = _
  rw [keeps.guest]
  show (h.guest.blot 0).blot _ = _
  rw [Guest.blot_blot, Guest.blot_self]

theorem Seated.spares (p : Seated s mid written hollow h g) : s.Spares := by
  have none (st : State) : ∀ m ∈ st.flush, m.guest ≠ .gpr 0 := by
    have all : ∀ r ∈ GuestReg.all, r ≠ .gpr 0 := by decide
    intro m mem
    rw [State.flush_eq, List.mem_filterMap] at mem
    obtain ⟨r, listed, moved⟩ := mem
    have same : m.guest = r := by
      unfold State.flushMove at moved
      split at moved <;> cases moved <;> rfl
    rw [same]
    exact all r listed
  exact ⟨by rw [p.flushPre]; exact none mid, by rw [p.flushPost]; exact none written⟩

/-- For any guest, the code of an instruction follows a flow that the instruction might have. -/
theorem Seated.ensures_any (p : Seated s mid written hollow h g) (quiet : g.cpu.faultPending = false) :
    ∃ r, g.Proceeds s.insn r ∧ Ensures s.code h (s.Follows written r) := by
  by_cases quad : ∃ rt base off, s.insn.insn = .store .sq rt base off
  · obtain ⟨rt, base, off, hi⟩ := quad
    have hr : s.insn.insn.uses.reads = regList [.gpr base] := by rw [hi]; rfl
    obtain ⟨h1, a, r1, k1, a1⟩ := p.runs_effectiveAddr off (Placed.reads_of hr List.mem_cons_self)
    refine ⟨_, ?_, p.ensures_storeQuad hi r1 k1 a1⟩
    exact (g.does_execStore (i := s.insn) (by rw [hi]; rfl) _ _ _).proceeds
  by_cases mmi : ∃ op rd rs rt, s.insn.insn = .mmi op rd rs rt
  · obtain ⟨op, rd, rs, rt, hi⟩ := mmi
    exact ⟨_, g.exec_proceeds s.insn, p.code_mmi hi⟩
  have blind := Site.blind_code p.spares (fun rt base off hi => quad ⟨rt, base, off, hi⟩)
    fun op rd rs rt hi => mmi ⟨op, rd, rs, rt, hi⟩
  refine ⟨_, ?_, p.ensures_blind quiet blind⟩
  have proceeds := (g.blot 0).exec_proceeds s.insn
  have same : h.guest.cpu.reg 0 = g.cpu.reg 0 :=
    Content.dword.inj (p.sim.tracks.clean (.gpr 0) (by rw [p.mid_valid.zero]))
  refine ⟨?_, proceeds.quiet, proceeds.redirect, proceeds.mem⟩
  dsimp only
  rw [same]
  unfold Guest.blot at proceeds ⊢
  rw [Guest.cpu_withFile, Cpu.regQuad_withFile, proceeds.zero, Guest.cpu_withFile, Cpu.regQuad_withFile,
    highHalf_joinHalves, Function.update_self]
  exact joinHalves_halves _

/-! ## Instructions in order -/

/-- What code can do, whatever register 0 holds: it leaves that alone, an exception is recorded, and memory is
accessed. -/
structure Credible {α : Type} (raised : α) (g : Guest) (r : α × Guest) : Prop where
  zero : r.2.cpu.regQuad 0 = g.cpu.regQuad 0
  known : r.1 = raised → ∃ code : ExcCode, r.2.cpu.excCode = code.toWord
  mem : g.mem.Pieces r.2.mem

theorem Credible.of_ne {α : Type} {raised x : α} {g g' : Guest} (other : x ≠ raised)
    (zero : g'.cpu.regQuad 0 = g.cpu.regQuad 0) (pieces : g.mem.Pieces g'.mem) : Credible raised g (x, g') :=
  ⟨zero, fun same => absurd same other, pieces⟩

/-- For any guest, the code of instructions in order runs to an end that they might come to. -/
theorem ensures_sites_any {is : List DecodedInsn} {st last : State} {ss : List Step}
    (hp : State.Plans (is.map (fun i => i.insn.uses)) st ss last) (he : EretLast is) {h : Host.State}
    {g : Guest} (sim : Sim st [] h g) (quiet : g.cpu.faultPending = false) :
    ∃ r, Credible (some .exception) g r ∧
      Ensures ((List.zipWith (fun insn step => ({ insn, step } : Site)) is ss).flatMap Site.body) h
        (Ran is last r) := by
  induction is generalizing st ss h g with
  | nil =>
    cases hp with
    | nil => exact ⟨(none, g), .of_ne (by decide) rfl .refl, .nil ⟨sim, rfl⟩⟩
  | cons i is ih =>
    rw [List.map_cons] at hp
    cases hp with
    | @cons _ _ _ s mid written next hollow ss _ step rest =>
      rw [List.zipWith_cons_cons, List.flatMap_cons]
      obtain ⟨h1, r1, sim1⟩ := sim.moves step.before
      obtain ⟨⟨flow, g'⟩, proceeds, code⟩ := (Seated.of_planned (s := ⟨i, s⟩) step sim1).ensures_any quiet
      obtain ⟨o, run, f⟩ := Site.ensures_moved (s := ⟨i, s⟩) step r1 code
      have accessed : g.mem.Pieces g'.mem := proceeds.mem.pieces
      -- A return from an exception is the last instruction.
      have returned {h' : Host.State} (hi : i.insn = .eret) (run : Runs (Site.mk i s).body h (.through h'))
          (f : Sim next [] h' g') : ∃ r, Credible (some .exception) g r ∧
            Ensures ((Site.mk i s).body ++ (List.zipWith (fun insn step => ({ insn, step } : Site)) is ss).flatMap
              Site.body) h (Ran (i :: is) last r) := by
        obtain rfl : is = [] := he.1 hi
        cases rest with
        | nil =>
          refine ⟨(some .branch, g'), .of_ne (by decide) proceeds.zero accessed, .append run (.nil ⟨f, ?_⟩)⟩
          rw [if_pos (by simp [endsEret, hi])]
      cases flow <;> cases o
      case next.through h' =>
        by_cases hi : i.insn = .eret
        · exact returned hi run f
        obtain ⟨r, credible, o, later, ran⟩ := ih rest he.2 f ((proceeds.quiet rfl).trans quiet)
        refine ⟨r, ⟨credible.zero.trans proceeds.zero, credible.known, accessed.trans credible.mem⟩, o,
          run.append later, ?_⟩
        cases o with
        | left h2 => exact ran
        | through h2 =>
          refine ⟨ran.1, ?_⟩
          rw [endsEret_cons hi]
          exact ran.2
      case redirect.through h' => exact returned (proceeds.redirect rfl) run f
      case fault.left c h' =>
        exact ⟨(some .exception, g'.raiseAt i c), ⟨proceeds.zero, fun _ => ⟨c, rfl⟩, accessed⟩, _, run.append_left,
          _, rfl, f⟩
      case skipDelaySlot.left h' =>
        exact ⟨(some .fallthrough, { g' with cpu := { g'.cpu with pc := i.addr + 8 } }),
          .of_ne (by decide) proceeds.zero accessed, _, run.append_left, _, rfl, f⟩
      case codeModified.left h' =>
        refine ⟨(some .codeModified,
          if i.inDelaySlot then g' else { g' with cpu := { g'.cpu with pc := i.addr + 4 } }),
          .of_ne (by decide) ?_ ?_, _, run.append_left, _, rfl, f⟩
        · dsimp only
          split <;> exact proceeds.zero
        · dsimp only
          split <;> exact accessed
      all_goals exact False.elim f

/-! ## Whole blocks -/

theorem Credible.conclude {g : Guest} {r : Option BlockExit × Guest} (credible : Credible (some .exception) g r)
    (b : Block) : Credible .exception g (Code.conclude b r) := by
  obtain ⟨_ | e, g'⟩ := r
  · obtain ⟨zero, known⟩ := g'.leave_spec b
    exact ⟨zero.trans credible.zero, known, (g'.leave_mem b).symm ▸ credible.mem⟩
  · exact ⟨credible.zero, fun raised => credible.known (congrArg some raised), credible.mem⟩

/-- The code of a block of the builder's shape returns a known exit for any guest. -/
theorem run_translated_any {b : Block} (hb : b.Formed) {t : Translation} (ht : b.translate = .ok t)
    (base : Dword) (spill : Vector Dword GuestReg.count) (g : Guest) :
    ∃ e s, run? t.code (start base spill (g.enter b)) = some (e, s) ∧
      Credible .exception g (e, s.guest) := by
  obtain ⟨p, t', hp, -⟩ := translate_ok b
  obtain ⟨p', hp', -, last, plans, home⟩ := Plan.ofBlock_plans b
  obtain rfl : p' = p := Except.ok.inj (hp'.symm.trans hp)
  obtain ⟨r, credible, run⟩ := ensures_sites_any plans hb.last (sim_start base spill (g.enter b)) rfl
  obtain ⟨h', run, x⟩ := runs_body_of hb hp home run
  have ended := credible.conclude b
  refine ⟨_, h', run?_of_runs hb ht hp run x, ?_⟩
  rw [x.guest]
  exact ⟨ended.zero, ended.known, ended.mem⟩

end Code

end EmotionEngine
