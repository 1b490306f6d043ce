import EmotionEngine.Machine.Native
import EmotionEngine.Proofs.Code.Total
import EmotionEngine.Proofs.Machine.Prepared

/-!
Entering the code of a block against running the block. A block that the search has found lies in the cache with the
code of its translation, and the code was read before the block ran: it does not matter whether the block drops
itself from the cache on the way. Its code can always be gone on with and returns a known exit, whatever the
registers hold; and where register 0 is zero it leaves what running the block does.

Main statement: `Core.stepNative_succeeds`, for every core and everything shared that is prepared.
-/

namespace EmotionEngine

namespace Block

/-- Code that is entered for a block returns a known exit, and with an exception a known code, for any guest. -/
def Returns (b : Block) (code : List Host.CodeByte) : Prop :=
  ∀ (base : Dword) (spill : Vector Dword GuestReg.count) (g : Guest),
    ∃ exit host, Code.run? code (Code.start base spill (g.enter b)) = some (exit, host) ∧
      (exit = .exception → ∃ code, ExcCode.ofNat? host.guest.cpu.excCode.toNat = some code)

theorem returns_translated {b : Block} (formed : b.Formed) {t : Translation} (translated : b.translate = .ok t) :
    b.Returns t.code := by
  intro base spill g
  obtain ⟨exit, host, ran, credible⟩ := Code.run_translated_any formed translated base spill g
  refine ⟨exit, host, ran, fun raised => ?_⟩
  obtain ⟨code, recorded⟩ := credible.known raised
  exact ⟨code, by rw [recorded, ExcCode.ofNat?_toWord]⟩

end Block

namespace Core

open Shared (Prepared)

/-- A block that may be executed: one from the cache is there. -/
def Held (s : Shared) (r : Runnable) : Prop :=
  ∀ h, r = .cached h → ∃ e : Cache.Entry, s.cache.blocks[h.id]? = some e ∧ e.block = h.block

/-- Entering the code of a block in the cache: the exit is known, and it is that of the block if register 0 is
zero. -/
theorem enterCode_fit (c : Core) (f : Frame) {s : Shared} {h : Cache.Handle} {e : Cache.Entry}
    (held : s.cache.blocks[h.id]? = some e) (block : e.block = h.block) (fit : s.Fit e) :
    ∃ raw exit g, c.enterCode f s h = some (raw, g) ∧ BlockExit.ofNat? raw.toNat = some exit ∧
      Code.Credible .exception { cpu := c.cpu, mem := s.mem } (exit, g) ∧
      (c.cpu.regQuad 0 = 0 → h.block.run { cpu := c.cpu, mem := s.mem } = (exit, g)) := by
  obtain ⟨formed, -, t, translated, loaded⟩ := fit
  rw [block] at formed translated
  obtain ⟨exit, host, ran, credible⟩ :=
    Code.run_translated_any formed translated f.base f.spill { cpu := c.cpu, mem := s.mem }
  have alike (zero : c.cpu.regQuad 0 = 0) : h.block.run { cpu := c.cpu, mem := s.mem } = (exit, host.guest) := by
    obtain ⟨host', ran', guest⟩ :=
      Code.run_translated formed translated f.base f.spill { cpu := c.cpu, mem := s.mem } zero
    obtain ⟨rfl, rfl⟩ := Prod.mk.inj (Option.some.inj (ran'.symm.trans ran))
    rw [guest]
  obtain ⟨host', went, returned⟩ := Option.bind_eq_some_iff.1 ran
  obtain ⟨exit', known, same⟩ := Option.map_eq_some_iff.1 returned
  obtain ⟨rfl, rfl⟩ := Prod.mk.inj same
  obtain ⟨raw, word, known⟩ := Option.bind_eq_some_iff.1 known
  refine ⟨raw, exit', host'.guest, ?_, known, credible, alike⟩
  unfold enterCode
  rw [held]
  dsimp only [Option.bind_eq_bind, Option.bind_some]
  rw [loaded, went]
  dsimp only [Option.bind_some]
  rw [word]
  rfl

/-- What executing a block always comes to. -/
structure Executes (c : Core) (ran : BlockExit × Core × Shared) : Prop where
  zero : ran.2.1.cpu.regQuad 0 = c.cpu.regQuad 0
  raised : ran.1 = .exception → ∃ code : ExcCode, ran.2.1.cpu.excCode = code.toWord
  prepared : ran.2.2.Prepared

/-- A block that has been found executes by its code, and as it runs if register 0 is zero. -/
theorem executeNative_executes (c : Core) (f : Frame) {s : Shared} (h : s.Prepared) {r : Runnable} (held : Held s r) :
    ∃ exit ran, c.executeNative f s r = some (.ok exit, ran) ∧ c.Executes (exit, ran) ∧
      (c.cpu.regQuad 0 = 0 → c.execute s r = (exit, ran)) := by
  cases r with
  | uncached b =>
    obtain ⟨-, -, zero, raised⟩ := c.execute_known s (.uncached b)
    exact ⟨_, _, rfl, ⟨zero, raised, c.execute_prepared h _⟩, fun _ => rfl⟩
  | cached handle =>
    obtain ⟨e, held, block⟩ := held handle rfl
    obtain ⟨raw, exit, g, entered, known, credible, alike⟩ := c.enterCode_fit f held block (h.fit held)
    have ran := h.absorb (credible.mem.leads h.fresh.sound)
    obtain ⟨zero, code, -⟩ := advanceCount_spec g.cpu (BitVec.ofNat 32 handle.block.icount)
    have after := ran.keep (Cache.unpin_keeps ran.fresh.consistent handle.id)
    let core := { c with cpu := g.cpu.advanceCount (BitVec.ofNat 32 handle.block.icount), executed := c.executed + 1 }
    refine ⟨exit, (core, _), ?_, ⟨zero.trans credible.zero, fun raised => ?_, after⟩, fun zero => ?_⟩
    · unfold executeNative
      dsimp only
      rw [entered, Option.map_some]
      dsimp only
      rw [known]
    · obtain ⟨c', recorded⟩ := credible.known raised
      exact ⟨c', code.trans recorded⟩
    · unfold execute
      rw [show (Runnable.cached handle).block = handle.block from rfl, alike zero]

theorem stepNative_eq (c : Core) (f : Frame) (s : Shared) :
    c.stepNative f s =
      if c.atBreakpoint then some (.ok (.breakpoint c.cpu.pc), { c with reported := some c.cpu.pc }, s)
      else if c.passing.cpu.interruptDeliverable then
        some (.ok .interrupt,
          { c.passing with cpu := c.passing.cpu.enterException .interrupt c.cpu.pc false }, s)
      else c.passing.stepBlockNative f s := rfl

theorem stepBlockNative_of_fault {c : Core} {f : Frame} {s s' : Shared}
    (found : c.findBlock c.cpu.pc s = (.ok none, s')) :
    c.stepBlockNative f s =
      some ((c.fetchFault c.cpu.pc).takeException.1, (c.fetchFault c.cpu.pc).takeException.2, s') := by
  unfold stepBlockNative
  dsimp only
  rw [found]

theorem stepBlockNative_of_block {c c' : Core} {f : Frame} {s s' s'' : Shared} {b : Runnable} {exit : BlockExit}
    (found : c.findBlock c.cpu.pc s = (.ok (some b), s'))
    (executed : c.executeNative f s' b = some (.ok exit, c', s'')) :
    c.stepBlockNative f s = some (settle (exit, c', s'')) := by
  unfold stepBlockNative
  dsimp only
  rw [found]
  dsimp only
  rw [executed, Option.map_some]
  cases exit <;> rfl

/-- A step of any core by the code of its blocks succeeds, and is the step of the core if register 0 is zero. -/
theorem stepNative_succeeds (c : Core) (f : Frame) {s : Shared} (h : s.Prepared) :
    ∃ r, c.stepNative f s = some r ∧ c.Succeeds r ∧ (c.cpu.regQuad 0 = 0 → c.step s = r) := by
  have searched := c.passing.findBlock_searched c.cpu.pc h
  have succeeds := c.step_succeeds h
  have stepped := c.step_stepped s
  have native := c.stepNative_eq f s
  generalize c.step s = result at stepped succeeds ⊢
  cases stepped with
  | stops stopped =>
    rw [if_pos stopped] at native
    exact ⟨_, native, succeeds, fun _ => rfl⟩
  | interrupts free deliverable =>
    rw [if_neg (by simp [free]), if_pos deliverable] at native
    exact ⟨_, native, succeeds, fun _ => rfl⟩
  | fails _ e =>
    rw [e] at searched
    cases searched
  | faults searches e =>
    rw [if_neg (by simp [searches.free]), if_neg (by simp [searches.calm]),
      stepBlockNative_of_fault (c := c.passing) e] at native
    exact ⟨_, native, succeeds, fun _ => rfl⟩
  | @runs r s' searches e =>
    rw [if_neg (by simp [searches.free]), if_neg (by simp [searches.calm])] at native
    rw [e] at searched
    cases searched with
    | block _ _ entry prepared held =>
      obtain ⟨exit, ran, executed, executes, same⟩ := c.passing.executeNative_executes f prepared held
      rw [stepBlockNative_of_block (c := c.passing) e executed] at native
      obtain ⟨o, cpu, settled, zero⟩ := settle_known ran.2 executes.raised
      refine ⟨_, native, ?_, fun zero => by rw [same zero]⟩
      rw [settled]
      exact ⟨⟨o, rfl⟩, zero.trans executes.zero, executes.prepared⟩

end Core

end EmotionEngine
