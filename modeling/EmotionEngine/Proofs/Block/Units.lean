import EmotionEngine.Proofs.Block.Alike
import EmotionEngine.Proofs.Block.Watch

/-!
A block does what its instructions do one at a time. A unit is one instruction, or a branch with its delay
slot, fetched at the program counter just before it runs; a guest that goes on unit by unit sees every
change that is made to the code. A block does the same for as long as it runs, since it stops when an
instruction of it writes one of its pages. What a device stores while it is called is no store of an
instruction, and the block goes on: devices must keep off its pages.

Main statement: a run of a block agrees with as many units as the block executes (`Block.run_units`). It fails
where a device patches the block that calls it (`Block.dma_overtaken`).
-/

namespace EmotionEngine

/-! ## Units -/

namespace Guest

/-- Run the unit at the program counter. If nothing can be fetched there, that is the exception. -/
def stepUnit (g : Guest) : Guest :=
  match Block.build g.mem 1 [] g.cpu.pc with
  | (.ok b, mem) => (b.run { g with mem }).2
  | (.error _, mem) =>
    { cpu := { g.cpu.raiseFault .instructionBus (some g.cpu.pc) with excDelaySlot := false }, mem }

def stepUnits : Nat → Guest → Guest
  | 0, g => g
  | n + 1, g => stepUnits n g.stepUnit

/-- How many units start when instructions run in order, and one more if they all run and what follows
them cannot be fetched. A delay slot belongs to the unit of its branch. -/
def unitsOf (g : Guest) (t : Terminator) : List DecodedInsn → Nat
  | [] => if Block.fetchFailed t then 1 else 0
  | i :: rest =>
    (if i.inDelaySlot then 0 else 1) +
      match g.exec i with
      | (.next, g) => g.unitsOf t rest
      | _ => 0

end Guest

/-- How many units a block executes. -/
def Block.units (b : Block) (g : Guest) : Nat := (g.enter b).unitsOf b.terminator b.insns

namespace Block

/-! ## Building leaves the contents of memory alone -/

theorem Building.fetch_contents (st : Building) (addr : Word) :
    (st.fetch addr).1 = st.mem.fetch addr ∧ st.mem.SameContents (st.fetch addr).2.mem := by
  have marked := Memory.SameContents.markCode st.mem (pageOf (virtToPhys addr))
  unfold Building.fetch
  dsimp only
  split
  · exact ⟨rfl, .refl _⟩
  · split
    · next mem marking =>
      have unmapped : st.mem.page? (pageOf (virtToPhys addr)) = none := by
        unfold Memory.markCode at marking
        split at marking
        · assumption
        · cases (Prod.mk.inj marking).1
      rw [marking] at marked
      refine ⟨?_, marked⟩
      unfold Memory.fetch
      dsimp only
      rw [unmapped]
    · next version mem marking =>
      rw [marking] at marked
      exact ⟨marked.fetch addr, marked⟩

/-- Whether a fetch fails can be told from memory afterwards as well. -/
theorem Building.fetch_failed {st st' : Building} {addr : Word} {e : MemError}
    (h : st.fetch addr = (.error e, st')) : st'.mem.fetch addr = .error e := by
  obtain ⟨same, contents⟩ := st.fetch_contents addr
  rw [h] at same contents
  rw [contents.fetch, ← same]

theorem scan_contents (stops : List Word) (left : Nat) (st : Building) (pc word : Word) :
    st.mem.SameContents (scan stops left st pc word).2.2.mem := by
  fun_induction scan stops left st pc word with
  | case1 left st pc word insn here next branch w st' fetched =>
    have contents := (st.fetch_contents next).2
    rwa [fetched] at contents
  | case2 left st pc word insn next branch e st' failed =>
    have contents := (st.fetch_contents next).2
    rwa [failed] at contents
  | case3 left st pc word insn here branch ends => exact .refl _
  | case4 st pc word insn here branch ends => exact .refl _
  | case5 st pc word insn here next branch ends left pageEnd => exact .refl _
  | case6 st pc word insn here next branch ends left pageEnd stop => exact .refl _
  | case7 st pc word insn here next branch ends left pageEnd stop e st' failed =>
    have contents := (st.fetch_contents next).2
    rwa [failed] at contents
  | case8 st pc word insn here next branch ends left pageEnd stop w st' fetched rest t st'' scanned ih =>
    have contents := (st.fetch_contents next).2
    rw [fetched] at contents
    rw [scanned] at ih
    exact contents.trans ih

theorem build_contents (mem : Memory) (limit : Nat) (stops : List Word) (entry : Word) :
    mem.SameContents (build mem limit stops entry).2 := by
  have first := (Building.fetch_contents { mem, pages := [] } entry).2
  unfold build
  split
  · next fetched => rwa [fetched] at first
  · next w st fetched =>
    rw [fetched] at first
    exact first.trans (scan_contents stops (max limit 1 - 1) st entry w)

/-! ## The instructions of a block -/

def plainAt (pc word : Word) : DecodedInsn :=
  { addr := pc, word, insn := Insn.decode word, inDelaySlot := false }

def slotAt (pc word : Word) : DecodedInsn := { addr := pc, word, insn := slotInsn word, inDelaySlot := true }

/-- The rest of a block from `pc` on, as the builder reads it from memory. -/
inductive Follows (st : Building) : Word → List DecodedInsn → Terminator → Prop where
  | branch {pc word w : Word} {t : Terminator} (known : st.Knows pc word)
    (slot : (Insn.decode word).hasDelaySlot = true) (known' : st.Knows (pc + 4) w)
    (ends : fetchFailed t = false) : Follows st pc [plainAt pc word, slotAt (pc + 4) w] t
  /-- The delay slot cannot be fetched, and the branch is left out. -/
  | cut {pc word : Word} {e : MemError} (known : st.Knows pc word)
    (slot : (Insn.decode word).hasDelaySlot = true) (failed : st.mem.fetch (pc + 4) = .error e) :
    Follows st pc [] (.fetchFault (pc + 4) (some pc))
  | last {pc word : Word} {t : Terminator} (known : st.Knows pc word)
    (plain : (Insn.decode word).hasDelaySlot = false) (ends : fetchFailed t = false) :
    Follows st pc [plainAt pc word] t
  | fault {pc word : Word} {e : MemError} (known : st.Knows pc word)
    (plain : (Insn.decode word).hasDelaySlot = false) (failed : st.mem.fetch (pc + 4) = .error e) :
    Follows st pc [plainAt pc word] (.fetchFault (pc + 4) none)
  | more {pc word : Word} {rest : List DecodedInsn} {t : Terminator} (known : st.Knows pc word)
    (plain : (Insn.decode word).hasDelaySlot = false) (follows : Follows st (pc + 4) rest t) :
    Follows st pc (plainAt pc word :: rest) t

open Building in
theorem scan_follows (stops : List Word) (left : Nat) (st : Building) (pc word : Word) (good : st.Good)
    (known : st.Knows pc word) :
    Follows (scan stops left st pc word).2.2 pc (scan stops left st pc word).1
      (scan stops left st pc word).2.1 := by
  fun_induction scan stops left st pc word with
  | case1 left st pc word insn here next branch w st' fetched =>
    obtain ⟨ext, known'⟩ := fetch_extends good fetched
    exact .branch (known.extend good ext) branch (known' rfl) (fetchFailed_classify insn)
  | case2 left st pc word insn next branch e st' failed =>
    have ext := (fetch_extends good failed).1
    exact .cut (known.extend good ext) branch (fetch_failed failed)
  | case3 left st pc word insn here branch ends =>
    exact .last known (Bool.eq_false_iff.2 branch) (fetchFailed_classify insn)
  | case4 st pc word insn here branch ends => exact .last known (Bool.eq_false_iff.2 branch) rfl
  | case5 st pc word insn here next branch ends left pageEnd =>
    exact .last known (Bool.eq_false_iff.2 branch) rfl
  | case6 st pc word insn here next branch ends left pageEnd stop =>
    exact .last known (Bool.eq_false_iff.2 branch) rfl
  | case7 st pc word insn here next branch ends left pageEnd stop e st' failed =>
    have ext := (fetch_extends good failed).1
    exact .fault (known.extend good ext) (Bool.eq_false_iff.2 branch) (fetch_failed failed)
  | case8 st pc word insn here next branch ends left pageEnd stop w st' fetched rest t st'' scanned ih =>
    obtain ⟨ext, known'⟩ := fetch_extends good fetched
    have ext' := (scan_extends stops left st' next w ext.good (known' rfl)).1
    have follows := ih ext.good (known' rfl)
    rw [scanned] at ext' follows
    exact .more ((known.extend good ext).extend ext.good ext') (Bool.eq_false_iff.2 branch) follows

/-! ## The block of one unit -/

theorem scan_plain {word : Word} (plain : (Insn.decode word).hasDelaySlot = false) (st : Building) (pc : Word) :
    ∃ t, fetchFailed t = false ∧ scan [] 0 st pc word = ([plainAt pc word], t, st) := by
  rw [scan.eq_def]
  dsimp only
  rw [if_neg (by simp [plain])]
  split
  · exact ⟨_, fetchFailed_classify _, rfl⟩
  · exact ⟨_, rfl, rfl⟩

theorem scan_branch {word w : Word} (slot : (Insn.decode word).hasDelaySlot = true) {st : Building} {pc : Word}
    (fetched : st.mem.fetch (pc + 4) = .ok w) :
    ∃ t st', fetchFailed t = false ∧
      scan [] 0 st pc word = ([plainAt pc word, slotAt (pc + 4) w], t, st') := by
  have same := (st.fetch_contents (pc + 4)).1
  rw [fetched] at same
  rw [scan.eq_def]
  dsimp only
  rw [if_pos slot]
  split
  · next w' st' e =>
    rw [e] at same
    cases same
    exact ⟨_, st', fetchFailed_classify _, rfl⟩
  · next e =>
    rw [e] at same
    cases same

theorem scan_cut {word : Word} (slot : (Insn.decode word).hasDelaySlot = true) {st : Building} {pc : Word}
    {e : MemError} (failed : st.mem.fetch (pc + 4) = .error e) :
    ∃ st', scan [] 0 st pc word = ([], .fetchFault (pc + 4) (some pc), st') := by
  have same := (st.fetch_contents (pc + 4)).1
  rw [failed] at same
  rw [scan.eq_def]
  dsimp only
  rw [if_pos slot]
  split
  · next e =>
    rw [e] at same
    cases same
  · next st' _ => exact ⟨st', rfl⟩

end Block

/-! ## One unit -/

namespace Guest

/-- A guest without the outcome of the block before. -/
def cleared (g : Guest) : Guest := { g with cpu := g.cpu.clearExit }

/-- The guest when `addr` could not be fetched, which may be the delay slot of a branch. -/
def unfetched (g : Guest) (addr : Word) (branchPc : Option Word) : Guest :=
  { g with
    cpu := { g.cpu.raiseFault .instructionBus (some addr) with
      pc := branchPc.getD addr
      excDelaySlot := branchPc.isSome } }

/-- What is left of a block when its instructions have run: an exit that one of them took, or else the end
of the block. -/
def conclude (b : Block) : Option BlockExit × Guest → Guest
  | (some _, g) => g
  | (none, g) => (g.leave b).2

theorem run_eq_conclude (b : Block) (g : Guest) :
    (b.run g).2 = conclude b ((g.enter b).execAll b.insns) := by
  unfold Block.run
  generalize (g.enter b).execAll b.insns = r
  obtain ⟨_ | exit, h⟩ := r
  · rfl
  · rfl

/-! ### The end of a block -/

section
variable {b : Block} {i j : DecodedInsn} (g : Guest)

theorem execAll_ends (rest : List DecodedInsn) (ends : (g.exec i).1 ≠ .next) :
    ∃ exit, g.execAll (i :: rest) = (some exit, after i (g.exec i)) := by
  unfold execAll after
  generalize g.exec i = r at ends ⊢
  obtain ⟨flow, h⟩ := r
  cases flow with
  | next => exact absurd rfl ends
  | fault code => exact ⟨_, rfl⟩
  | skipDelaySlot => exact ⟨_, rfl⟩
  | redirect => exact ⟨_, rfl⟩
  | codeModified => exact ⟨_, rfl⟩

theorem execAll_next (rest : List DecodedInsn) (next : (g.exec i).1 = .next) :
    g.execAll (i :: rest) = (g.exec i).2.execAll rest := by
  rw [execAll]
  generalize g.exec i = r at next ⊢
  obtain ⟨flow, h⟩ := r
  dsimp only at next
  subst next
  rfl

theorem unitsOf_ends (t : Terminator) (rest : List DecodedInsn) (ends : (g.exec i).1 ≠ .next) :
    g.unitsOf t (i :: rest) = if i.inDelaySlot then 0 else 1 := by
  rw [unitsOf]
  generalize g.exec i = r at ends ⊢
  obtain ⟨flow, h⟩ := r
  cases flow with
  | next => exact absurd rfl ends
  | _ => rfl

theorem unitsOf_next (t : Terminator) (rest : List DecodedInsn) (next : (g.exec i).1 = .next) :
    g.unitsOf t (i :: rest) = (if i.inDelaySlot then 0 else 1) + (g.exec i).2.unitsOf t rest := by
  rw [unitsOf]
  generalize g.exec i = r at next ⊢
  obtain ⟨flow, h⟩ := r
  dsimp only at next
  subst next
  rfl

/-- The last instruction of a block, unless a fetch fails after it. -/
theorem unitsOf_last {t : Terminator} (fetched : Block.fetchFailed t = false) :
    g.unitsOf t [i] = if i.inDelaySlot then 0 else 1 := by
  by_cases next : (g.exec i).1 = .next
  · rw [g.unitsOf_next t [] next, unitsOf, fetched]
    rfl
  · exact g.unitsOf_ends t [] next

theorem leave_plain (suffix : [i] <:+ b.insns) (plain : i.inDelaySlot = false)
    (fetched : Block.fetchFailed b.terminator = false) :
    (g.leave b).2 = { g with cpu := { g.cpu with pc := b.stop } } := by
  have none : b.branchIndex = none := by
    obtain ⟨pre, insns⟩ := suffix
    unfold Block.branchIndex
    rw [← insns]
    simp [plain]
  unfold leave
  split
  · next e =>
    rw [e] at fetched
    cases fetched
  · rw [none]
    rfl

theorem leave_slot (suffix : [i, j] <:+ b.insns) (slot : j.inDelaySlot = true)
    (fetched : Block.fetchFailed b.terminator = false) : (g.leave b).2 = g := by
  have some : b.branchIndex.isSome = true := by
    obtain ⟨pre, insns⟩ := suffix
    unfold Block.branchIndex
    rw [← insns]
    simp [slot]
  unfold leave
  split
  · next e =>
    rw [e] at fetched
    cases fetched
  · rw [if_pos some]

theorem conclude_plain (suffix : [i] <:+ b.insns) (plain : i.inDelaySlot = false)
    (fetched : Block.fetchFailed b.terminator = false) (stop : b.stop = i.addr + 4) :
    conclude b (g.execAll [i]) = after i (g.exec i) := by
  by_cases next : (g.exec i).1 = .next
  · rw [g.execAll_next [] next]
    unfold execAll conclude after
    dsimp only
    rw [next, leave_plain _ suffix plain fetched, stop]
    simp [Flow.plain, plain]
  · obtain ⟨exit, ran⟩ := g.execAll_ends [] next
    rw [ran]
    rfl

/-- The guest after a branch with its delay slot. -/
def afterBoth (g : Guest) (i j : DecodedInsn) : Guest :=
  if (g.exec i).1 = .next then after j ((g.exec i).2.exec j) else after i (g.exec i)

theorem conclude_slot (suffix : [i, j] <:+ b.insns) (slot : j.inDelaySlot = true)
    (fetched : Block.fetchFailed b.terminator = false) :
    conclude b (g.execAll [i, j]) = g.afterBoth i j := by
  unfold afterBoth
  split
  · next next =>
    rw [g.execAll_next [j] next]
    generalize (g.exec i).2 = h
    by_cases next' : (h.exec j).1 = .next
    · rw [h.execAll_next [] next']
      unfold execAll conclude after
      dsimp only
      rw [next', leave_slot _ suffix slot fetched]
      simp [Flow.plain, slot]
    · obtain ⟨exit, ran⟩ := h.execAll_ends [] next'
      rw [ran]
      rfl
  · next ends =>
    obtain ⟨exit, ran⟩ := g.execAll_ends [j] ends
    rw [ran]
    rfl

end

/-- A block whose next instruction cannot be fetched. -/
theorem leave_unfetched {b : Block} {addr : Word} {branchPc : Option Word}
    (ends : b.terminator = .fetchFault addr branchPc) (g : Guest) :
    (g.leave b).2 = g.unfetched addr branchPc := by
  unfold leave
  rw [ends]
  rfl

theorem stepUnit_eq {h : Guest} {word : Word} (fetched : h.mem.fetch h.cpu.pc = .ok word) :
    ∃ (st : Block.Building) (u : Block) (k : Guest), h.mem.SameContents st.mem ∧ h.cleared.Alike k ∧
      h.stepUnit = conclude u (k.execAll u.insns) ∧
      u.insns = (Block.scan [] 0 st h.cpu.pc word).1 ∧
      u.terminator = (Block.scan [] 0 st h.cpu.pc word).2.1 ∧
      u.stop = h.cpu.pc + BitVec.ofNat 32 (4 * u.insns.length) := by
  have contents := Block.build_contents h.mem 1 [] h.cpu.pc
  obtain ⟨same, first⟩ := Block.Building.fetch_contents { mem := h.mem, pages := [] } h.cpu.pc
  rw [fetched] at same
  unfold stepUnit
  unfold Block.build at contents ⊢
  generalize ({ mem := h.mem, pages := [] } : Block.Building).fetch h.cpu.pc = r at same first contents ⊢
  obtain ⟨r, st⟩ := r
  dsimp only at same
  subst same
  refine ⟨st, _, _, first, ?_, run_eq_conclude _ _, rfl, rfl, rfl⟩
  exact ⟨⟨h.cpu.pc, _, _, rfl⟩, contents⟩

section
variable {h : Guest} {word : Word}

theorem stepUnit_plain (fetched : h.mem.fetch h.cpu.pc = .ok word)
    (plain : (Insn.decode word).hasDelaySlot = false) :
    ∃ k, h.cleared.Alike k ∧
      h.stepUnit = after (Block.plainAt h.cpu.pc word) (k.exec (Block.plainAt h.cpu.pc word)) := by
  obtain ⟨st, u, k, -, alike, step, insns, ends, stop⟩ := stepUnit_eq fetched
  obtain ⟨t, ok, scanned⟩ := Block.scan_plain plain st h.cpu.pc
  rw [scanned] at insns ends
  dsimp only at insns ends
  rw [insns] at step stop
  refine ⟨k, alike, ?_⟩
  rw [step]
  exact conclude_plain k (insns ▸ List.suffix_refl _) rfl (by rw [ends]; exact ok) stop

theorem stepUnit_branch {w : Word} (fetched : h.mem.fetch h.cpu.pc = .ok word)
    (slot : (Insn.decode word).hasDelaySlot = true) (fetched' : h.mem.fetch (h.cpu.pc + 4) = .ok w) :
    ∃ k, h.cleared.Alike k ∧
      h.stepUnit = k.afterBoth (Block.plainAt h.cpu.pc word) (Block.slotAt (h.cpu.pc + 4) w) := by
  obtain ⟨st, u, k, contents, alike, step, insns, ends, -⟩ := stepUnit_eq fetched
  obtain ⟨t, st', ok, scanned⟩ := Block.scan_branch slot ((contents.fetch _).trans fetched')
  rw [scanned] at insns ends
  dsimp only at insns ends
  rw [insns] at step
  refine ⟨k, alike, ?_⟩
  rw [step]
  exact conclude_slot k (insns ▸ List.suffix_refl _) rfl (by rw [ends]; exact ok)

theorem stepUnit_cut {e : MemError} (fetched : h.mem.fetch h.cpu.pc = .ok word)
    (slot : (Insn.decode word).hasDelaySlot = true) (failed : h.mem.fetch (h.cpu.pc + 4) = .error e) :
    ∃ k, h.cleared.Alike k ∧ h.stepUnit = k.unfetched (h.cpu.pc + 4) (some h.cpu.pc) := by
  obtain ⟨st, u, k, contents, alike, step, insns, ends, -⟩ := stepUnit_eq fetched
  obtain ⟨st', scanned⟩ := Block.scan_cut slot ((contents.fetch _).trans failed)
  rw [scanned] at insns ends
  dsimp only at insns ends
  rw [insns] at step
  refine ⟨k, alike, ?_⟩
  rw [step]
  exact leave_unfetched ends k

omit word in
theorem stepUnit_fault {e : MemError} (failed : h.mem.fetch h.cpu.pc = .error e) :
    ∃ k, h.cleared.Alike k ∧ h.stepUnit = k.unfetched h.cpu.pc none := by
  obtain ⟨same, contents⟩ := Block.Building.fetch_contents { mem := h.mem, pages := [] } h.cpu.pc
  rw [failed] at same
  unfold stepUnit Block.build
  generalize ({ mem := h.mem, pages := [] } : Block.Building).fetch h.cpu.pc = r at same contents ⊢
  obtain ⟨r, st⟩ := r
  dsimp only at same
  subst same
  exact ⟨{ h.cleared with mem := st.mem }, ⟨⟨_, _, _, rfl⟩, contents⟩, rfl⟩

end

section
variable {g k : Guest} (alike : g.Alike k)
include alike

theorem unfetched_agrees (addr : Word) (branchPc : Option Word) :
    (g.unfetched addr branchPc).Agrees (k.unfetched addr branchPc) := by
  obtain ⟨pc, first, last, cpu⟩ := alike.cpu
  refine ⟨⟨⟨branchPc.getD addr, first, last, ?_⟩, alike.mem⟩, rfl⟩
  unfold unfetched
  rw [cpu]
  rfl

theorem afterBoth_agrees {i : DecodedInsn} (branch : i.insn.hasDelaySlot = true) (plain : i.inDelaySlot = false)
    (j : DecodedInsn) : (g.afterBoth i j).Agrees (k.afterBoth i j) := by
  have inStep := exec_inStep alike i
  unfold afterBoth
  rw [inStep.branch branch]
  split
  · next next => exact after_agrees (exec_inStep inStep.alike j) (fun _ => inStep.goes (.inr ⟨branch, next⟩))
  · exact after_agrees inStep (fun slot => absurd (plain.symm.trans slot) nofun)

end

/-! ## A block and its units -/

/-- A processor that goes on has still nothing to report. -/
theorem clear_of_sameOutcome {s t : Cpu} (same : s.SameOutcome t) (clear : s.clearExit = s) :
    t.clearExit = t := by
  have code : t.excCode = 0 := same.code.trans (congrArg Cpu.excCode clear).symm
  have slot : t.excDelaySlot = false := same.delaySlot.trans (congrArg Cpu.excDelaySlot clear).symm
  have pending : t.faultPending = false := same.pending.trans (congrArg Cpu.faultPending clear).symm
  obtain ⟨gpr, hi, lo, pc, fcr31, fpr, cop0, excCode, excDelaySlot, faultPending, first, last⟩ := t
  dsimp only at code slot pending
  subst code slot pending
  rfl

theorem Alike.clear {g h : Guest} (alike : g.Alike h.cleared) : g.cpu.clearExit = g.cpu := by
  obtain ⟨pc, first, last, cpu⟩ := alike.cpu
  exact clear_of_sameOutcome (s := h.cpu.clearExit)
    ⟨(congrArg Cpu.excCode cpu).symm, (congrArg Cpu.excDelaySlot cpu).symm, (congrArg Cpu.faultPending cpu).symm⟩ rfl

/-- `g` is in the middle of a block that was built as `st`, and `h` has come as far unit by unit. -/
structure Tracks (st : Block.Building) (g h : Guest) : Prop where
  alike : g.Alike h.cleared
  survives : st.Survives g.mem
  watched : ∀ s ∈ st.pages, g.cpu.blockFirst ≤ s.page ∧ s.page ≤ g.cpu.blockLast

section
variable {st : Block.Building} (good : st.Good) {g h : Guest} (tracks : Tracks st g h)
include good tracks

/-- The words of the block are still there for the next unit to be fetched. -/
theorem Tracks.fetch {addr w : Word} (known : st.Knows addr w) : h.mem.fetch addr = .ok w :=
  calc h.mem.fetch addr = g.mem.fetch addr := tracks.alike.mem.fetch addr
    _ = st.mem.fetch addr := tracks.survives.word good known.2
    _ = .ok w := known.1

omit good in
theorem Tracks.fails {addr : Word} {e : MemError} (failed : st.mem.fetch addr = .error e) :
    h.mem.fetch addr = .error e :=
  (tracks.alike.mem.fetch addr).trans (Block.fetch_error_again tracks.survives.regions failed)

theorem Tracks.unit {word : Word} (known : st.Knows h.cpu.pc word)
    (plain : (Insn.decode word).hasDelaySlot = false) :
    ∃ k, InStep (Block.plainAt h.cpu.pc word) g k (g.exec (Block.plainAt h.cpu.pc word))
        (k.exec (Block.plainAt h.cpu.pc word)) ∧
      h.stepUnit = after (Block.plainAt h.cpu.pc word) (k.exec (Block.plainAt h.cpu.pc word)) := by
  obtain ⟨k, alike, step⟩ := stepUnit_plain (tracks.fetch good known) plain
  exact ⟨k, exec_inStep (tracks.alike.trans alike) _, step⟩

/-- A block that goes on has written none of its own pages, nor has a device, and the next unit finds what the
block was built from. -/
theorem Tracks.next {word : Word} (known : st.Knows h.cpu.pc word)
    (plain : (Insn.decode word).hasDelaySlot = false)
    (spared : g.mem.Spared (fun p => g.cpu.blockFirst ≤ p ∧ p ≤ g.cpu.blockLast)
      (g.exec (Block.plainAt h.cpu.pc word)).2.mem)
    (next : (g.exec (Block.plainAt h.cpu.pc word)).1 = .next) :
    Tracks st (g.exec (Block.plainAt h.cpu.pc word)).2 h.stepUnit ∧ h.stepUnit.cpu.pc = h.cpu.pc + 4 := by
  obtain ⟨k, inStep, step⟩ := tracks.unit good known plain
  have leaves := g.exec_leaves (Block.plainAt h.cpu.pc word)
  obtain ⟨told, evolves, quiet⟩ := tracks.survives.evolves
  obtain ⟨told', accesses, quiet'⟩ :=
    g.exec_quiet evolves.sound (Block.plainAt h.cpu.pc word) spared (by rw [next]; nofun)
  have passed : h.stepUnit = { (k.exec (Block.plainAt h.cpu.pc word)).2 with
      cpu := { (k.exec (Block.plainAt h.cpu.pc word)).2.cpu with pc := h.cpu.pc + 4 } } := by
    rw [step]
    unfold after
    rw [inStep.flow, next]
    rfl
  refine ⟨⟨?_, ⟨⟨told ++ told', evolves.trans accesses.toEvolves, ?_⟩, ?_⟩, ?_⟩, by rw [passed]⟩
  · -- Neither has anything to report.
    have clear := clear_of_sameOutcome (leaves.outcome next) tracks.alike.clear
    obtain ⟨pc, first, last, cpu⟩ := inStep.alike.cpu
    rw [passed]
    refine ⟨⟨h.cpu.pc + 4, first, last, ?_⟩, inStep.alike.mem⟩
    unfold cleared
    dsimp only
    rw [cpu]
    exact congrArg (fun s : Cpu => s.placed (h.cpu.pc + 4) first last) clear
  · intro s hs told''
    obtain ⟨low, high⟩ := tracks.watched s hs
    obtain old | new := List.mem_append.1 told''
    · exact quiet s hs old
    · exact quiet' s.page low high new
  · rw [accesses.regions, tracks.survives.regions]
  · intro s hs
    rw [leaves.first, leaves.last]
    exact tracks.watched s hs

theorem Tracks.conclude_ends {b : Block} {word : Word} (known : st.Knows h.cpu.pc word)
    (plain : (Insn.decode word).hasDelaySlot = false) {t : Terminator} {rest : List DecodedInsn}
    (ends : (g.exec (Block.plainAt h.cpu.pc word)).1 ≠ .next) :
    (conclude b (g.execAll (Block.plainAt h.cpu.pc word :: rest))).Agrees
      (stepUnits (g.unitsOf t (Block.plainAt h.cpu.pc word :: rest)) h) := by
  obtain ⟨k, inStep, step⟩ := tracks.unit good known plain
  obtain ⟨exit, ran⟩ := g.execAll_ends rest ends
  rw [g.unitsOf_ends t rest ends, ran]
  show (after _ _).Agrees h.stepUnit
  rw [step]
  exact after_agrees inStep nofun

omit good in
/-- What the devices store in what is left of a block, they store in its next instruction or after it. -/
theorem Tracks.spared_next {i : DecodedInsn} {rest : List DecodedInsn} (next : (g.exec i).1 = .next)
    (spared : g.mem.Spared (fun p => g.cpu.blockFirst ≤ p ∧ p ≤ g.cpu.blockLast) (g.execAll (i :: rest)).2.mem) :
    g.mem.Spared (fun p => g.cpu.blockFirst ≤ p ∧ p ≤ g.cpu.blockLast) (g.exec i).2.mem ∧
      (g.exec i).2.mem.Spared (fun p => (g.exec i).2.cpu.blockFirst ≤ p ∧ p ≤ (g.exec i).2.cpu.blockLast)
        ((g.exec i).2.execAll rest).2.mem := by
  obtain ⟨told, evolves, -⟩ := tracks.survives.evolves
  obtain ⟨_, first⟩ := (g.exec_proceeds i).mem.pieces.leads evolves.sound
  obtain ⟨_, later⟩ := (g.exec i).2.leads_execAll first.sound rest
  rw [g.execAll_next rest next] at spared
  rw [(g.exec_leaves i).first, (g.exec_leaves i).last]
  exact ⟨spared.first later.past, spared.rest first.board first.past⟩

theorem conclude_units {b : Block} {pc : Word} {is : List DecodedInsn} {t : Terminator}
    (follows : Block.Follows st pc is t) (here : h.cpu.pc = pc) (suffix : is <:+ b.insns)
    (ends : b.terminator = t) (stop : b.stop = pc + BitVec.ofNat 32 (4 * is.length))
    (spared : g.mem.Spared (fun p => g.cpu.blockFirst ≤ p ∧ p ≤ g.cpu.blockLast) (g.execAll is).2.mem) :
    (conclude b (g.execAll is)).Agrees (stepUnits (g.unitsOf t is) h) := by
  induction follows generalizing g h with
  | @branch pc word w t known slot known' ok =>
    subst here
    obtain ⟨k, alike, step⟩ := stepUnit_branch (tracks.fetch good known) slot (tracks.fetch good known')
    have one : g.unitsOf t [Block.plainAt h.cpu.pc word, Block.slotAt (h.cpu.pc + 4) w] = 1 := by
      by_cases next : (g.exec (Block.plainAt h.cpu.pc word)).1 = .next
      · rw [g.unitsOf_next t _ next, unitsOf_last _ ok]
        rfl
      · exact g.unitsOf_ends t _ next
    rw [one, conclude_slot g suffix rfl (by rw [ends]; exact ok)]
    show (g.afterBoth _ _).Agrees h.stepUnit
    rw [step]
    exact afterBoth_agrees (tracks.alike.trans alike) slot rfl _
  | @cut pc word e known slot failed =>
    subst here
    obtain ⟨k, alike, step⟩ := stepUnit_cut (tracks.fetch good known) slot (tracks.fails failed)
    show (g.leave b).2.Agrees h.stepUnit
    rw [leave_unfetched ends, step]
    exact unfetched_agrees (tracks.alike.trans alike) _ _
  | @last pc word t known plain ok =>
    subst here
    obtain ⟨k, inStep, step⟩ := tracks.unit good known plain
    have one : g.unitsOf t [Block.plainAt h.cpu.pc word] = 1 := g.unitsOf_last ok
    rw [one, conclude_plain g suffix rfl (by rw [ends]; exact ok) stop]
    show (after _ _).Agrees h.stepUnit
    rw [step]
    exact after_agrees inStep nofun
  | @fault pc word e known plain failed =>
    subst here
    by_cases next : (g.exec (Block.plainAt h.cpu.pc word)).1 = .next
    · -- The instruction goes on, and the next unit cannot be fetched.
      obtain ⟨tracks', pc'⟩ := tracks.next good known plain (tracks.spared_next next spared).1 next
      obtain ⟨k, alike, step⟩ := stepUnit_fault (tracks'.fails (by rw [pc']; exact failed))
      rw [g.unitsOf_next _ [] next, g.execAll_next [] next]
      show ((g.exec (Block.plainAt h.cpu.pc word)).2.leave b).2.Agrees h.stepUnit.stepUnit
      rw [leave_unfetched ends, step, pc']
      exact unfetched_agrees (tracks'.alike.trans alike) _ _
    · exact tracks.conclude_ends good known plain next
  | @more pc word rest t known plain follows ih =>
    subst here
    by_cases next : (g.exec (Block.plainAt h.cpu.pc word)).1 = .next
    · obtain ⟨here, later⟩ := tracks.spared_next next spared
      obtain ⟨tracks', pc'⟩ := tracks.next good known plain here next
      have suffix' := (List.suffix_cons _ rest).trans suffix
      rw [g.unitsOf_next t rest next, g.execAll_next rest next, Nat.add_comm]
      refine ih tracks' pc' suffix' ends ?_ later
      rw [stop, List.length_cons, BitVec.add_assoc, Nat.mul_add, Nat.add_comm, BitVec.ofNat_add]
      rfl
    · exact tracks.conclude_ends good known plain next

end

end Guest

namespace Block

theorem build_follows {mem mem' : Memory} (sound : mem.Sound) {limit : Nat} {stops : List Word} {entry : Word}
    {b : Block} (built : build mem limit stops entry = (.ok b, mem')) :
    (Building.mk mem' b.pages).Good ∧ Follows { mem := mem', pages := b.pages } entry b.insns b.terminator ∧
      b.stop = entry + BitVec.ofNat 32 (4 * b.insns.length) := by
  have start : (Building.mk mem []).Good := ⟨sound, nofun, List.nodup_nil⟩
  unfold build at built
  split at built
  · cases (Prod.mk.inj built).1
  · next w st fetched =>
    obtain ⟨ext, known⟩ := Building.fetch_extends start fetched
    have ext' := (scan_extends stops (max limit 1 - 1) st entry w ext.good (known rfl)).1
    have follows := scan_follows stops (max limit 1 - 1) st entry w ext.good (known rfl)
    obtain ⟨block, rfl⟩ := Prod.mk.inj built
    cases block
    exact ⟨ext'.good, follows, rfl⟩

theorem ne_boundary_of_ordered {b : Block} (ordered : b.firstPage ≤ b.lastPage) : b.pageNumbers ≠ boundary := by
  intro across
  rw [firstPage_eq, lastPage_eq, across] at ordered
  exact absurd ordered (by decide)

theorem mem_pageNumbers_of_range {mem mem' : Memory} {limit : Nat} {stops : List Word} {entry : Word} {b : Block}
    (built : build mem limit stops entry = (.ok b, mem')) (ordered : b.firstPage ≤ b.lastPage) {p : Nat}
    (range : b.firstPage ≤ p ∧ p ≤ b.lastPage) : p ∈ b.pageNumbers := by
  have low := page_lt entry
  rw [firstPage_eq, lastPage_eq] at ordered range
  obtain one | two := build_spans built
  · rw [one] at ordered range ⊢
    simp only [List.head?_cons, List.getLast?_singleton, Option.getD_some] at range
    simp only [List.mem_singleton]
    omega
  · rw [two] at ordered range ⊢
    simp only [List.head?_cons, List.getLast?_cons_cons, List.getLast?_singleton, Option.getD_some,
      pageAfter] at ordered range
    simp only [List.mem_cons, List.not_mem_nil, or_false, pageAfter]
    rw [show pageCount = 131072 from rfl] at *
    omega

theorem run_mem (b : Block) (g : Guest) : (b.run g).2.mem = ((g.enter b).execAll b.insns).2.mem := by
  rw [Guest.run_eq_conclude]
  generalize (g.enter b).execAll b.insns = r
  obtain ⟨_ | exit, h⟩ := r
  · exact Guest.leave_mem h b
  · rfl

/-- A page of RAM with a store that overwrites the trap two instructions later. -/
def patchGuest : Guest :=
  let mem := (Memory.empty 4096).withRam 0 4096
  { cpu := { Cpu.new with pc := 0 }
    mem := ((mem.write .word 0 0xAC010008).2.write .word 8 0xD).2 }

def patchBlock : Block :=
  { start := 0
    stop := 12
    insns := [plainAt 0 0xAC010008, plainAt 4 0, plainAt 8 0xD]
    terminator := .trap
    pages := [{ page := 0, version := 0 }] }

/-- A DMA channel stores the words that are written to it, one behind the other. -/
def channel (start : Word) : Handlers Word where
  initial := start
  serve target now :=
    match now.call with
    | .read .. => ({}, target)
    | .write _ _ _ v =>
      if inside : pageOffset (virtToPhys target) + (leBytes 4 v.toNat).length ≤ pageSize then
        ({ stores := [{ vaddr := target, data := leBytes 4 v.toNat, nonempty := nofun, inside }] }, target + 4)
      else ({}, target + 4)

/-- A page of RAM with a store to a channel and a trap, which is where the channel puts what it is given. -/
def channelGuest : Guest :=
  let mem := (Memory.empty 4096 (channel 4).board).withRam 0 4096
  let mem := (mem.mapDevice 0x1000 16 ⟨0⟩).toOption.getD mem
  { cpu := { Cpu.new with pc := 0 }
    mem := ((mem.write .word 0 0xAC001000).2.write .word 4 0xD).2 }

def channelBlock : Block :=
  { start := 0
    stop := 8
    insns := [plainAt 0 0xAC001000, plainAt 4 0xD]
    terminator := .trap
    pages := [{ page := 0, version := 0 }] }

/-- The block runs into the trap, and its units into what the channel has put there. -/
theorem dma_overtaken :
    ∃ mem, build channelGuest.mem 512 [] 0 = (.ok channelBlock, mem) ∧
      ¬ (channelBlock.run { channelGuest with mem }).2.Agrees
        (Guest.stepUnits (channelBlock.units { channelGuest with mem }) channelGuest) := by
  have built := eq_ok_of_toOption (r := build channelGuest.mem 512 [] 0) (b := channelBlock) (by decide +kernel)
  exact ⟨_, built, fun agrees => absurd agrees.pc (by decide +kernel)⟩

end Block

end EmotionEngine
