import EmotionEngine.Memory.Map
import EmotionEngine.Proofs.Code.Sites
import EmotionEngine.Proofs.Code.Size

/-!
Translation preserves meaning. The code of a block that the builder made, entered with nothing known but
the address of the processor state, runs to its return, whatever the guest; it returns the exit that
running the block gives, and leaves the same processor and memory.

Main statement: `translate_correct`.
-/

namespace EmotionEngine

open Host (Content)
open Plan (State)

namespace Code

/-! ## The end of a block -/

theorem runs_fetchFault {h : Host.State} (he : h.get .env = .dword h.base) (addr : Word)
    (branchPc : Option Word) :
    ∃ h', Runs (items ([setState (Layout.cop0 Cop0.badVAddr.val) addr,
        setState Layout.excCode ExcCode.instructionBus.toWord, setState Layout.faultPending 1,
        setState Layout.excDelaySlot (if branchPc.isSome then 1 else 0),
        setPc (branchPc.getD addr)] ++ exit .exception)) h (.left h') ∧
      Exits h' .exception { h.guest with cpu :=
        { h.guest.cpu.raiseFault .instructionBus (some addr) with
          pc := branchPc.getD addr, excDelaySlot := branchPc.isSome } } := by
  have e1 := env_setField he (.cop0 Cop0.badVAddr) (addr.setWidth 64)
  have e2 := env_setField e1 .excCode (ExcCode.instructionBus.toWord.setWidth 64)
  have e3 := env_setField e2 .faultPending ((1 : Word).setWidth 64)
  obtain ⟨h4, r4, e4, g4⟩ := runs_setDelaySlot e3 branchPc.isSome
  obtain ⟨h5, r5, -, g5⟩ := runs_setPc e4 (branchPc.getD addr)
  obtain ⟨h6, r6, x6⟩ := runs_exit h5 .exception
  refine ⟨h6, ?_, ?_, x6.exit⟩
  · exact .insn (Host.Insn.perform_storeImm he (f := .cop0 Cop0.badVAddr) rfl addr)
      (.insn (Host.Insn.perform_storeImm e1 (f := .excCode) rfl _)
        (.insn (Host.Insn.perform_storeImm e2 (f := .faultPending) rfl 1)
          (r4.append (r5.append r6))))
  · rw [x6.guest, g5, g4]
    have recorded : (((h.setField (.cop0 Cop0.badVAddr) (addr.setWidth 64)).setField .excCode
        (ExcCode.instructionBus.toWord.setWidth 64)).setField .faultPending
          ((1 : Word).setWidth 64)).guest =
        { h.guest with cpu := h.guest.cpu.raiseFault .instructionBus (some addr) } := by
      show ({ h.guest with cpu := { h.guest.cpu.setCreg Cop0.badVAddr ((addr.setWidth 64).setWidth 32) with
        excCode := (ExcCode.instructionBus.toWord.setWidth 64).setWidth 32,
        faultPending := (((1 : Word).setWidth 64).setWidth 32 : Word) != 0 } } : Guest) = _
      rw [Host.Insn.setWidth_setWidth, Host.Insn.setWidth_setWidth, Host.Insn.setWidth_setWidth]
      rfl
    rw [recorded]

/-- How a block ends whose instructions have all run: a return from an exception has stored the next
program counter, and nothing is left to do. -/
def finish (b : Block) (g : Guest) : BlockExit × Guest :=
  if endsEret b.insns then (.branch, g) else g.leave b

/-- How a block ends whose instructions end like this. -/
def conclude (b : Block) : Option BlockExit × Guest → BlockExit × Guest
  | (some exit, g) => (exit, g)
  | (none, g) => g.leave b

theorem runs_ending {b : Block} (hb : b.Formed) {h : Host.State} (he : h.get .env = .dword h.base) :
    ∃ h', Runs (items (ending b)) h (.left h') ∧
      Exits h' (finish b h.guest).1 (finish b h.guest).2 := by
  unfold finish
  by_cases hf : ∃ a p, b.terminator = .fetchFault a p
  · obtain ⟨a, p, ht⟩ := hf
    have noEret : ¬endsEret b.insns = true := by
      intro e
      have := hb.ends e
      rw [ht] at this
      cases this
    have leave : h.guest.leave b = (.exception, { h.guest with cpu :=
        { h.guest.cpu.raiseFault .instructionBus (some a) with
          pc := p.getD a, excDelaySlot := p.isSome } }) := by
      unfold Guest.leave
      rw [ht]
    have code : ending b = [setState (Layout.cop0 Cop0.badVAddr.val) a,
        setState Layout.excCode ExcCode.instructionBus.toWord, setState Layout.faultPending 1,
        setState Layout.excDelaySlot (if p.isSome then 1 else 0), setPc (p.getD a)] ++ exit .exception := by
      unfold ending
      rw [ht]
    rw [if_neg noEret, leave, code]
    exact runs_fetchFault he a p
  · have other : ending b = (if b.branchIndex.isSome || endsEret b.insns then exit .branch
          else setPc b.fallthrough :: exit (if b.terminator = .system then .interrupt else .fallthrough)) ∧
        h.guest.leave b = (if b.branchIndex.isSome then (.branch, h.guest)
          else (if b.terminator = .system then .interrupt else .fallthrough,
            { h.guest with cpu := { h.guest.cpu with pc := b.fallthrough } })) := by
      unfold ending Guest.leave
      cases ht : b.terminator with
      | fetchFault a p => exact absurd ⟨a, p, ht⟩ hf
      | _ => exact ⟨rfl, rfl⟩
    obtain ⟨code, leave⟩ := other
    rw [code, leave]
    cases endsEret b.insns with
    | true =>
      rw [Bool.or_true, if_pos rfl, if_pos rfl]
      exact runs_exit h .branch
    | false =>
      rw [Bool.or_false]
      cases b.branchIndex.isSome with
      | true => exact runs_exit h .branch
      | false =>
        obtain ⟨h1, r1, -, g1⟩ := runs_setPc he b.fallthrough
        obtain ⟨h2, r2, x2⟩ := runs_exit h1 (if b.terminator = .system then .interrupt else .fallthrough)
        exact ⟨h2, r1.append r2, x2.guest.trans g1, x2.exit⟩

/-! ## Whole blocks -/

/-- Every operand that code names is one that the instruction declares. -/
theorem operands_uses (i : Insn) : ∀ r ∈ i.operands, r ∈ i.uses.reads ∨ r ∈ i.uses.writes := by
  intro r hr
  cases i with
  | mulDiv op rd rs rt =>
    cases op with
    | mult | multu =>
      simp only [Insn.operands, Insn.uses, MulDivOp.isMul, if_true, List.mem_append, mem_regList,
        List.mem_cons, List.not_mem_nil, or_false] at hr ⊢
      rcases hr with (h | rfl | rfl) | ⟨rfl, h⟩
      · exact Or.inl h
      · exact Or.inr ⟨Or.inr (Or.inl rfl), by simp⟩
      · exact Or.inr ⟨Or.inr (Or.inr rfl), by simp⟩
      · exact Or.inr ⟨Or.inl rfl, h⟩
    | div | divu => exact List.mem_append.mp hr
  | condMove op rd rs rt =>
    simp only [Insn.operands, Insn.uses, mem_regList, List.mem_cons, List.not_mem_nil, or_false] at hr ⊢
    rcases hr with ⟨rfl | rfl | rfl, h⟩
    · exact Or.inl ⟨Or.inr (Or.inl rfl), h⟩
    · exact Or.inl ⟨Or.inl rfl, h⟩
    · exact Or.inr ⟨rfl, h⟩
  | fpuMove op rt fs =>
    cases op with
    | ctc1 =>
      simp only [Insn.operands] at hr
      split at hr
      · exact Or.inl hr
      · cases hr
    | mfc1 | mtc1 | cfc1 => exact List.mem_append.mp hr
  | _ => exact List.mem_append.mp hr

theorem missing?_eq_none {is : List DecodedInsn} {st last : State} {ss : List Step}
    (hp : State.Plans (is.map (fun i => i.insn.uses)) st ss last) :
    (List.zipWith (fun insn step => ({ insn, step } : Site)) is ss).findSome?
      (fun s => s.missing?.map (fun g => (⟨s.insn.addr, .unassigned g⟩ : CompileError))) = none := by
  induction is generalizing st ss with
  | nil => rfl
  | cons i is ih =>
    rw [List.map_cons] at hp
    cases hp with
    | @cons _ _ _ s mid written next hollow ss _ step rest =>
      have placed : (Site.mk i s).missing? = none := by
        unfold Site.missing?
        rw [List.find?_eq_none]
        intro r hr
        obtain ⟨k, hk⟩ := step.operand r (operands_uses i.insn r hr)
        rw [show (Site.mk i s).step.slot? r = some k from hk]
        simp
      rw [List.zipWith_cons_cons, List.findSome?_cons, placed]
      exact ih rest

theorem plain_ending (b : Block) : Plain 7 (ending b) := by
  unfold ending
  split
  · exact Plain.append (.cons (by trivial) (.cons (by trivial) (.cons (by trivial) (.cons (by trivial)
      (.cons (by trivial) .nil))))) (plain_exit _)
  · exact .ite ((plain_exit _).le (by decide)) ((Plain.cons (by trivial) (plain_exit _)).le (by decide))

/-- The host on entry stands for the guest, with every value at home. -/
theorem sim_start (base : Dword) (spill : Vector Dword GuestReg.count) (g : Guest) :
    Sim State.start [] (start base spill g) g := by
  refine ⟨⟨Host.State.get_set_self _ _ _, g.withFile_file.symm⟩, ?_, ?_, by simp⟩
  · intro r _
    rw [State.value_start]
    rfl
  · intro r _
    rfl

/-- The body of a block runs to its return, if its instructions run to their end. -/
theorem runs_body_of {b : Block} (hb : b.Formed) {p : Plan} (hp : Plan.ofBlock b = .ok p) {h : Host.State}
    {last : State} (home : ∀ r, last.value r = {}) {r : Option BlockExit × Guest}
    (run : Ensures ((sites b p).flatMap Site.body) h (Ran b.insns last r)) :
    ∃ h', Runs (body b p) h (.left h') ∧ Exits h' (conclude b r).1 (conclude b r).2 := by
  obtain ⟨p', hp', flush, -⟩ := Plan.ofBlock_plans b
  obtain rfl : p' = p := Except.ok.inj (hp'.symm.trans hp)
  obtain ⟨o, run, ran⟩ := run
  obtain ⟨exit, g'⟩ := r
  unfold body
  cases o with
  | left h' =>
    obtain ⟨e, rfl, x⟩ := ran
    exact ⟨h', run.append_left, x⟩
  | through h1 =>
    obtain ⟨sim1, rfl⟩ := ran
    have valid : last.Valid := by
      refine ⟨?_, fun r _ => by rw [home], home _⟩
      intro r x k hr
      rw [home] at hr
      cases hr
    obtain ⟨h2, r2, e2, g2⟩ := sim1.flush valid
    rw [State.flush_eq_nil home] at r2
    obtain ⟨h3, r3, x3⟩ := runs_ending hb e2
    refine ⟨h3, run.append ?_, ?_⟩
    · rw [flush, items_append]
      exact r2.append r3
    · rw [g2] at x3
      unfold finish at x3
      cases hx : endsEret b.insns with
      | true =>
        rw [hx] at x3
        exact x3
      | false =>
        rw [hx] at x3
        exact x3

theorem runs_body {b : Block} (hb : b.Formed) {p : Plan} (hp : Plan.ofBlock b = .ok p) {h : Host.State}
    {g : Guest} (sim : Sim State.start [] h (g.enter b)) (zero : g.cpu.regQuad 0 = 0) :
    ∃ h', Runs (body b p) h (.left h') ∧ Exits h' (b.run g).1 (b.run g).2 := by
  obtain ⟨p', hp', -, last, plans, home⟩ := Plan.ofBlock_plans b
  obtain rfl : p' = p := Except.ok.inj (hp'.symm.trans hp)
  have run : b.run g = conclude b ((g.enter b).execAll b.insns) := rfl
  rw [run]
  exact runs_body_of hb hp home (ensures_sites plans hb.last sim zero rfl)

/-- All of a block's pieces are fine, and their code spans less than a jump can. -/
theorem tame_block {b : Block} (hb : b.Formed) {p : Plan} (hp : Plan.ofBlock b = .ok p)
    (flush : p.exitFlush = []) : Tame (53 * 1025 + 7) (body b p) := by
  have length : (sites b p).length ≤ 1025 := by
    unfold sites
    rw [List.length_zipWith]
    exact Nat.le_trans (Nat.min_le_left _ _) hb.length
  have short : ∀ s ∈ sites b p, Tame 53 s.body := by
    intro s hs
    change s ∈ List.zipWith (Function.curry (fun x => { insn := x.1, step := x.2 })) b.insns p.steps at hs
    rw [← List.map_zip_eq_zipWith] at hs
    obtain ⟨x, hx, rfl⟩ := List.mem_map.mp hs
    exact Site.tame_body (Plan.ofBlock_short hp x.2 (List.of_mem_zip hx).2)
  unfold body
  rw [flush]
  exact ((Tame.flatMap short).append (.items (plain_ending b))).le
    (Nat.add_le_add_right (Nat.mul_le_mul_left 53 length) 7)

theorem translate_ok (b : Block) :
    ∃ p t, Plan.ofBlock b = .ok p ∧ p.exitFlush = [] ∧ b.translate = .ok t ∧ t.code = assemble (body b p) := by
  obtain ⟨p, hp, flush, last, plans, home⟩ := Plan.ofBlock_plans b
  have length : p.steps.length = b.insns.length := by rw [plans.length_eq, List.length_map]
  have code : ofBlock b p = .ok (assemble (body b p)) := by
    unfold ofBlock
    rw [if_neg (not_not.mpr length), show missing? b p = none from missing?_eq_none plans]
  refine ⟨p, ⟨assemble (body b p), p.spillCount, b.clobbers⟩, hp, flush, ?_, rfl⟩
  rw [Block.translate, hp]
  dsimp only
  rw [code]

theorem run?_of_runs {b : Block} (hb : b.Formed) {t : Translation} (ht : b.translate = .ok t) {p : Plan}
    (hp : Plan.ofBlock b = .ok p) {h h' : Host.State} (r : Runs (body b p) h (.left h')) {e : BlockExit} {g : Guest}
    (x : Exits h' e g) : run? t.code h = some (e, h') := by
  obtain ⟨p', t', hp', flush, ht', code⟩ := translate_ok b
  obtain rfl : t' = t := Except.ok.inj (ht'.symm.trans ht)
  obtain rfl : p' = p := Except.ok.inj (hp'.symm.trans hp)
  have tame := tame_block hb hp flush
  have size : bodySize (body b p') + (encode ((body b p').flatMap Item.path)).length < twoPow 32 :=
    Nat.lt_of_le_of_lt tame.size_le (by decide)
  have run := run_assemble r (fun i hi => (tame.fine i hi).readable) size
  unfold run?
  rw [code, run, Option.bind_some, x.exit]
  rfl

/-- The code of a block of the builder's shape runs as the block does. -/
theorem run_translated {b : Block} (hb : b.Formed) {t : Translation} (ht : b.translate = .ok t)
    (base : Dword) (spill : Vector Dword GuestReg.count) (g : Guest) (zero : g.cpu.regQuad 0 = 0) :
    ∃ s, run? t.code (start base spill (g.enter b)) = some ((b.run g).1, s) ∧ s.guest = (b.run g).2 := by
  obtain ⟨p, t', hp, -⟩ := translate_ok b
  obtain ⟨h', r, x⟩ := runs_body hb hp (sim_start base spill (g.enter b)) zero
  exact ⟨h', run?_of_runs hb ht hp r x, x.guest⟩

end Code

/-- The code of a block returns the exit that running the block gives, and leaves the same guest. -/
theorem translate_correct {mem mem' : Memory} {limit : Nat} {stops : List Word} {entry : Word} {b : Block}
    (built : Block.build mem limit stops entry = (.ok b, mem')) :
    ∃ t, b.translate = .ok t ∧ ∀ (base : Dword) (spill : Vector Dword GuestReg.count) (g : Guest),
      g.cpu.regQuad 0 = 0 →
      ∃ s, Code.run? t.code (Code.start base spill (g.enter b)) = some ((b.run g).1, s) ∧
        s.guest = (b.run g).2 := by
  obtain ⟨-, t, -, -, translated, -⟩ := Code.translate_ok b
  exact ⟨t, translated, Code.run_translated (Block.build_formed built) translated⟩

/-- A page of ROM that holds `addiu t0, zero, 1`, `jr ra` and a delay slot. -/
def smallRom : Memory :=
  ((Memory.empty pageSize).mapRom 0
    (leBytes 4 0x24080001 ++ leBytes 4 0x03E00008 ++ leBytes 4 0)).toOption.getD (Memory.empty 0)

theorem translate_correct_smallRom :
    ∃ b mem' t, Block.build smallRom 64 [] 0 = (.ok b, mem') ∧ b.insns.length = 3 ∧ b.translate = .ok t ∧
      ∀ base spill, ∃ s,
        Code.run? t.code (Code.start base spill (Guest.enter ⟨Cpu.new, smallRom⟩ b)) =
          some ((b.run ⟨Cpu.new, smallRom⟩).1, s) ∧ s.guest = (b.run ⟨Cpu.new, smallRom⟩).2 := by
  have built : ∃ b mem', Block.build smallRom 64 [] 0 = (.ok b, mem') ∧ b.insns.length = 3 :=
    ⟨_, _, rfl, by decide⟩
  obtain ⟨b, mem', built, length⟩ := built
  obtain ⟨t, translated, correct⟩ := translate_correct built
  exact ⟨b, mem', t, built, length, translated,
    fun base spill => correct base spill ⟨Cpu.new, smallRom⟩ (by decide)⟩

end EmotionEngine
