import EmotionEngine.Proofs.Block.Effect

/-!
Two guests side by side. They are alike if they differ at most in the place of their processors and in
what their memories know of code, and they agree if they have the same program counter as well. An
instruction takes guests that are alike to guests that are alike; one of the two may find that the running
block was modified where the other does not.

Main statements: `Guest.exec_inStep` and `Guest.after_agrees`.
-/

namespace EmotionEngine

/-- How control goes on, whether the running block was modified or not. -/
def Flow.plain : Flow → Flow
  | .codeModified => .next
  | f => f

namespace Guest

/-- Two guests that differ at most in the place of the processor and in what is known of code. -/
structure Alike (g h : Guest) : Prop where
  cpu : ∃ pc first last, h.cpu = g.cpu.placed pc first last
  mem : g.mem.SameContents h.mem

/-- Two guests that are alike and have the same program counter. -/
structure Agrees (g h : Guest) : Prop extends Alike g h where
  pc : h.cpu.pc = g.cpu.pc

/-- What an instruction made of two guests. -/
structure InStep (i : DecodedInsn) (g h : Guest) (r s : Flow × Guest) : Prop where
  flow : s.1.plain = r.1.plain
  branch : i.insn.hasDelaySlot = true → s.1 = r.1
  alike : r.2.Alike s.2
  /-- Both store the next program counter, or neither does. -/
  pc : s.2.cpu.pc = r.2.cpu.pc ∨ s.2.cpu.pc = h.cpu.pc ∧ r.2.cpu.pc = g.cpu.pc
  goes : r.1 = .redirect ∨ i.insn.hasDelaySlot = true ∧ r.1 = .next → s.2.cpu.pc = r.2.cpu.pc

theorem load_pc (g : Guest) (w : Width) (vaddr : Word) : (g.load w vaddr).2.cpu.pc = g.cpu.pc := by
  obtain ⟨mem, -, ⟨v, loaded⟩ | ⟨code, -, failed⟩⟩ := g.load_cases w vaddr
  · rw [loaded]
  · rw [failed]
    rfl

theorem store_pc (g : Guest) (w : Width) (vaddr : Word) (v : Quad) :
    (g.store w vaddr v).2.cpu.pc = g.cpu.pc := by
  obtain ⟨mem, -, stored | stored | ⟨code, -, failed⟩⟩ := g.store_cases w vaddr v
  · rw [stored]
  · rw [stored]
  · rw [failed]
    rfl

section
variable {g h : Guest} (alike : g.Alike h)
include alike

theorem Alike.value {α : Type} {v : Cpu → α} (unplaced : Cpu.Unplaced v) : v h.cpu = v g.cpu := by
  obtain ⟨pc, first, last, cpu⟩ := alike.cpu
  rw [cpu, unplaced]

theorem Alike.change {u : Cpu → Cpu} (neutral : Cpu.Neutral u) :
    Alike { g with cpu := u g.cpu } { h with cpu := u h.cpu } := by
  obtain ⟨pc, first, last, cpu⟩ := alike.cpu
  refine ⟨⟨pc, first, last, ?_⟩, alike.mem⟩
  dsimp only
  rw [cpu, neutral.placed]

theorem Alike.fault (code : ExcCode) (vaddr : Word) : Alike (g.fault code vaddr) (h.fault code vaddr) := by
  obtain ⟨pc, first, last, cpu⟩ := alike.cpu
  refine ⟨⟨pc, first, last, ?_⟩, alike.mem⟩
  unfold Guest.fault
  rw [cpu]
  rfl

theorem Alike.load (w : Width) (vaddr : Word) :
    (h.load w vaddr).1 = (g.load w vaddr).1 ∧ (g.load w vaddr).2.Alike (h.load w vaddr).2 := by
  unfold Guest.load
  dsimp only
  split
  · next aligned =>
    obtain ⟨same, after⟩ := alike.mem.read (aligned_inPage aligned)
    generalize g.mem.read w (accessAddr w vaddr) = r at same after ⊢
    generalize h.mem.read w (accessAddr w vaddr) = s at same after ⊢
    obtain ⟨r, mem⟩ := r
    obtain ⟨s, mem'⟩ := s
    dsimp only at same after
    subst same
    cases s with
    | ok v => exact ⟨rfl, alike.cpu, after⟩
    | error e => exact ⟨rfl, Alike.fault (g := { g with mem }) (h := { h with mem := mem' }) ⟨alike.cpu, after⟩ _ _⟩
  · exact ⟨rfl, alike.fault _ _⟩

theorem Alike.store (w : Width) (vaddr : Word) (v : Quad) :
    ((h.store w vaddr v).1 = .fault ↔ (g.store w vaddr v).1 = .fault) ∧
      (g.store w vaddr v).2.Alike (h.store w vaddr v).2 := by
  unfold Guest.store
  dsimp only
  split
  · next aligned =>
    obtain ⟨same, after⟩ := alike.mem.write (aligned_inPage aligned) v
    generalize g.mem.write w (accessAddr w vaddr) v = r at same after ⊢
    generalize h.mem.write w (accessAddr w vaddr) v = s at same after ⊢
    obtain ⟨_ | effect, mem⟩ := r <;> obtain ⟨_ | effect', mem'⟩ := s
    · exact ⟨Iff.rfl, Alike.fault (g := { g with mem }) (h := { h with mem := mem' }) ⟨alike.cpu, after⟩ _ _⟩
    · cases same
    · cases same
    · refine ⟨?_, alike.cpu, after⟩
      dsimp only
      split <;> split <;> simp
  · exact ⟨Iff.rfl, alike.fault _ _⟩

theorem Alike.recordedFault : h.recordedFault = g.recordedFault :=
  alike.value (v := fun s => Flow.fault ((ExcCode.ofNat? s.excCode.toNat).getD .dataBus)) (fun _ _ _ _ => rfl)

/-! ## One instruction -/

theorem inStep_effect {i : DecodedInsn} {e : CpuEffect} (portable : e.Portable)
    (goes : i.insn.hasDelaySlot = true → ∀ s, e.flow s = .next → e.target s ≠ none) :
    InStep i g h (e.on g) (e.on h) := by
  obtain ⟨pc, first, last, cpu⟩ := alike.cpu
  have flow := alike.value portable.flow
  have target := alike.value portable.target
  have update : e.update h.cpu = (e.update g.cpu).placed pc first last := by rw [cpu, portable.update]
  unfold CpuEffect.on
  rw [flow, target, update]
  refine ⟨rfl, fun _ => rfl, ⟨⟨_, first, last, rfl⟩, alike.mem⟩, ?_, ?_⟩
  · cases e.target g.cpu with
    | some t => exact .inl rfl
    | none => exact .inr ⟨by rw [cpu]; rfl, (Cpu.stays_of_placed portable.update g.cpu).1⟩
  · intro jumps
    have stored : e.target g.cpu ≠ none := by
      obtain redirect | ⟨slot, next⟩ := jumps
      · exact portable.redirect g.cpu redirect
      · exact goes slot g.cpu next
    obtain ⟨t, found⟩ := Option.ne_none_iff_exists'.1 stored
    dsimp only
    rw [found]
    rfl

theorem inStep_load {i : DecodedInsn} (plain : i.insn.hasDelaySlot = false) (w : Width) (vaddr : Word)
    {put : Quad → Cpu → Cpu} (neutral : ∀ v, Cpu.Neutral (put v)) :
    InStep i g h (finishLoad put (g.load w vaddr)) (finishLoad put (h.load w vaddr)) := by
  obtain ⟨same, after⟩ := alike.load w vaddr
  have pcs := And.intro (h.load_pc w vaddr) (g.load_pc w vaddr)
  generalize g.load w vaddr = r at same after pcs ⊢
  generalize h.load w vaddr = s at same after pcs ⊢
  obtain ⟨r, g'⟩ := r
  obtain ⟨s, h'⟩ := s
  dsimp only at same after pcs
  subst same
  cases s with
  | some v =>
    have stays := fun k : Guest => (Cpu.stays_of_placed (neutral v).placed k.cpu).1
    refine ⟨rfl, fun _ => rfl, after.change (neutral v), .inr ⟨(stays h').trans pcs.1, (stays g').trans pcs.2⟩, ?_⟩
    rintro (redirect | ⟨slot, -⟩)
    · cases redirect
    · cases plain.symm.trans slot
  | none =>
    show InStep i g h (g'.recordedFault, g') (h'.recordedFault, h')
    rw [after.recordedFault]
    refine ⟨rfl, fun _ => rfl, after, .inr pcs, ?_⟩
    rintro (redirect | ⟨-, next⟩)
    · cases redirect
    · cases next

theorem inStep_store {i : DecodedInsn} (plain : i.insn.hasDelaySlot = false) (w : Width) (vaddr : Word)
    (v : Quad) : InStep i g h (g.execStore w vaddr v) (h.execStore w vaddr v) := by
  obtain ⟨same, after⟩ := alike.store w vaddr v
  have pcs := And.intro (h.store_pc w vaddr v) (g.store_pc w vaddr v)
  unfold execStore
  generalize g.store w vaddr v = r at same after pcs ⊢
  generalize h.store w vaddr v = s at same after pcs ⊢
  obtain ⟨r, g'⟩ := r
  obtain ⟨s, h'⟩ := s
  dsimp only at same after pcs
  cases r with
  | fault =>
    obtain rfl := same.2 rfl
    dsimp only
    rw [after.recordedFault]
    refine ⟨rfl, fun _ => rfl, after, .inr pcs, ?_⟩
    rintro (redirect | ⟨-, next⟩)
    · cases redirect
    · cases next
  | ok | codeModified =>
    -- The other may or may not find its own block modified.
    cases s with
    | fault => cases same.1 rfl
    | ok | codeModified =>
      refine ⟨rfl, fun slot => absurd (plain.symm.trans slot) nofun, after, .inr pcs, ?_⟩
      rintro (redirect | ⟨slot, -⟩)
      · cases redirect
      · cases plain.symm.trans slot

/-- An instruction does the same in guests that are alike. -/
theorem exec_inStep (i : DecodedInsn) : InStep i g h (g.exec i) (h.exec i) := by
  cases exec_kind i with
  | compute e portable goes exec =>
    rw [exec, exec]
    exact inStep_effect alike portable goes
  | load w addr put addrUnplaced neutral plain exec =>
    rw [exec, exec, alike.value addrUnplaced]
    exact inStep_load alike plain w (addr g.cpu) neutral
  | store w addr value addrUnplaced valueUnplaced plain exec =>
    rw [exec, exec, alike.value addrUnplaced, alike.value valueUnplaced]
    exact inStep_store alike plain w _ _

end

/-! ## The last instruction -/

/-- The guest after the last instruction that runs: an exception restarts at it or at its branch, and else
the next instruction follows, unless a branch or a return from an exception has stored another. -/
def after (i : DecodedInsn) (r : Flow × Guest) : Guest :=
  match r.1.plain with
  | .fault code => r.2.raiseAt i code
  | .skipDelaySlot => { r.2 with cpu := { r.2.cpu with pc := i.addr + 8 } }
  | .redirect => r.2
  | _ => if i.inDelaySlot then r.2 else { r.2 with cpu := { r.2.cpu with pc := i.addr + 4 } }

theorem Alike.trans {g h k : Guest} (alike : g.Alike h) (alike' : h.Alike k) : g.Alike k := by
  obtain ⟨pc, first, last, cpu⟩ := alike.cpu
  obtain ⟨pc', first', last', cpu'⟩ := alike'.cpu
  refine ⟨⟨pc', first', last', ?_⟩, alike.mem.trans alike'.mem⟩
  rw [cpu', cpu]
  rfl

/-- Guests that are alike agree once they go to the same program counter. -/
theorem Alike.at {g h : Guest} (alike : g.Alike h) (pc : Word) :
    Agrees { g with cpu := { g.cpu with pc } } { h with cpu := { h.cpu with pc } } := by
  obtain ⟨pc', first, last, cpu⟩ := alike.cpu
  refine ⟨⟨⟨pc, first, last, ?_⟩, alike.mem⟩, rfl⟩
  dsimp only
  rw [cpu]
  rfl

theorem Alike.raiseAt {g h : Guest} (alike : g.Alike h) (i : DecodedInsn) (code : ExcCode) :
    (g.raiseAt i code).Agrees (h.raiseAt i code) := by
  obtain ⟨pc, first, last, cpu⟩ := alike.cpu
  refine ⟨⟨⟨if i.inDelaySlot then i.addr - 4 else i.addr, first, last, ?_⟩, alike.mem⟩, rfl⟩
  unfold Guest.raiseAt
  rw [cpu]
  rfl

theorem eq_redirect_of_plain {f : Flow} (h : f.plain = .redirect) : f = .redirect := by
  cases f with
  | redirect => rfl
  | _ => cases h

/-- What an instruction leaves agrees, in a delay slot if the branch did. -/
theorem after_agrees {i : DecodedInsn} {g h : Guest} {r s : Flow × Guest} (inStep : InStep i g h r s)
    (slot : i.inDelaySlot = true → h.cpu.pc = g.cpu.pc) : (after i r).Agrees (after i s) := by
  have alike := inStep.alike
  unfold after
  rw [inStep.flow]
  cases flow : r.1.plain with
  | fault code => exact alike.raiseAt i code
  | skipDelaySlot => exact alike.at _
  | redirect => exact ⟨alike, inStep.goes (.inl (eq_redirect_of_plain flow))⟩
  | next | codeModified =>
    dsimp only
    split
    · next own =>
      refine ⟨alike, ?_⟩
      obtain same | ⟨stays, stays'⟩ := inStep.pc
      · exact same
      · rw [stays, stays', slot own]
    · exact alike.at _

end Guest

end EmotionEngine
