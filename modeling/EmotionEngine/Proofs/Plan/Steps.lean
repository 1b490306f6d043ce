import EmotionEngine.Proofs.Plan.Operands

/-!
The plan of one instruction and of a block. An instruction's step goes through three states of the
allocator: `mid`, when its operands are in place, `written`, when its writes have been noted, and `next`,
when the values that nothing refers to any more have gone home. `Planned` says what is known of a step
and of these states, and `Plans` strings the steps of a block together.

Main statements: the step of any instruction that names few enough values is `Planned` (`step_planned`),
so every block has a plan (`ofBlock_plans`), and at the end of a plan every value is at home.
-/

namespace EmotionEngine

open Host (Slot)
open Plan (Value State)

/-! ## Registers that instructions name -/

theorem mem_foldl_addReg {rs acc : List GuestReg} {x : GuestReg} :
    x ∈ rs.foldl addReg acc ↔ x ∈ acc ∨ (x ∈ rs ∧ x ≠ .gpr 0) := by
  induction rs generalizing acc with
  | nil => simp
  | cons r rs ih =>
    rw [List.foldl_cons, ih, mem_addReg, List.mem_cons]
    constructor
    · rintro ((h | ⟨rfl, h⟩) | ⟨h, h'⟩)
      · exact Or.inl h
      · exact Or.inr ⟨Or.inl rfl, h⟩
      · exact Or.inr ⟨Or.inr h, h'⟩
    · rintro (h | ⟨rfl | h, h'⟩)
      · exact Or.inl (Or.inl h)
      · exact Or.inl (Or.inr ⟨rfl, h'⟩)
      · exact Or.inr ⟨h, h'⟩

@[simp] theorem mem_regList {rs : List GuestReg} {x : GuestReg} :
    x ∈ regList rs ↔ x ∈ rs ∧ x ≠ .gpr 0 := by
  unfold regList
  rw [mem_foldl_addReg]
  simp

theorem length_addReg_le (rs : List GuestReg) (r : GuestReg) :
    (addReg rs r).length ≤ rs.length + 1 := by
  unfold addReg
  split
  · omega
  · simp

theorem length_regList_le (rs : List GuestReg) : (regList rs).length ≤ rs.length := by
  have grow : ∀ acc : List GuestReg, (rs.foldl addReg acc).length ≤ acc.length + rs.length := by
    induction rs with
    | nil => simp
    | cons r rs ih =>
      intro acc
      have := ih (addReg acc r)
      have := length_addReg_le acc r
      rw [List.foldl_cons, List.length_cons]
      omega
  simpa [regList] using grow []

/-- What a list of uses must satisfy for the allocator to serve it. -/
structure Uses.WellFormed (u : Uses) : Prop where
  /-- There are registers for all operands at once. -/
  few : u.reads.length + u.writes.length ≤ 5
  nonzero : GuestReg.gpr 0 ∉ u.all
  envFew : u.envReads.length + u.envWrites.length ≤ 3

theorem Insn.uses_wellFormed (i : Insn) : i.uses.WellFormed := by
  have small := length_regList_le
  cases i with
  | nop | syscall | breakpoint | sync | eret | ei | di | fpuArith | fpuCompare | fpuBranch | reserved =>
    constructor <;> simp [Insn.uses, Uses.all]
  | alu op rd rs rt =>
    have := small [.gpr rs, .gpr rt]
    have := small [.gpr rd]
    constructor <;> simp_all [Insn.uses, Uses.all]
    omega
  | aluImm op rt rs imm =>
    have := small [.gpr rs]
    have := small [.gpr rt]
    constructor <;> simp_all [Insn.uses, Uses.all]
    omega
  | lui rt imm =>
    have := small [.gpr rt]
    constructor <;> simp_all [Insn.uses, Uses.all]
    omega
  | shift op rd rt sa =>
    have := small [.gpr rt]
    have := small [.gpr rd]
    constructor <;> simp_all [Insn.uses, Uses.all]
    omega
  | shiftVar op rd rt rs =>
    have := small [.gpr rt, .gpr rs]
    have := small [.gpr rd]
    constructor <;> simp_all [Insn.uses, Uses.all]
    omega
  | mulDiv op rd rs rt =>
    have := small [.gpr rs, .gpr rt]
    have := small (if op.isMul then [.gpr rd, .hi, .lo] else [.hi, .lo])
    constructor <;> cases op <;> simp_all [Insn.uses, Uses.all, MulDivOp.isMul] <;> omega
  | hiLo op r =>
    have := small [.gpr r]
    constructor <;> cases op <;> simp_all [Insn.uses, Uses.all] <;> omega
  | condMove op rd rs rt =>
    have := small [.gpr rs, .gpr rt, .gpr rd]
    have := small [.gpr rd]
    constructor <;> simp_all [Insn.uses, Uses.all]
    omega
  | load op rt base offset =>
    have := small [.gpr base]
    have := small [.gpr rt]
    constructor <;> cases op <;> simp_all [Insn.uses, Uses.all] <;> omega
  | store op rt base offset =>
    have := small [.gpr base]
    have := small [.gpr rt]
    have := small [.gpr base, .gpr rt]
    constructor <;> cases op <;> simp_all [Insn.uses, Uses.all] <;> omega
  | branch cond rs rt offset likely link =>
    have := small [.gpr rs, .gpr rt]
    have := small [.gpr rs]
    constructor <;> cases cond <;> cases link <;>
      simp_all [Insn.uses, Uses.all, BranchCond.usesRt] <;> omega
  | jump index link => constructor <;> cases link <;> simp [Insn.uses, Uses.all]
  | jumpReg rs link =>
    have := small [.gpr rs]
    cases link with
    | none => constructor <;> simp_all [Insn.uses, Uses.all]; omega
    | some rd =>
      have := small [.gpr rd]
      constructor <;> simp_all [Insn.uses, Uses.all]; omega
  | cop0Move op rt rd =>
    have := small [.gpr rt]
    constructor <;> cases op <;> simp_all [Insn.uses, Uses.all] <;> omega
  | fpuMove op rt fs =>
    have := small [.gpr rt]
    constructor <;> cases op <;> simp_all [Insn.uses, Uses.all] <;> omega
  | fpuLoad ft base offset =>
    have := small [.gpr base]
    constructor <;> simp_all [Insn.uses, Uses.all]
    omega
  | fpuStore ft base offset =>
    have := small [.gpr base]
    constructor <;> simp_all [Insn.uses, Uses.all]
    omega
  | mmi op rd rs rt =>
    have := small [.gpr rs, .gpr rt]
    have := small [.gpr rd]
    constructor <;> simp_all [Insn.uses, Uses.all]
    omega

namespace Plan.State

/-! ## Going home -/

/-- A stale home is brought up to date; what is then said of the value may be anything true. -/
theorem carries_flushMove {st : State} {hollow : List GuestReg} (hv : st.Valid) {g : GuestReg}
    {v : Value} (hg : g ∉ hollow)
    (current : ∀ ⦃α : Type⦄ (file : GuestReg → α) (c : Copies α), Tracks st hollow file c →
      c.home g = file g → c.read g v.place = file g) :
    Carries st hollow (st.flushMove g).toList (st.setValue g v) hollow := by
  intro α file c t
  obtain ⟨f, t', _, all⟩ := t.flush_list hv [g]
  have e : [g].filterMap st.flushMove = (st.flushMove g).toList := by
    cases hm : st.flushMove g with
    | none => simp [hm]
    | some m => simp [hm]
  rw [e] at f t' all
  have home := all g List.mem_cons_self
  exact ⟨f, t'.setValue hg (current file _ t' home) fun _ => home⟩

/-- Bringing values home: afterwards none of their homes is stale. -/
structure Homed (st : State) (gs : List GuestReg) (ms : List Move) (st' : State) : Prop where
  valid : st'.Valid
  done : ∀ g ∈ gs, (st'.value g).dirty = false
  clean : ∀ g, (st.value g).dirty = false → (st'.value g).dirty = false
  live : ∀ g, st'.value g ≠ {} → st.value g ≠ {}
  carries : Carries st [] ms st' []

theorem Homed.nil {st : State} (hv : st.Valid) : Homed st [] [] st where
  valid := hv
  done := by simp
  clean := fun _ h => h
  live := fun _ h => h
  carries := Carries.refl st []

theorem Homed.cons {st st' st'' : State} {g : GuestReg} {gs : List GuestReg} {ms ms' : List Move}
    (h : Homed st [g] ms st') (h' : Homed st' gs ms' st'') : Homed st (g :: gs) (ms ++ ms') st'' where
  valid := h'.valid
  done := by
    intro x hx
    rcases List.mem_cons.mp hx with rfl | hx
    · exact h'.clean x (h.done x List.mem_cons_self)
    · exact h'.done x hx
  clean := fun x e => h'.clean x (h.clean x e)
  live := fun x e => h.live x (h'.live x e)
  carries := h.carries.trans h'.carries

theorem homed_bringHome {st : State} (hv : st.Valid) (g : GuestReg) :
    Homed st [g] (st.bringHome g).1 (st.bringHome g).2 := by
  -- The entry changes only where the home was stale.
  have entry : ∀ v : Value, g ≠ .gpr 0 → v.dirty = false → st.value g ≠ {} →
      (∀ s x, v.place = .slot s → (st.value x).place = .slot s → x = g) →
      (∀ ⦃α : Type⦄ (file : GuestReg → α) (c : Copies α), Tracks st [] file c →
        c.home g = file g → c.read g v.place = file g) →
      Homed st [g] (st.flushMove g).toList (st.setValue g v) := by
    intro v h0 hd hl own current
    refine ⟨hv.setValue h0 own (fun _ => hd), ?_, ?_, ?_,
      carries_flushMove hv (by simp) current⟩
    · intro x hx
      rw [List.mem_singleton.mp hx, value_setValue_self, hd]
    · exact forall_setValue (P := fun x w => (st.value x).dirty = false → w.dirty = false) (fun _ => hd)
        fun _ _ hx => hx
    · exact forall_setValue (P := fun x w => w ≠ {} → st.value x ≠ {}) (fun _ => hl) fun _ _ hx => hx
  unfold bringHome
  split
  · next s hval =>
    have hp : (st.value g).place = .slot s := by rw [hval]
    have hm : st.flushMove g = some (.writeBack g s) := by unfold flushMove; rw [hval]
    have := entry { place := .slot s, dirty := false } (ne_zero_of_slot hv hp) rfl (by rw [hval]; simp)
      (fun k x hk hx => hv.distinct hx (hp.trans hk))
      (fun α file c t _ => by
        have := t.current g (by simp)
        rwa [hp] at this)
    rwa [hm] at this
  · next hval =>
    have h0 : g ≠ .gpr 0 := by
      rintro rfl
      rw [hv.zero] at hval
      cases hval
    have hm : st.flushMove g = some (.spillToHome g) := by unfold flushMove; rw [hval]
    have := entry { place := .home, dirty := false } h0 rfl (by rw [hval]; simp) (by simp)
      (fun α file c _ e => e)
    rwa [hm] at this
  · next h1 h2 =>
    refine ⟨hv, ?_, fun _ h => h, fun _ h => h, Carries.refl st []⟩
    intro x hx
    rw [List.mem_singleton.mp hx]
    cases hd : (st.value g).dirty with
    | false => rfl
    | true =>
      exfalso
      cases hp : (st.value g).place with
      | home => rw [hv.home_clean g hp] at hd; cases hd
      | slot s => exact h1 s (by rw [← hp, ← hd])
      | spill => exact h2 (by rw [← hp, ← hd])

theorem homed_forEach {st : State} (hv : st.Valid) (gs : List GuestReg) :
    Homed st gs (forEach bringHome st gs).1 (forEach bringHome st gs).2 := by
  induction gs generalizing st with
  | nil => exact Homed.nil hv
  | cons g gs ih =>
    have h := homed_bringHome hv g
    exact Homed.cons h (ih h.valid)

/-! ## Giving values up -/

theorem release_eq (st : State) (g : GuestReg) :
    st.release g = ((st.flushMove g).toList, st.setValue g {}) := by
  unfold release flushMove discard
  split <;> simp_all

/-- Giving values up: they are all at home afterwards, and nothing else has changed. -/
structure Released (st : State) (gs : List GuestReg) (ms : List Move) (st' : State) : Prop where
  valid : st'.Valid
  value : ∀ g, st'.value g = if g ∈ gs then {} else st.value g
  carries : Carries st [] ms st' []

theorem released_forEach {st : State} (hv : st.Valid) (gs : List GuestReg)
    (h0 : ∀ g ∈ gs, g ≠ .gpr 0) :
    Released st gs (forEach release st gs).1 (forEach release st gs).2 := by
  induction gs generalizing st with
  | nil => exact ⟨hv, by simp [forEach], Carries.refl st []⟩
  | cons g gs ih =>
    have hv' : (st.setValue g {}).Valid :=
      hv.setValue (h0 g List.mem_cons_self) (by simp) (by simp)
    have h := ih hv' (fun x hx => h0 x (List.mem_cons_of_mem g hx))
    have e : forEach release st (g :: gs) =
        ((st.flushMove g).toList ++ (forEach release (st.setValue g {}) gs).1,
          (forEach release (st.setValue g {}) gs).2) := by
      rw [forEach, release_eq]
    rw [e]
    refine ⟨h.valid, ?_, ?_⟩
    · intro x
      rw [h.value x]
      by_cases hx : x ∈ gs
      · simp [hx]
      · by_cases ex : g = x
        · subst ex
          simp
        · rw [if_neg hx, value_setValue_of_ne st _ ex, if_neg]
          simp [hx, Ne.symm ex]
    · exact (carries_flushMove (g := g) (v := {}) hv (by simp) (fun _ _ _ _ e => e)).trans h.carries

/-! ## Noting writes -/

/-- What is said of the values once the writes of an instruction have been noted. -/
def noted (u : Uses) (st : State) (g : GuestReg) : Value :=
  if g ∈ u.envWrites then {}
  else if g ∈ u.writes then { st.value g with dirty := true }
  else st.value g

theorem value_foldl_soil (st : State) (gs : List GuestReg) (x : GuestReg) :
    (gs.foldl soil st).value x = if x ∈ gs then { st.value x with dirty := true } else st.value x := by
  induction gs generalizing st with
  | nil => simp
  | cons g gs ih =>
    rw [List.foldl_cons, ih]
    by_cases e : g = x
    · subst e
      simp [soil]
    · rw [soil, value_setValue_of_ne st _ e]
      simp [Ne.symm e]

theorem value_foldl_discard (st : State) (gs : List GuestReg) (x : GuestReg) :
    (gs.foldl discard st).value x = if x ∈ gs then {} else st.value x := by
  induction gs generalizing st with
  | nil => simp
  | cons g gs ih =>
    rw [List.foldl_cons, ih]
    by_cases e : g = x
    · subst e
      simp [discard]
    · rw [discard, value_setValue_of_ne st _ e]
      simp [Ne.symm e]

theorem value_written (u : Uses) (st : State) (g : GuestReg) :
    (u.envWrites.foldl discard (u.writes.foldl soil st)).value g = noted u st g := by
  rw [value_foldl_discard, value_foldl_soil]
  rfl

/-- Noting the writes of an instruction whose operands are in registers keeps a state valid. -/
theorem Valid.noted {u : Uses} (hu : u.WellFormed) {st st' : State} (hv : st.Valid)
    (inSlot : ∀ g ∈ u.writes, ∃ s, (st.value g).place = .slot s)
    (value : ∀ g, st'.value g = noted u st g) : st'.Valid := by
  have place : ∀ g s, (st'.value g).place = .slot s → (st.value g).place = .slot s := by
    intro g s h
    rw [value g] at h
    unfold State.noted at h
    split at h
    · cases h
    · split at h
      · exact h
      · exact h
  refine ⟨fun hg hh => hv.distinct (place _ _ hg) (place _ _ hh), ?_, ?_⟩
  · intro g h
    rw [value g] at h ⊢
    unfold State.noted at h ⊢
    split
    · rfl
    · next he =>
      rw [if_neg he] at h
      split
      · next hw =>
        rw [if_pos hw] at h
        obtain ⟨s, hs⟩ := inSlot g hw
        rw [hs] at h
        cases h
      · next hw =>
        rw [if_neg hw] at h
        exact hv.home_clean g h
  · rw [value]
    have h0 := hu.nonzero
    simp only [Uses.all, List.mem_append, not_or] at h0
    unfold State.noted
    rw [if_neg h0.2, if_neg h0.1.1.2, hv.zero]

end Plan.State

/-- The writes of an instruction: those to registers make their homes stale, those to homes leave no
other copy. -/
theorem Tracks.noted {α : Type} {u : Uses} {mid written : State} {hollow : List GuestReg}
    {file file' : GuestReg → α} {c c' : Copies α} (t : Tracks mid hollow file c) (hv : mid.Valid)
    (value : ∀ g, written.value g = State.noted u mid g) (unread : ∀ g ∈ hollow, g ∈ u.writes)
    (inSlot : ∀ g ∈ u.writes, ∃ k, (mid.value g).place = .slot k)
    (same : ∀ g, g ∉ u.writes → g ∉ u.envWrites → file' g = file g)
    (slots : ∀ g ∈ u.writes, ∀ k, (mid.value g).place = .slot k → c'.slot k = file' g)
    (slots_same : ∀ k, (∀ g ∈ u.writes, (mid.value g).place ≠ .slot k) → c'.slot k = c.slot k)
    (homes : ∀ g ∈ u.envWrites, c'.home g = file' g)
    (homes_same : ∀ g, g ∉ u.envWrites → c'.home g = c.home g) (spills : c'.spill = c.spill) :
    Tracks written [] file' c' := by
  refine ⟨?_, ?_, by simp⟩
  · intro g _
    rw [value g, State.noted]
    by_cases he : g ∈ u.envWrites
    · rw [if_pos he]
      exact homes g he
    rw [if_neg he]
    by_cases hw : g ∈ u.writes
    · rw [if_pos hw]
      obtain ⟨k, hk⟩ := inSlot g hw
      dsimp only
      rw [hk]
      exact slots g hw k hk
    rw [if_neg hw, same g hw he]
    have hc := t.current g (fun h => hw (unread g h))
    cases hp : (mid.value g).place with
    | home =>
      rw [hp] at hc
      exact (homes_same g he).trans hc
    | spill =>
      rw [hp] at hc
      exact (congrFun spills g).trans hc
    | slot k =>
      rw [hp] at hc
      -- No value that is written has the register of this one.
      refine (slots_same k ?_).trans hc
      intro x hx e
      exact hw (hv.distinct hp e ▸ hx)
  · intro g hd
    rw [value g, State.noted] at hd
    by_cases he : g ∈ u.envWrites
    · exact homes g he
    rw [if_neg he] at hd
    by_cases hw : g ∈ u.writes
    · rw [if_pos hw] at hd
      cases hd
    rw [if_neg hw] at hd
    rw [same g hw he, homes_same g he]
    exact t.clean g hd

namespace Plan.State

/-! ## Steps -/

/-- What is known of the step of an instruction with uses `u`, when instructions with uses `later`
follow, and of the states that the allocator goes through. -/
structure Planned (u : Uses) (later : List Uses) (st : State) (s : Step) (mid written next : State)
    (hollow : List GuestReg) : Prop where
  mid_valid : mid.Valid
  written_valid : written.Valid
  next_valid : next.Valid
  before : Carries st [] s.before mid hollow
  /-- Every operand has a register, -/
  operand : ∀ g, g ∈ u.reads ∨ g ∈ u.writes → ∃ k, s.slot? g = some k
  /-- which holds it, or will. -/
  slot : ∀ g k, s.slot? g = some k → (mid.value g).place = .slot k
  unread : ∀ g ∈ hollow, g ∈ u.writes ∧ g ∉ u.reads
  env : ∀ g ∈ u.envReads, (mid.value g).dirty = false
  flushPre : s.flushPre = mid.flush
  value : ∀ g, written.value g = noted u mid g
  flushPost : s.flushPost = written.flush
  after : Carries written [] s.after next []
  /-- Only values that are still needed are elsewhere than at home. -/
  live : ∀ g, next.value g ≠ {} → ∃ v ∈ later, g ∈ v.all

theorem mem_native {u : Uses} {g : GuestReg} : g ∈ native u ↔ g ∈ u.reads ∨ g ∈ u.writes := by
  unfold native
  by_cases h : g ∈ u.reads <;> simp [h]

theorem length_native_le (u : Uses) : (native u).length ≤ u.reads.length + u.writes.length := by
  have := List.length_filter_le (fun g => !u.reads.contains g) u.writes
  rw [native, List.length_append]
  omega

theorem lookup_isSome {places : List (GuestReg × Slot)} {g : GuestReg}
    (h : g ∈ places.map Prod.fst) : ∃ k, places.lookup g = some k := by
  induction places with
  | nil => simp at h
  | cons p places ih =>
    obtain ⟨x, k⟩ := p
    by_cases e : g = x
    · exact ⟨k, by simp [e]⟩
    · obtain ⟨k', hk⟩ := ih (by simpa [e] using h)
      refine ⟨k', ?_⟩
      rw [List.lookup_cons, beq_eq_false_iff_ne.mpr e]
      exact hk

theorem mem_of_lookup {places : List (GuestReg × Slot)} {g : GuestReg} {k : Slot}
    (h : places.lookup g = some k) : (g, k) ∈ places := by
  induction places with
  | nil => cases h
  | cons p places ih =>
    obtain ⟨x, j⟩ := p
    rw [List.lookup_cons] at h
    split at h
    · next e =>
      cases h
      rw [beq_iff_eq.mp e]
      exact List.mem_cons_self
    · exact List.mem_cons_of_mem _ (ih h)

theorem step_planned {u : Uses} (hu : u.WellFormed) {st : State} (hv : st.Valid) (now : Nat)
    (later : List Uses) (live : ∀ g, st.value g ≠ {} → ∃ v ∈ u :: later, g ∈ v.all) :
    ∃ s mid written next hollow, st.step now u later = .ok (s, next) ∧
      Planned u later st s mid written next hollow := by
  have hz : ∀ g ∈ u.all, g ≠ .gpr 0 := fun g hg e => hu.nonzero (e ▸ hg)
  have sub : ∀ g, g ∈ u.reads ∨ g ∈ u.writes → g ∈ u.all := by
    intro g hg
    simp only [Uses.all, List.mem_append]
    rcases hg with h | h
    · exact Or.inl (Or.inl (Or.inl h))
    · exact Or.inl (Or.inl (Or.inr h))
  have hh := homed_forEach hv u.envReads
  obtain ⟨ms, places, mid, hollow, e, hm, p⟩ :=
    @Placement.placeAll u (native u) (forEach bringHome st u.envReads).2 [] hh.valid
      (Nat.le_trans (length_native_le u) hu.few) (by simp) now (native u) (fun _ h => h)
      (fun g hg => hz g (sub g (mem_native.mp hg)))
  have slot : ∀ g k, places.lookup g = some k → (mid.value g).place = .slot k :=
    fun g k h => p.placed (g, k) (mem_of_lookup h)
  have operand : ∀ g, g ∈ u.reads ∨ g ∈ u.writes → ∃ k, places.lookup g = some k := by
    intro g hg
    apply lookup_isSome
    rw [hm]
    exact mem_native.mpr hg
  have inSlot : ∀ g ∈ u.writes, ∃ k, (mid.value g).place = .slot k := by
    intro g hg
    obtain ⟨k, hk⟩ := operand g (Or.inr hg)
    exact ⟨k, slot g k hk⟩
  let written := u.envWrites.foldl discard (u.writes.foldl soil mid)
  let dead := u.all.filter (fun g => later.all (fun v => !v.all.contains g))
  have value : ∀ g, written.value g = noted u mid g := value_written u mid
  have wv : written.Valid := Valid.noted hu p.valid inSlot value
  have rel := released_forEach wv dead (fun g hg => hz g (List.mem_filter.mp hg).1)
  refine ⟨{ before := (forEach bringHome st u.envReads).1 ++ ms
            operands := places
            flushPre := mid.flush
            flushPost := written.flush
            after := (forEach release written dead).1 },
    mid, written, (forEach release written dead).2, hollow, ?_, ?_⟩
  · simp only [step, e]
    rfl
  · refine ⟨p.valid, wv, rel.valid, hh.carries.trans p.carries, operand, slot, ?_, ?_, rfl, value, rfl,
      rel.carries, ?_⟩
    · intro g hg
      obtain ⟨hn, hr⟩ := p.unread g hg
      rcases mem_native.mp hn with h | h
      · exact absurd h hr
      · exact ⟨h, hr⟩
    · exact fun g hg => p.clean g (hh.done g hg)
    · intro g hg
      rw [rel.value g] at hg
      split at hg
      · exact absurd rfl hg
      · next hd =>
        rw [value g] at hg
        by_cases hall : g ∈ u.all
        · -- Named here and not given up, so named later.
          simp only [dead, List.mem_filter, hall, true_and, List.all_eq_true, Bool.not_eq_true',
            List.contains_eq_mem, decide_eq_false_iff_not, not_forall, not_not] at hd
          obtain ⟨v, hv, hgv⟩ := hd
          exact ⟨v, hv, hgv⟩
        · -- Not named here, so needed before for something that comes later.
          have hn : g ∉ native u := fun h => hall (sub g (mem_native.mp h))
          have hw : noted u mid g = mid.value g := by
            simp only [Uses.all, List.mem_append, not_or] at hall
            unfold noted
            rw [if_neg hall.2, if_neg hall.1.1.2]
          rw [hw] at hg
          obtain ⟨v, hv, hgv⟩ := live g (hh.live g (p.live g hn hg))
          rcases List.mem_cons.mp hv with rfl | hv
          · exact absurd hgv hall
          · exact ⟨v, hv, hgv⟩

/-! ## Blocks -/

/-- The steps of a list of instructions, from one state of the allocator to another. -/
inductive Plans : List Uses → State → List Step → State → Prop
  | nil (st : State) : Plans [] st [] st
  | cons {u : Uses} {later : List Uses} {st : State} {s : Step} {mid written next : State}
      {hollow : List GuestReg} {ss : List Step} {last : State}
      (step : Planned u later st s mid written next hollow) (rest : Plans later next ss last) :
      Plans (u :: later) st (s :: ss) last

theorem Plans.length_eq {us : List Uses} {st last : State} {ss : List Step} (h : Plans us st ss last) :
    ss.length = us.length := by
  induction h with
  | nil => rfl
  | cons _ _ ih => simp [ih]

theorem steps_plans (is : List DecodedInsn) {st : State} (hv : st.Valid) (now : Nat)
    (live : ∀ g, st.value g ≠ {} → ∃ v ∈ is.map (fun i => i.insn.uses), g ∈ v.all) :
    ∃ ss last, st.steps now is = .ok (ss, last) ∧
      Plans (is.map (fun i => i.insn.uses)) st ss last ∧ ∀ g, last.value g = {} := by
  induction is generalizing st now with
  | nil =>
    refine ⟨[], st, rfl, Plans.nil st, ?_⟩
    intro g
    by_contra h
    obtain ⟨v, hv, _⟩ := live g h
    cases hv
  | cons i is ih =>
    rw [List.map_cons] at live
    obtain ⟨s, mid, written, next, hollow, e, p⟩ :=
      step_planned i.insn.uses_wellFormed hv now _ live
    obtain ⟨ss, last, e', ps, home⟩ := ih p.next_valid (now + 1) p.live
    refine ⟨s :: ss, last, ?_, Plans.cons p ps, home⟩
    simp only [steps, e, e']

theorem flush_eq_nil {st : State} (h : ∀ g, st.value g = {}) : st.flush = [] := by
  rw [flush_eq, List.filterMap_eq_nil_iff]
  intro g _
  unfold flushMove
  rw [h g]

end Plan.State

/-- Every block has a plan, whose steps follow one another and leave every value at home. -/
theorem Plan.ofBlock_plans (b : Block) :
    ∃ p, Plan.ofBlock b = .ok p ∧ p.exitFlush = [] ∧ ∃ last,
      State.Plans (b.insns.map (fun i => i.insn.uses)) State.start p.steps last ∧
      ∀ g, last.value g = {} := by
  obtain ⟨ss, last, e, ps, home⟩ := State.steps_plans b.insns State.Valid.start 0 (by simp)
  refine ⟨_, by rw [Plan.ofBlock, e], State.flush_eq_nil home, last, ps, home⟩

end EmotionEngine
