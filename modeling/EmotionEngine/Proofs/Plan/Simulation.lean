import EmotionEngine.Proofs.Plan.Steps

/-!
Plans simulate the register file. Plain execution keeps one value for each guest register; each
instruction computes new values from those it reads. Under a plan the same instructions find what they
read in host registers and homes, and leave what they write there, between the moves of the plan.

Main statement: every block has a plan, and whatever the copies held at first and whatever the
instructions compute, at every instruction the plan serves it as plain execution would
(`ofBlock_simulates`): operands are in registers of their own, what is read is current, and the flush
lists give the register file from before and from after the instruction.
-/

namespace EmotionEngine

open Host (Slot)
open Plan (State)

/-- What an instruction computes: from the values that it reads, new values for what it writes. -/
abbrev Effect (α : Type) := (GuestReg → Option α) → GuestReg → α

section

variable {α : Type}

/-! ## Plain execution -/

/-- The values that an instruction reads in a register file. -/
def Uses.inputs (u : Uses) (file : GuestReg → α) (g : GuestReg) : Option α :=
  if g ∈ u.reads ∨ g ∈ u.envReads then some (file g) else none

/-- The register file after an instruction. -/
def Uses.apply (u : Uses) (f : Effect α) (file : GuestReg → α) (g : GuestReg) : α :=
  if g ∈ u.changes then f (u.inputs file) g else file g

/-- The register file before instruction number `n`. -/
def fileAt (us : List Uses) (f : Nat → Effect α) (file : GuestReg → α) : Nat → GuestReg → α
  | 0 => file
  | n + 1 =>
    match us[n]? with
    | some u => u.apply (f n) (fileAt us f file n)
    | none => fileAt us f file n

/-! ## Execution under a plan -/

/-- The values that an instruction reads in host registers and, through a helper, at home. -/
def Step.inputs (s : Step) (u : Uses) (c : Copies α) (g : GuestReg) : Option α :=
  if g ∈ u.reads then (s.slot? g).map c.slot
  else if g ∈ u.envReads then some (c.home g)
  else none

/-- The instruction itself: it writes operands in their registers and, through a helper, values at
home. -/
def Step.perform (s : Step) (u : Uses) (f : Effect α) (c : Copies α) : Copies α :=
  let result := f (s.inputs u c)
  { c with
    slot := fun k =>
      match u.writes.find? (fun g => s.slot? g = some k) with
      | some g => result g
      | none => c.slot k
    home := fun g => if g ∈ u.envWrites then result g else c.home g }

/-- The copies before the moves of instruction number `n`. -/
def copiesAt (us : List Uses) (ss : List Step) (f : Nat → Effect α) (c : Copies α) : Nat → Copies α
  | 0 => c
  | n + 1 =>
    match us[n]?, ss[n]? with
    | some u, some s =>
      (s.perform u (f n) ((copiesAt us ss f c n).after s.before)).after s.after
    | _, _ => copiesAt us ss f c n

/-- How a step of a plan serves its instruction, where `file` is the register file that plain execution
has before it and `c` the copies before the moves of the step. -/
structure Step.Serves (s : Step) (u : Uses) (f : Effect α) (file : GuestReg → α) (c : Copies α) :
    Prop where
  /-- Every operand has a host register, -/
  operand : ∀ g, g ∈ u.reads ∨ g ∈ u.writes → ∃ k, s.slot? g = some k
  /-- different operands have different ones, -/
  distinct : ∀ g h k, s.slot? g = some k → s.slot? h = some k → g = h
  /-- and that of a value which is read holds it. -/
  read : ∀ g ∈ u.reads, ∀ k, s.slot? g = some k → (c.after s.before).slot k = file g
  /-- A value that a helper reads is current at home. -/
  envRead : ∀ g ∈ u.envReads, (c.after s.before).home g = file g
  /-- The register file before the instruction can be restored, -/
  flushPre : ((c.after s.before).after s.flushPre).home = file
  /-- and after its writes the register file that plain execution has then. -/
  flushPost : ((s.perform u f (c.after s.before)).after s.flushPost).home = u.apply f file

/-! ## One instruction -/

namespace Plan.State.Planned

variable {u : Uses} {later : List Uses} {st mid written next : State} {s : Step}
  {hollow : List GuestReg} {file : GuestReg → α} {c : Copies α}

/-- A value that is read is in its register after the moves before an instruction. -/
theorem read (h : Planned u later st s mid written next hollow) (t : Tracks st [] file c)
    {g : GuestReg} (hg : g ∈ u.reads) {k : Slot} (hk : s.slot? g = some k) :
    (c.after s.before).slot k = file g := by
  have tm := (h.before file c t).2
  have := tm.current g (fun hm => (h.unread g hm).2 hg)
  rwa [h.slot g k hk] at this

theorem envRead (h : Planned u later st s mid written next hollow) (t : Tracks st [] file c)
    {g : GuestReg} (hg : g ∈ u.envReads) : (c.after s.before).home g = file g :=
  (h.before file c t).2.clean g (h.env g hg)

theorem slot_injective (h : Planned u later st s mid written next hollow) {g x : GuestReg} {k : Slot}
    (hg : s.slot? g = some k) (hx : s.slot? x = some k) : g = x :=
  h.mid_valid.distinct (h.slot g k hg) (h.slot x k hx)

/-- The code finds the values that plain execution reads. -/
theorem inputs_eq (h : Planned u later st s mid written next hollow) (t : Tracks st [] file c) :
    s.inputs u (c.after s.before) = u.inputs file := by
  funext g
  unfold Step.inputs Uses.inputs
  by_cases hr : g ∈ u.reads
  · obtain ⟨k, hk⟩ := h.operand g (Or.inl hr)
    simp [hr, hk, h.read t hr hk]
  · by_cases he : g ∈ u.envReads
    · simp [hr, he, h.envRead t he]
    · simp [hr, he]

theorem perform_tracks (h : Planned u later st s mid written next hollow) (t : Tracks st [] file c)
    (f : Effect α) :
    Tracks written [] (u.apply f file) (s.perform u f (c.after s.before)) := by
  have result : ∀ g, g ∈ u.writes ∨ g ∈ u.envWrites →
      f (s.inputs u (c.after s.before)) g = u.apply f file g := by
    intro g hg
    rw [h.inputs_eq t, Uses.apply, if_pos (by simpa [Uses.changes] using hg)]
  have slot : ∀ g ∈ u.writes, ∀ k, (mid.value g).place = .slot k → s.slot? g = some k := by
    intro g hg k hk
    obtain ⟨k', hk'⟩ := h.operand g (Or.inr hg)
    have := h.slot g k' hk'
    rw [hk] at this
    cases this
    exact hk'
  refine Tracks.noted (h.before file c t).2 h.mid_valid h.value (fun g hg => (h.unread g hg).1)
    ?_ ?_ ?_ ?_ ?_ ?_ rfl
  · intro g hg
    obtain ⟨k, hk⟩ := h.operand g (Or.inr hg)
    exact ⟨k, h.slot g k hk⟩
  · intro g hw he
    rw [Uses.apply, if_neg (by simp [Uses.changes, hw, he])]
  · intro g hg k hk
    have hs := slot g hg k hk
    have found : u.writes.find? (fun x => s.slot? x = some k) = some g := by
      cases hf : u.writes.find? (fun x => s.slot? x = some k) with
      | none => exact absurd hs (by simpa using List.find?_eq_none.mp hf g hg)
      | some x =>
        have hx : s.slot? x = some k := by simpa using List.find?_some hf
        rw [h.slot_injective hx hs]
    simp only [Step.perform, found]
    exact result g (Or.inl hg)
  · intro k hk
    have none : u.writes.find? (fun x => s.slot? x = some k) = none := by
      rw [List.find?_eq_none]
      intro x hx hs
      exact hk x hx (h.slot x k (by simpa using hs))
    simp only [Step.perform, none]
  · intro g hg
    simp only [Step.perform, hg, if_true]
    exact result g (Or.inr hg)
  · intro g hg
    simp only [Step.perform, hg, if_false]

theorem serves (h : Planned u later st s mid written next hollow) (t : Tracks st [] file c)
    (f : Effect α) : s.Serves u f file c where
  operand := h.operand
  distinct := fun _ _ _ hg hx => h.slot_injective hg hx
  read := fun _ hg _ hk => h.read t hg hk
  envRead := fun _ hg => h.envRead t hg
  flushPre := by
    funext g
    rw [h.flushPre]
    exact (h.before file c t).2.home_flush h.mid_valid g
  flushPost := by
    funext g
    rw [h.flushPost]
    exact (h.perform_tracks t f).home_flush h.written_valid g

end Plan.State.Planned

/-! ## Blocks -/

theorem fileAt_cons (u : Uses) (us : List Uses) (f : Nat → Effect α) (file : GuestReg → α) (n : Nat) :
    fileAt (u :: us) f file (n + 1) = fileAt us (fun k => f (k + 1)) (u.apply (f 0) file) n := by
  induction n with
  | zero => rfl
  | succ n ih =>
    rw [fileAt, ih, fileAt, List.getElem?_cons_succ]

theorem copiesAt_cons (u : Uses) (us : List Uses) (s : Step) (ss : List Step) (f : Nat → Effect α)
    (c : Copies α) (n : Nat) :
    copiesAt (u :: us) (s :: ss) f c (n + 1) =
      copiesAt us ss (fun k => f (k + 1)) ((s.perform u (f 0) (c.after s.before)).after s.after) n := by
  induction n with
  | zero => rfl
  | succ n ih =>
    rw [copiesAt, ih, copiesAt, List.getElem?_cons_succ, List.getElem?_cons_succ]

/-- Along a plan every step serves its instruction, and the last state of the allocator tracks the
register file that is left. -/
theorem Plan.State.Plans.serves {us : List Uses} {st last : State} {ss : List Step}
    (h : Plans us st ss last) {file : GuestReg → α} {c : Copies α} (t : Tracks st [] file c)
    (f : Nat → Effect α) :
    (∀ (n : Nat) (u : Uses) (s : Step), us[n]? = some u → ss[n]? = some s →
      s.Serves u (f n) (fileAt us f file n) (copiesAt us ss f c n)) ∧
    Tracks last [] (fileAt us f file us.length) (copiesAt us ss f c us.length) := by
  induction h generalizing file c f with
  | nil st =>
    refine ⟨?_, t⟩
    intro n u s hn
    simp at hn
  | @cons u later st s mid written next hollow ss last step rest ih =>
    have tn := (step.after _ _ (step.perform_tracks t (f 0))).2
    obtain ⟨each, final⟩ := ih tn (fun k => f (k + 1))
    refine ⟨?_, ?_⟩
    · intro n x y hx hy
      cases n with
      | zero =>
        cases hx
        cases hy
        exact step.serves t (f 0)
      | succ n =>
        rw [fileAt_cons, copiesAt_cons]
        exact each n x y hx hy
    · rw [List.length_cons, fileAt_cons, copiesAt_cons]
      exact final

/-- Every block has a plan with a step for each instruction. Whatever homes, spill slots and host
registers hold at first and whatever the instructions compute, each step serves its instruction as plain
execution from the first homes would; at the end every home holds what plain execution leaves, and there
is nothing left to flush. -/
theorem ofBlock_simulates (b : Block) :
    ∃ p, Plan.ofBlock b = .ok p ∧ p.steps.length = b.insns.length ∧
      ∀ (β : Type) (f : Nat → Effect β) (c : Copies β),
        let us := b.insns.map (fun i => i.insn.uses)
        (∀ (n : Nat) (u : Uses) (s : Step), us[n]? = some u → p.steps[n]? = some s →
          s.Serves u (f n) (fileAt us f c.home n) (copiesAt us p.steps f c n)) ∧
        (copiesAt us p.steps f c us.length).home = fileAt us f c.home us.length ∧
        p.exitFlush = [] := by
  obtain ⟨p, e, he, last, ps, home⟩ := Plan.ofBlock_plans b
  refine ⟨p, e, ?_, ?_⟩
  · rw [ps.length_eq, List.length_map]
  · intro β f c us
    have start : Tracks State.start [] c.home c :=
      ⟨fun g _ => by rw [State.value_start]; rfl, fun _ _ => rfl, by simp⟩
    obtain ⟨each, final⟩ := ps.serves start f
    refine ⟨each, ?_, he⟩
    funext g
    exact final.clean g (by rw [home g])

end

end EmotionEngine
