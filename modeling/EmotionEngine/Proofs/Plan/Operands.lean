import EmotionEngine.Proofs.Plan.Copies
import Mathlib.Data.Finset.Card
import Mathlib.Data.Fintype.Card

/-!
Putting operands into host registers. A register is claimed either free or by moving out a value that
the instruction does not name; since an instruction names at most five values and there are five
registers, claiming never fails. Every operation of the allocator is described by what it does to the
values it knows of and by the moves it makes, as a statement of the form `Carries`.

Main statement: `placeAll` succeeds, gives every operand a register of its own and leaves hollow only
operands that are not read (`Placement.placeAll`).
-/

namespace EmotionEngine.Plan.State

open Host (Slot)

@[simp] theorem value_touch (st : State) (now : Nat) (s : Slot) (g : GuestReg) :
    (st.touch now s).value g = st.value g := rfl

theorem Valid.touch {st : State} (h : st.Valid) (now : Nat) (s : Slot) : (st.touch now s).Valid :=
  ⟨h.distinct, h.home_clean, h.zero⟩

theorem carries_touch (st : State) (now : Nat) (s : Slot) (hollow : List GuestReg) :
    Carries st hollow [] (st.touch now s) hollow :=
  fun _ _ _ h => ⟨trivial, ⟨h.current, h.clean, h.hollow_clean⟩⟩

/-- Changing the entry of one value keeps a state valid if the value takes no register of another. -/
theorem Valid.setValue {st : State} (h : st.Valid) {g : GuestReg} {v : Value} (hg : g ≠ .gpr 0)
    (own : ∀ s x, v.place = .slot s → (st.value x).place = .slot s → x = g)
    (clean : v.place = .home → v.dirty = false) : (st.setValue g v).Valid := by
  refine ⟨?_, ?_, ?_⟩
  · intro x y s hx hy
    by_cases ex : g = x
    · by_cases ey : g = y
      · exact ex.symm.trans ey
      · subst ex
        rw [value_setValue_self] at hx
        rw [value_setValue_of_ne st v ey] at hy
        exact (own s y hx hy).symm
    · by_cases ey : g = y
      · subst ey
        rw [value_setValue_self] at hy
        rw [value_setValue_of_ne st v ex] at hx
        exact own s x hy hx
      · rw [value_setValue_of_ne st v ex] at hx
        rw [value_setValue_of_ne st v ey] at hy
        exact h.distinct hx hy
  · exact forall_setValue (P := fun _ w => w.place = .home → w.dirty = false) clean fun x _ => h.home_clean x
  · rw [value_setValue_of_ne st v hg]
    exact h.zero

/-! ## Holders -/

theorem place_of_holder? {st : State} {s : Slot} {g : GuestReg} (h : st.holder? s = some g) :
    (st.value g).place = .slot s := by
  have := List.find?_some h
  simpa using this

theorem ne_zero_of_slot {st : State} (hv : st.Valid) {g : GuestReg} {s : Slot}
    (h : (st.value g).place = .slot s) : g ≠ .gpr 0 := by
  rintro rfl
  rw [hv.zero] at h
  cases h

theorem free_of_holder? {st : State} (hv : st.Valid) {s : Slot} (h : st.holder? s = none)
    (g : GuestReg) : (st.value g).place ≠ .slot s := by
  intro hp
  have hg := GuestReg.mem_all (ne_zero_of_slot hv hp)
  have := List.find?_eq_none.mp h g hg
  simp [hp] at this

/-! ## Claiming a register -/

theorem older_eq (st : State) (a b : Slot) : st.older a b = a ∨ st.older a b = b := by
  unfold older
  split
  · exact Or.inr rfl
  · exact Or.inl rfl

theorem foldl_older_mem (st : State) (s : Slot) (rest : List Slot) :
    rest.foldl st.older s ∈ s :: rest := by
  induction rest generalizing s with
  | nil => simp
  | cons x rest ih =>
    have hm := ih (st.older s x)
    rw [List.foldl_cons]
    rcases List.mem_cons.mp hm with e | hm
    · rw [e]
      rcases st.older_eq s x with e | e <;> rw [e] <;> simp
    · exact List.mem_cons_of_mem _ (List.mem_cons_of_mem _ hm)

/-- The value moved out of a claimed register is none of those that must stay. -/
theorem victim?_holder {st : State} {pinned : List GuestReg} {s : Slot}
    (h : st.victim? pinned = some s) : ∃ g, st.holder? s = some g ∧ g ∉ pinned := by
  unfold victim? at h
  dsimp only at h
  split at h
  · cases h
  · next x rest hf =>
    have hs : rest.foldl st.older x = s := Option.some.inj h
    have hm := foldl_older_mem st x rest
    rw [hs, ← hf, List.mem_filter] at hm
    cases hh : st.holder? s with
    | none => simp [hh] at hm
    | some g => exact ⟨g, rfl, by simpa [hh] using hm.2⟩

theorem mem_slots (s : Slot) : s ∈ Slot.all := by revert s; decide

/-- Five values that must stay, one of them without a register, leave a register to claim. -/
theorem victim?_isSome {st : State} {pinned : List GuestReg} (len : pinned.length ≤ 5)
    {g : GuestReg} (hg : g ∈ pinned) (out : ∀ s, (st.value g).place ≠ .slot s)
    (full : ∀ s, (st.holder? s).isSome) : (st.victim? pinned).isSome := by
  by_contra hn
  -- Otherwise every register holds a value that must stay, and `g` makes six of them.
  have stay : ∀ s, ∃ x, st.holder? s = some x ∧ x ∈ pinned := by
    intro s
    obtain ⟨x, hx⟩ := Option.isSome_iff_exists.mp (full s)
    refine ⟨x, hx, ?_⟩
    by_contra hp
    apply hn
    unfold victim?
    dsimp only
    split
    · next he =>
      have := List.filter_eq_nil_iff.mp he s (mem_slots s)
      simp [hx, hp] at this
    · rfl
  choose f hf hmem using stay
  have inj : Function.Injective f := by
    intro a b e
    have ha := place_of_holder? (hf a)
    have hb := place_of_holder? (hf b)
    rw [e, hb] at ha
    cases ha
    rfl
  have sub : Finset.univ.image f ⊆ pinned.toFinset.erase g := by
    intro x hx
    obtain ⟨s, _, rfl⟩ := Finset.mem_image.mp hx
    rw [Finset.mem_erase, List.mem_toFinset]
    refine ⟨?_, hmem s⟩
    intro e
    exact out s (e ▸ place_of_holder? (hf s))
  have card := Finset.card_le_card sub
  rw [Finset.card_image_of_injective _ inj, Finset.card_erase_of_mem (List.mem_toFinset.mpr hg),
    Finset.card_univ, Fintype.card_fin] at card
  have := List.toFinset_card_le pinned
  omega

/-- A register claimed for a new value: it is free afterwards, only the value that was in it has moved,
and that one did not have to stay. -/
structure Claimed (st : State) (pinned : List GuestReg) (s : Slot) (ms : List Move) (st' : State) :
    Prop where
  valid : st'.Valid
  free : ∀ g, (st'.value g).place ≠ .slot s
  stays : ∀ g ∈ pinned, (st.value g).place ≠ .slot s
  same : ∀ g, (st.value g).place ≠ .slot s → st'.value g = st.value g
  /-- A value that moves out keeps whether its home is stale. -/
  dirty : ∀ g, (st'.value g).dirty = (st.value g).dirty
  carries : ∀ hollow, (∀ g ∈ hollow, g ∈ pinned) → Carries st hollow ms st' hollow

theorem Claimed.of_free {st : State} (hv : st.Valid) {pinned : List GuestReg} {s : Slot}
    (h : st.holder? s = none) : Claimed st pinned s [] st where
  valid := hv
  free := free_of_holder? hv h
  stays := fun g _ => free_of_holder? hv h g
  same := fun _ _ => rfl
  dirty := fun _ => rfl
  carries := fun hollow _ => Carries.refl st hollow

theorem Claimed.evict {st : State} (hv : st.Valid) {pinned : List GuestReg} {s : Slot} {g : GuestReg}
    (hh : st.holder? s = some g) (hg : g ∉ pinned) :
    Claimed st pinned s (st.evict s).1 (st.evict s).2 := by
  have hp := place_of_holder? hh
  have other : ∀ x, (st.value x).place = .slot s → x = g := fun x hx => hv.distinct hx hp
  have stays : ∀ x ∈ pinned, (st.value x).place ≠ .slot s := by
    intro x hx e
    exact hg (other x e ▸ hx)
  -- Whether it goes to its spill slot or home, only its own entry changes.
  have entry : ∀ v : Value, (∀ k, v.place ≠ .slot k) →
      (∀ x, ((st.setValue g v).value x).place ≠ .slot s) ∧
      ∀ x, (st.value x).place ≠ .slot s → (st.setValue g v).value x = st.value x := by
    intro v hvp
    refine ⟨?_, ?_⟩
    · exact forall_setValue (P := fun _ w => w.place ≠ .slot s) (hvp s) fun x e hx => e (other x hx).symm
    · intro x hx
      have e : g ≠ x := by
        rintro rfl
        exact hx hp
      exact value_setValue_of_ne st v e
  have dirty : ∀ v : Value, v.dirty = (st.value g).dirty →
      ∀ x, ((st.setValue g v).value x).dirty = (st.value x).dirty := fun v hd =>
    forall_setValue (P := fun x w => w.dirty = (st.value x).dirty) hd fun _ _ => rfl
  have outside : ∀ hollow : List GuestReg, (∀ x ∈ hollow, x ∈ pinned) → g ∉ hollow :=
    fun hollow hs hm => hg (hs g hm)
  unfold State.evict
  rw [hh]
  dsimp only
  cases hd : (st.value g).dirty with
  | true =>
    obtain ⟨free, same⟩ := entry { place := .spill, dirty := true } (by simp)
    refine ⟨hv.setValue (ne_zero_of_slot hv hp) (by simp) (by simp), free, stays, same,
      dirty _ hd.symm, ?_⟩
    intro hollow hs
    refine Carries.single fun α file c t => ?_
    have e : c.slot s = file g := by
      have := t.current g (outside hollow hs)
      rwa [hp] at this
    refine ⟨e, ?_⟩
    refine (t.setSpill g).setValue (outside hollow hs) ?_ (by simp)
    simp [Copies.read, Copies.setSpill]
  | false =>
    obtain ⟨free, same⟩ := entry { place := .home, dirty := false } (by simp)
    refine ⟨hv.setValue (ne_zero_of_slot hv hp) (by simp) (by simp), free, stays, same,
      dirty _ hd.symm, ?_⟩
    intro hollow hs α file c t
    have home := t.clean g hd
    exact ⟨trivial, t.setValue (outside hollow hs) home fun _ => home⟩

theorem claim?_spec {st : State} (hv : st.Valid) {pinned : List GuestReg} (len : pinned.length ≤ 5)
    {g : GuestReg} (hg : g ∈ pinned) (out : ∀ s, (st.value g).place ≠ .slot s) :
    ∃ s ms st', st.claim? pinned = some (s, ms, st') ∧ Claimed st pinned s ms st' := by
  unfold claim?
  cases hf : Slot.all.find? (fun s => (st.holder? s).isNone) with
  | some s =>
    have hn := List.find?_some hf
    exact ⟨s, [], st, rfl, Claimed.of_free hv (by simpa using hn)⟩
  | none =>
    have full : ∀ s, (st.holder? s).isSome := by
      intro s
      have := List.find?_eq_none.mp hf s (mem_slots s)
      cases h : st.holder? s with
      | none => simp [h] at this
      | some x => rfl
    obtain ⟨s, hs⟩ := Option.isSome_iff_exists.mp (victim?_isSome len hg out full)
    obtain ⟨x, hx, hxp⟩ := victim?_holder hs
    refine ⟨s, (st.evict s).1, (st.evict s).2, ?_, Claimed.evict hv hx hxp⟩
    rw [hs]
    rfl

/-! ## Placing operands -/

/-- What putting some of an instruction's operands into host registers does. -/
structure Placement (u : Uses) (operands : List GuestReg) (st : State) (hollow : List GuestReg)
    (ms : List Move) (places : List (GuestReg × Slot)) (st' : State) (hollow' : List GuestReg) :
    Prop where
  valid : st'.Valid
  placed : ∀ p ∈ places, (st'.value p.1).place = .slot p.2
  /-- An operand that has a register keeps it. -/
  keeps : ∀ g ∈ operands, ∀ s, (st.value g).place = .slot s → (st'.value g).place = .slot s
  /-- Only operands that are not read are hollow. -/
  unread : ∀ g ∈ hollow', g ∈ operands ∧ g ∉ u.reads
  clean : ∀ g, (st.value g).dirty = false → (st'.value g).dirty = false
  /-- A value that is no operand can only move from a register to memory. -/
  live : ∀ g, g ∉ operands → st'.value g ≠ {} → st.value g ≠ {}
  carries : Carries st hollow ms st' hollow'

section

variable {u : Uses} {operands : List GuestReg} {st : State} {hollow : List GuestReg}

theorem Placement.nil (hv : st.Valid) (hh : ∀ g ∈ hollow, g ∈ operands ∧ g ∉ u.reads) :
    Placement u operands st hollow [] [] st hollow where
  valid := hv
  placed := by simp
  keeps := fun _ _ _ h => h
  unread := hh
  clean := fun _ h => h
  live := fun _ _ h => h
  carries := Carries.refl st hollow

theorem Placement.cons {st' st'' : State} {hollow' hollow'' : List GuestReg} {ms ms' : List Move}
    {p : GuestReg × Slot} {places : List (GuestReg × Slot)} (hp : p.1 ∈ operands)
    (h : Placement u operands st hollow ms [p] st' hollow')
    (h' : Placement u operands st' hollow' ms' places st'' hollow'') :
    Placement u operands st hollow (ms ++ ms') (p :: places) st'' hollow'' where
  valid := h'.valid
  placed := by
    intro q hq
    rcases List.mem_cons.mp hq with rfl | hq
    · exact h'.keeps q.1 hp q.2 (h.placed q List.mem_cons_self)
    · exact h'.placed q hq
  keeps := fun g hg s e => h'.keeps g hg s (h.keeps g hg s e)
  unread := h'.unread
  clean := fun g e => h'.clean g (h.clean g e)
  live := fun g hg e => h.live g hg (h'.live g hg e)
  carries := h.carries.trans h'.carries

theorem Placement.stay (hv : st.Valid) (hh : ∀ g ∈ hollow, g ∈ operands ∧ g ∉ u.reads) {g : GuestReg}
    {s : Slot} (hp : (st.value g).place = .slot s) (now : Nat) :
    Placement u operands st hollow [] [(g, s)] (st.touch now s) hollow where
  valid := hv.touch now s
  placed := by simpa using hp
  keeps := fun _ _ _ h => h
  unread := hh
  clean := fun _ h => h
  live := fun _ _ h => h
  carries := carries_touch st now s hollow

/-- An operand that gets the register claimed for it, with the moves that fetch it there. -/
theorem Placement.fetch {st' : State} {ms ms' : List Move} {g : GuestReg} {s : Slot}
    {hollow' : List GuestReg} {dirty : Bool} (now : Nat) (hg : g ∈ operands) (h0 : g ≠ .gpr 0)
    (out : ∀ k, (st.value g).place ≠ .slot k) (hc : Claimed st operands s ms st')
    (hs : ∀ x ∈ hollow, x ∈ operands)
    (hd : (st.value g).dirty = false → dirty = false)
    (hh : ∀ x ∈ hollow', x ∈ operands ∧ x ∉ u.reads)
    (carries : Carries st' hollow ms' (st'.setValue g { place := .slot s, dirty }) hollow') :
    Placement u operands st hollow (ms ++ ms') [(g, s)]
      ((st'.setValue g { place := .slot s, dirty }).touch now s) hollow' where
  valid := by
    apply Valid.touch
    refine hc.valid.setValue h0 ?_ (by simp)
    intro k x hk hx
    cases hk
    exact absurd hx (hc.free x)
  placed := by simp
  keeps := by
    refine forall_setValue (P := fun x w => x ∈ operands → ∀ k, (st.value x).place = .slot k → w.place = .slot k)
      (fun _ k hk => absurd hk (out k)) ?_
    intro x _ hx k hk
    rw [hc.same x (hc.stays x hx), hk]
  unread := hh
  clean := by
    refine forall_setValue (P := fun x w => (st.value x).dirty = false → w.dirty = false) hd ?_
    intro x _ hx
    rwa [hc.dirty x]
  live := by
    refine forall_setValue (P := fun x w => x ∉ operands → w ≠ {} → st.value x ≠ {})
      (fun out => absurd hg out) ?_
    intro x _ _ hl
    by_cases hp : (st.value x).place = .slot s
    · intro h
      rw [h] at hp
      cases hp
    · rwa [hc.same x hp] at hl
  carries := by
    have t := (hc.carries hollow hs).trans (carries.trans (carries_touch _ now s hollow'))
    simpa using t

/-! Fetching a value into a register that holds none: what it holds then, and what its home is. -/

theorem carries_fetch_read {g : GuestReg} {s : Slot} (free : ∀ x, (st.value x).place ≠ .slot s)
    (out : ∀ k, (st.value g).place ≠ .slot k) (hg : g ∉ hollow) :
    Carries st hollow (Plan.State.fetch (st.value g) g s true)
      (st.setValue g { place := .slot s, dirty := (st.value g).dirty }) hollow := by
  -- From home or from the spill slot, the register gets the value of the file.
  have arrive : ∀ m : Move, m.guest = g → m.source = (st.value g).place →
      (∀ ⦃α : Type⦄ (v : α) (c : Copies α), m.deliver v c = c.setSlot s v) →
      Carries st hollow [m] (st.setValue g { place := .slot s, dirty := (st.value g).dirty }) hollow := by
    intro m hm hsrc hdel
    refine Carries.single fun α file c t => ?_
    rw [hm, hsrc, hdel]
    refine ⟨t.current g hg, ?_⟩
    refine (t.setSlot free (file g)).setValue hg ?_ ?_
    · simp [Copies.read, Copies.setSlot]
    · exact fun hd => t.clean g hd
  unfold Plan.State.fetch
  cases hp : (st.value g).place with
  | home => exact arrive (.loadHome g s) rfl hp.symm (fun _ _ _ => rfl)
  | spill => exact arrive (.reload g s) rfl hp.symm (fun _ _ _ => rfl)
  | slot k => exact absurd hp (out k)

/-- A value that is to be overwritten unread: its home is current then, and its register is hollow. -/
theorem carries_fetch_unread (hv : st.Valid) {g : GuestReg} {s : Slot}
    (out : ∀ k, (st.value g).place ≠ .slot k) :
    Carries st hollow (Plan.State.fetch (st.value g) g s false)
      (st.setValue g { place := .slot s, dirty := false }) (g :: hollow) := by
  unfold Plan.State.fetch
  cases hp : (st.value g).place with
  | home =>
    intro α file c t
    exact ⟨trivial, t.setHollow rfl (t.clean g (hv.home_clean g hp))⟩
  | slot k => exact absurd hp (out k)
  | spill =>
    dsimp only
    split
    · next hd =>
      -- The spilled copy is the only one, so it goes home first.
      refine Carries.single fun α file c t => ?_
      have e : c.spill g = file g := by
        have := t.current g (t.not_hollow hd)
        rwa [hp] at this
      refine ⟨e, (t.setHome g).setHollow rfl ?_⟩
      simp [Copies.setHome]
    · next hd =>
      intro α file c t
      exact ⟨trivial, t.setHollow rfl (t.clean g (by simpa using hd))⟩

theorem Placement.place? (hv : st.Valid) (len : operands.length ≤ 5)
    (hh : ∀ g ∈ hollow, g ∈ operands ∧ g ∉ u.reads) {g : GuestReg} (hg : g ∈ operands)
    (h0 : g ≠ .gpr 0) (now : Nat) :
    ∃ ms s st' hollow', st.place? now u operands g = some (ms, s, st') ∧
      Placement u operands st hollow ms [(g, s)] st' hollow' := by
  by_cases hp : ∃ s, (st.value g).place = .slot s
  · obtain ⟨s, hs⟩ := hp
    refine ⟨[], s, st.touch now s, hollow, ?_, Placement.stay hv hh hs now⟩
    unfold State.place?
    rw [hs]
  · have out : ∀ k, (st.value g).place ≠ .slot k := fun k e => hp ⟨k, e⟩
    obtain ⟨s, ms, st', hcl, hc⟩ := claim?_spec hv len hg out
    have same : st'.value g = st.value g := hc.same g (out s)
    have out' : ∀ k, (st'.value g).place ≠ .slot k := by rw [same]; exact out
    have step : st.place? now u operands g =
        some (ms ++ Plan.State.fetch (st'.value g) g s (u.reads.contains g), s,
          (st'.setValue g
            { place := .slot s
              dirty := (st'.value g).dirty &&
                !((st.value g).place == .spill && !u.reads.contains g) }).touch now s) := by
      unfold State.place?
      cases hpl : (st.value g).place with
      | slot k => exact absurd hpl (out k)
      | home => rw [hcl]
      | spill => rw [hcl]
    have sub : ∀ x ∈ hollow, x ∈ operands := fun x hx => (hh x hx).1
    cases hr : u.reads.contains g with
    | true =>
      have hread : g ∈ u.reads := by simpa using hr
      have hgh : g ∉ hollow := fun hm => (hh g hm).2 hread
      rw [hr] at step
      refine ⟨_, s, _, hollow, step, ?_⟩
      refine Placement.fetch now hg h0 out hc sub ?_ hh ?_
      · intro hd
        rw [same, hd]
        rfl
      · simpa using carries_fetch_read hc.free out' hgh
    | false =>
      have hread : g ∉ u.reads := by simpa using hr
      rw [hr] at step
      have hd : ((st'.value g).dirty && !((st.value g).place == .spill && !false)) = false := by
        rw [same]
        cases hpl : (st.value g).place with
        | slot k => exact absurd hpl (out k)
        | home => rw [hv.home_clean g hpl]; rfl
        | spill => simp
      refine ⟨_, s, _, g :: hollow, step, ?_⟩
      refine Placement.fetch now hg h0 out hc sub (fun _ => hd) ?_ ?_
      · intro x hx
        rcases List.mem_cons.mp hx with rfl | hx
        · exact ⟨hg, hread⟩
        · exact hh x hx
      · rw [hd]
        exact carries_fetch_unread hc.valid out'

/-- All operands get registers. -/
theorem Placement.placeAll (hv : st.Valid) (len : operands.length ≤ 5)
    (hh : ∀ g ∈ hollow, g ∈ operands ∧ g ∉ u.reads) (now : Nat) (gs : List GuestReg)
    (hg : ∀ g ∈ gs, g ∈ operands) (h0 : ∀ g ∈ gs, g ≠ .gpr 0) :
    ∃ ms places st' hollow', st.placeAll now u operands gs = .ok (ms, places, st') ∧
      places.map Prod.fst = gs ∧ Placement u operands st hollow ms places st' hollow' := by
  induction gs generalizing st hollow with
  | nil => exact ⟨[], [], st, hollow, rfl, rfl, Placement.nil hv hh⟩
  | cons g gs ih =>
    obtain ⟨ms, s, st', hollow', e, p⟩ :=
      Placement.place? hv len hh (hg g List.mem_cons_self) (h0 g List.mem_cons_self) now
    obtain ⟨ms', places, st'', hollow'', e', hm, p'⟩ :=
      ih p.valid p.unread (fun x hx => hg x (List.mem_cons_of_mem g hx))
        (fun x hx => h0 x (List.mem_cons_of_mem g hx))
    refine ⟨ms ++ ms', (g, s) :: places, st'', hollow'', ?_, ?_, ?_⟩
    · rw [State.placeAll, e]
      dsimp only
      rw [e']
    · rw [List.map_cons, hm]
    · exact Placement.cons (hg g List.mem_cons_self) p p'

end

end EmotionEngine.Plan.State
