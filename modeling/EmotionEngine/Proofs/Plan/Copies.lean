import EmotionEngine.Plan.Allocate
import Mathlib.Logic.Function.Basic

/-!
Copies of guest values, and what moves do to them. `Copies` says what every home, every spill slot and
every host register holds; a move copies one value from one place to another. The allocator's state says
where the current copy of each value should be, and `Tracks` is that this is so: given the register file
that plain execution would have, the place the allocator names holds the value of that file, and so does
every home that is not marked as stale.

Main statements: changing one place or one entry of the allocator's state keeps `Tracks` under the
obvious condition (`Tracks.setHome`, `Tracks.setSpill`, `Tracks.setSlot`, `Tracks.setValue`), and the
flush list of a state brings every home up to date (`Tracks.home_flush`).
-/

namespace EmotionEngine

open Host (Slot)
open Plan (Place Value State)

/-- What every place that can hold a guest value holds. -/
structure Copies (α : Type) where
  home : GuestReg → α
  spill : GuestReg → α
  slot : Slot → α

namespace Copies

variable {α : Type}

def read (c : Copies α) (g : GuestReg) : Place → α
  | .home => c.home g
  | .slot s => c.slot s
  | .spill => c.spill g

def setHome (c : Copies α) (g : GuestReg) (v : α) : Copies α :=
  { c with home := Function.update c.home g v }

def setSpill (c : Copies α) (g : GuestReg) (v : α) : Copies α :=
  { c with spill := Function.update c.spill g v }

def setSlot (c : Copies α) (s : Slot) (v : α) : Copies α :=
  { c with slot := Function.update c.slot s v }

end Copies

namespace Move

variable {α : Type}

def guest : Move → GuestReg
  | loadHome g _ | reload g _ | spill g _ | writeBack g _ | spillToHome g => g

def source : Move → Place
  | loadHome _ _ => .home
  | reload _ _ | spillToHome _ => .spill
  | spill _ s | writeBack _ s => .slot s

/-- Put a value where a move puts it. -/
def deliver (m : Move) (v : α) (c : Copies α) : Copies α :=
  match m with
  | loadHome _ s | reload _ s => c.setSlot s v
  | spill g _ => c.setSpill g v
  | writeBack g _ | spillToHome g => c.setHome g v

def run (m : Move) (c : Copies α) : Copies α := m.deliver (c.read m.guest m.source) c

end Move

namespace Copies

variable {α : Type}

def after (c : Copies α) (ms : List Move) : Copies α := ms.foldl (fun c m => m.run c) c

@[simp] theorem after_nil (c : Copies α) : c.after [] = c := rfl

@[simp] theorem after_cons (c : Copies α) (m : Move) (ms : List Move) :
    c.after (m :: ms) = (m.run c).after ms := rfl

theorem after_append (c : Copies α) (ms ms' : List Move) :
    c.after (ms ++ ms') = (c.after ms).after ms' := by
  simp [after]

end Copies

/-- Every move of a list copies the value that its guest register has in the file. -/
def Faithful {α : Type} (file : GuestReg → α) : List Move → Copies α → Prop
  | [], _ => True
  | m :: ms, c => c.read m.guest m.source = file m.guest ∧ Faithful file ms (m.run c)

theorem Faithful.append {α : Type} {file : GuestReg → α} {ms ms' : List Move} {c : Copies α}
    (h : Faithful file ms c) (h' : Faithful file ms' (c.after ms)) : Faithful file (ms ++ ms') c := by
  induction ms generalizing c with
  | nil => exact h'
  | cons m ms ih => exact ⟨h.1, ih h.2 h'⟩

/-- What holds of a new entry and of the entries of all other values holds of every entry. -/
theorem forall_setValue {st : State} {g : GuestReg} {v : Value} {P : GuestReg → Value → Prop} (changed : P g v)
    (others : ∀ x, g ≠ x → P x (st.value x)) (x : GuestReg) : P x ((st.setValue g v).value x) := by
  by_cases e : g = x
  · subst e
    rwa [State.value_setValue_self]
  · rw [State.value_setValue_of_ne st v e]
    exact others x e

/-- A value's current copy is where the allocator's state says, and every home that it does not mark as
stale is current too. The values of `hollow` have a host register to be written to, with nothing in it
yet; their homes are current. -/
structure Tracks {α : Type} (st : State) (hollow : List GuestReg) (file : GuestReg → α)
    (c : Copies α) : Prop where
  current : ∀ g, g ∉ hollow → c.read g (st.value g).place = file g
  clean : ∀ g, (st.value g).dirty = false → c.home g = file g
  hollow_clean : ∀ g ∈ hollow, (st.value g).dirty = false

namespace Tracks

variable {α : Type} {st : State} {hollow : List GuestReg} {file : GuestReg → α} {c : Copies α}

theorem not_hollow (h : Tracks st hollow file c) {g : GuestReg} (hd : (st.value g).dirty = true) :
    g ∉ hollow := by
  intro hg
  rw [h.hollow_clean g hg] at hd
  exact Bool.false_ne_true hd

/-- Putting the file's value at home is harmless. -/
theorem setHome (h : Tracks st hollow file c) (g : GuestReg) :
    Tracks st hollow file (c.setHome g (file g)) := by
  have home : ∀ x, c.home x = file x → (c.setHome g (file g)).home x = file x := by
    intro x hx
    by_cases e : x = g
    · subst e
      simp [Copies.setHome]
    · simp [Copies.setHome, e, hx]
  refine ⟨?_, fun x hx => home x (h.clean x hx), h.hollow_clean⟩
  intro x hx
  have hc := h.current x hx
  cases hp : (st.value x).place with
  | home => rw [hp] at hc; exact home x hc
  | slot s => rw [hp] at hc; exact hc
  | spill => rw [hp] at hc; exact hc

theorem changeHome (h : Tracks st hollow file c) {g : GuestReg} (atHome : (st.value g).place = .home) (v : α) :
    Tracks st hollow (Function.update file g v) (c.setHome g v) := by
  have home : ∀ x, c.home x = file x → (c.setHome g v).home x = Function.update file g v x := by
    intro x hx
    show Function.update c.home g v x = _
    rw [Function.update_apply, Function.update_apply, hx]
  refine ⟨?_, fun x hx => home x (h.clean x hx), h.hollow_clean⟩
  intro x hx
  have hc := h.current x hx
  by_cases e : x = g
  · subst e
    rw [atHome] at hc ⊢
    exact home x hc
  · rw [Function.update_of_ne e, ← hc]
    cases (st.value x).place with
    | home => exact Function.update_of_ne e _ _
    | slot | spill => rfl

/-- Putting the file's value into a spill slot is harmless. -/
theorem setSpill (h : Tracks st hollow file c) (g : GuestReg) :
    Tracks st hollow file (c.setSpill g (file g)) := by
  refine ⟨?_, h.clean, h.hollow_clean⟩
  intro x hx
  have hc := h.current x hx
  cases hp : (st.value x).place with
  | home => rw [hp] at hc; exact hc
  | slot s => rw [hp] at hc; exact hc
  | spill =>
    rw [hp] at hc
    by_cases e : x = g
    · subst e
      simp [Copies.read, Copies.setSpill]
    · simpa [Copies.read, Copies.setSpill, e] using hc

/-- A host register that holds no value may take anything. -/
theorem setSlot (h : Tracks st hollow file c) {s : Slot} (free : ∀ g, (st.value g).place ≠ .slot s)
    (v : α) : Tracks st hollow file (c.setSlot s v) := by
  refine ⟨?_, h.clean, h.hollow_clean⟩
  intro x hx
  have hc := h.current x hx
  cases hp : (st.value x).place with
  | home => rw [hp] at hc; exact hc
  | spill => rw [hp] at hc; exact hc
  | slot k =>
    rw [hp] at hc
    have e : k ≠ s := by
      rintro rfl
      exact free x hp
    simpa [Copies.read, Copies.setSlot, e] using hc

/-- What the state says of a value may change to what is true of its copies. -/
theorem setValue (h : Tracks st hollow file c) {g : GuestReg} {v : Value} (hg : g ∉ hollow)
    (current : c.read g v.place = file g) (clean : v.dirty = false → c.home g = file g) :
    Tracks (st.setValue g v) hollow file c := by
  refine ⟨?_, ?_, ?_⟩
  · exact forall_setValue (P := fun x w => x ∉ hollow → c.read x w.place = file x) (fun _ => current)
      fun x _ => h.current x
  · exact forall_setValue (P := fun x w => w.dirty = false → c.home x = file x) clean fun x _ => h.clean x
  · exact forall_setValue (P := fun x w => x ∈ hollow → w.dirty = false) (fun mem => absurd mem hg)
      fun x _ => h.hollow_clean x

/-- A value whose home is current may get an empty host register. -/
theorem setHollow (h : Tracks st hollow file c) {g : GuestReg} {v : Value} (dirty : v.dirty = false)
    (home : c.home g = file g) : Tracks (st.setValue g v) (g :: hollow) file c := by
  refine ⟨?_, ?_, ?_⟩
  · exact forall_setValue (P := fun x w => x ∉ g :: hollow → c.read x w.place = file x)
      (fun out => absurd List.mem_cons_self out) fun x _ out => h.current x (List.not_mem_of_not_mem_cons out)
  · exact forall_setValue (P := fun x w => w.dirty = false → c.home x = file x) (fun _ => home)
      fun x _ => h.clean x
  · exact forall_setValue (P := fun x w => x ∈ g :: hollow → w.dirty = false) (fun _ => dirty)
      fun x other mem => h.hollow_clean x (List.mem_of_ne_of_mem other.symm mem)

end Tracks

/-! ## Lists of moves between two states -/

/-- From any copies that one state tracks, the moves copy values of the file only and lead to copies
that another state tracks. -/
def Carries (st : State) (hollow : List GuestReg) (ms : List Move) (st' : State)
    (hollow' : List GuestReg) : Prop :=
  ∀ ⦃α : Type⦄ (file : GuestReg → α) (c : Copies α), Tracks st hollow file c →
    Faithful file ms c ∧ Tracks st' hollow' file (c.after ms)

namespace Carries

variable {st st' st'' : State} {hollow hollow' hollow'' : List GuestReg} {ms ms' : List Move}

theorem refl (st : State) (hollow : List GuestReg) : Carries st hollow [] st hollow :=
  fun _ _ _ h => ⟨trivial, h⟩

theorem trans (h : Carries st hollow ms st' hollow') (h' : Carries st' hollow' ms' st'' hollow'') :
    Carries st hollow (ms ++ ms') st'' hollow'' := by
  intro α file c hc
  obtain ⟨f, t⟩ := h file c hc
  obtain ⟨f', t'⟩ := h' file _ t
  refine ⟨f.append f', ?_⟩
  rw [Copies.after_append]
  exact t'

theorem single {m : Move}
    (h : ∀ ⦃α : Type⦄ (file : GuestReg → α) (c : Copies α), Tracks st hollow file c →
      c.read m.guest m.source = file m.guest ∧
        Tracks st' hollow' file (m.deliver (file m.guest) c)) :
    Carries st hollow [m] st' hollow' := by
  intro α file c hc
  obtain ⟨e, t⟩ := h file c hc
  refine ⟨⟨e, trivial⟩, ?_⟩
  rw [Copies.after_cons, Copies.after_nil, Move.run, e]
  exact t

end Carries

/-! ## Flushing -/

namespace Plan.State

/-- The move that brings the home of a value up to date, if it is stale. -/
def flushMove (st : State) (g : GuestReg) : Option Move :=
  match st.value g with
  | { place := .slot s, dirty := true } => some (.writeBack g s)
  | { place := .spill, dirty := true } => some (.spillToHome g)
  | _ => none

theorem flush_eq (st : State) : st.flush = GuestReg.all.filterMap st.flushMove := rfl

/-- What holds of the state of the allocator at all times. -/
structure Valid (st : State) : Prop where
  /-- A host register holds one value. -/
  distinct : ∀ {g h : GuestReg} {s : Slot},
    (st.value g).place = .slot s → (st.value h).place = .slot s → g = h
  /-- A value that has only its home has a current home. -/
  home_clean : ∀ g, (st.value g).place = .home → (st.value g).dirty = false
  /-- Register 0 is never moved. -/
  zero : st.value (.gpr 0) = {}

theorem Valid.start : Valid start where
  distinct := by simp
  home_clean := by simp
  zero := by simp

end Plan.State

theorem GuestReg.mem_all {g : GuestReg} (h : g ≠ .gpr 0) : g ∈ GuestReg.all := by
  cases g with
  | gpr n =>
    have hn : n ≠ 0 := fun e => h (e ▸ rfl)
    revert n
    decide
  | hi => decide
  | lo => decide

namespace Tracks

variable {α : Type} {st : State} {hollow : List GuestReg} {file : GuestReg → α} {c : Copies α}

/-- The move of a value whose home is stale copies the value of the file. -/
theorem flushMove (h : Tracks st hollow file c) {g : GuestReg} {m : Move}
    (hm : st.flushMove g = some m) :
    c.read m.guest m.source = file m.guest ∧ m.run c = c.setHome g (file g) := by
  have stale : ∀ p, st.value g = { place := p, dirty := true } → c.read g p = file g := by
    intro p hp
    have hd : (st.value g).dirty = true := by rw [hp]
    have hc := h.current g (h.not_hollow hd)
    rwa [hp] at hc
  unfold State.flushMove at hm
  split at hm
  · next s hv =>
    cases hm
    have e := stale (.slot s) hv
    exact ⟨e, by rw [Move.run]; exact congrArg (c.setHome g) e⟩
  · next hv =>
    cases hm
    have e := stale .spill hv
    exact ⟨e, by rw [Move.run]; exact congrArg (c.setHome g) e⟩
  · cases hm

/-- Flushing some values keeps what is tracked, leaves the homes of others alone and makes theirs
current. -/
theorem flush_list (h : Tracks st hollow file c) (hv : st.Valid) (gs : List GuestReg) :
    Faithful file (gs.filterMap st.flushMove) c ∧
    Tracks st hollow file (c.after (gs.filterMap st.flushMove)) ∧
    (∀ g, c.home g = file g → (c.after (gs.filterMap st.flushMove)).home g = file g) ∧
    ∀ g ∈ gs, (c.after (gs.filterMap st.flushMove)).home g = file g := by
  induction gs generalizing c with
  | nil => exact ⟨trivial, h, fun _ e => e, fun _ hg => absurd hg (by simp)⟩
  | cons x gs ih =>
    cases hm : st.flushMove x with
    | none =>
      rw [List.filterMap_cons_none hm]
      obtain ⟨f, t, keep, all⟩ := ih h
      refine ⟨f, t, keep, ?_⟩
      intro g hg
      rcases List.mem_cons.mp hg with rfl | hg
      · -- A value without a move is not stale.
        apply keep
        cases hd : (st.value g).dirty with
        | false => exact h.clean g hd
        | true =>
          exfalso
          unfold State.flushMove at hm
          cases hp : (st.value g).place with
          | home => rw [hv.home_clean g hp] at hd; cases hd
          | slot s =>
            rw [show st.value g = { place := .slot s, dirty := true } by rw [← hp, ← hd]] at hm
            cases hm
          | spill =>
            rw [show st.value g = { place := .spill, dirty := true } by rw [← hp, ← hd]] at hm
            cases hm
      · exact all g hg
    | some m =>
      rw [List.filterMap_cons_some hm]
      obtain ⟨e, r⟩ := h.flushMove hm
      rw [Copies.after_cons, r]
      obtain ⟨f, t, keep, all⟩ := ih (h.setHome x)
      have home : ∀ g, c.home g = file g → (c.setHome x (file x)).home g = file g := by
        intro g hg
        by_cases eg : g = x
        · subst eg
          simp [Copies.setHome]
        · simp [Copies.setHome, eg, hg]
      refine ⟨⟨e, by rw [r]; exact f⟩, t, fun g hg => keep g (home g hg), ?_⟩
      intro g hg
      rcases List.mem_cons.mp hg with rfl | hg
      · exact keep g (by simp [Copies.setHome])
      · exact all g hg

theorem faithful_flush (h : Tracks st hollow file c) (hv : st.Valid) : Faithful file st.flush c := by
  rw [State.flush_eq]
  exact (h.flush_list hv _).1

/-- After a flush every home holds the value of the file. -/
theorem home_flush (h : Tracks st hollow file c) (hv : st.Valid) (g : GuestReg) :
    (c.after st.flush).home g = file g := by
  rw [State.flush_eq]
  obtain ⟨_, _, keep, all⟩ := h.flush_list hv GuestReg.all
  by_cases hg : g = .gpr 0
  · subst hg
    apply keep
    exact h.clean _ (by rw [hv.zero])
  · exact all g (GuestReg.mem_all hg)

end Tracks

end EmotionEngine
