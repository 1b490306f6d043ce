import EmotionEngine.Proofs.Cache.Consistent

/-!
Using and removing blocks. These operations keep a cache consistent, bring in no block and move no code
(`Keeps`).

Main statements: `find_keeps`, `unpin_keeps`, `remove_keeps`, and `notice_heard`: a cache that has heard
of written pages holds no block decoded from one of them.
-/

namespace EmotionEngine.Cache

open Std (ExtTreeMap)

/-- Entries for the same block, with its code at the same place. -/
structure Entry.Same (e e' : Entry) : Prop where
  block : e.block = e'.block
  offset : e.offset = e'.offset
  size : e.size = e'.size

theorem Entry.Same.rfl {e : Entry} : e.Same e := ⟨.refl _, .refl _, .refl _⟩

theorem Entry.Same.trans {e e' e'' : Entry} (h : e.Same e') (h' : e'.Same e'') : e.Same e'' :=
  ⟨h.block.trans h'.block, h.offset.trans h'.offset, h.size.trans h'.size⟩

/-- `c'` is consistent and holds only blocks that `c` holds, under the same identities and with the same
code. -/
structure Keeps (c c' : Cache) : Prop where
  consistent : c'.Consistent
  cells : c'.arena.cells = c.arena.cells
  within : ∀ {id : BlockId} {e' : Entry}, c'.blocks[id]? = some e' →
    ∃ e : Entry, c.blocks[id]? = some e ∧ e.Same e'

theorem Keeps.refl {c : Cache} (h : c.Consistent) : Keeps c c := ⟨h, rfl, fun held => ⟨_, held, .rfl⟩⟩

theorem Keeps.trans {c c' c'' : Cache} (h : Keeps c c') (h' : Keeps c' c'') : Keeps c c'' := by
  refine ⟨h'.consistent, h'.cells.trans h.cells, ?_⟩
  intro id e'' held''
  obtain ⟨e', held', same'⟩ := h'.within held''
  obtain ⟨e, held, same⟩ := h.within held'
  exact ⟨e, held, same.trans same'⟩

theorem keeps_counts {c : Cache} (h : c.Consistent) (counts : Counts) : Keeps c { c with counts } :=
  ⟨⟨h.addr, h.page, h.once, h.use, h.past, h.fresh, h.apart, h.distinct, h.stock⟩, rfl,
    fun held => ⟨_, held, .rfl⟩⟩

theorem exists_update {m : ExtTreeMap Nat Entry} {id : BlockId} {e e' : Entry} (held : m[id]? = some e)
    (P : Entry → Prop) (same : P e' ↔ P e) (a : BlockId) :
    (∃ x : Entry, (m.insert id e')[a]? = some x ∧ P x) ↔ ∃ x : Entry, m[a]? = some x ∧ P x := by
  rw [getElem?_insert]
  by_cases h : a = id
  · subst h
    rw [if_pos rfl, held]
    simpa using same
  · rw [if_neg h]

/-- What holds of the new entry and of all the old ones holds of the table with the new entry. -/
theorem forall_update {m : ExtTreeMap Nat Entry} {id : BlockId} {e' : Entry} {P : BlockId → Entry → Prop}
    (new : P id e') (old : ∀ {a : BlockId} {x : Entry}, m[a]? = some x → P a x) {a : BlockId} {x : Entry}
    (held : (m.insert id e')[a]? = some x) : P a x := by
  rw [getElem?_insert] at held
  split at held
  · next same =>
    cases held
    rw [same]
    exact new
  · exact old held

/-! ## Indices

An index gives the block for a key that blocks have each for themselves: their start, or the time of
their last use. -/

theorem exists_erase {m : ExtTreeMap Nat Entry} {id : BlockId} (P : Entry → Prop) (a : BlockId) :
    (∃ x : Entry, (m.erase id)[a]? = some x ∧ P x) ↔ a ≠ id ∧ ∃ x : Entry, m[a]? = some x ∧ P x := by
  rw [getElem?_erase]
  by_cases h : a = id
  · simp [h]
  · simp [h]

theorem mem_of_erase {m : ExtTreeMap Nat Entry} {id a : BlockId} {x : Entry}
    (h : (m.erase id)[a]? = some x) : m[a]? = some x := by
  rw [getElem?_erase] at h
  split at h
  · cases h
  · exact h

section
variable {blocks : ExtTreeMap Nat Entry} {index : ExtTreeMap Nat BlockId} (key : Entry → Nat)
  {id : BlockId} (e : Entry)

theorem index_erase
    (agree : ∀ k a, index[k]? = some a ↔ ∃ x : Entry, blocks[a]? = some x ∧ key x = k)
    (held : blocks[id]? = some e) (k a : Nat) :
    (index.erase (key e))[k]? = some a ↔ ∃ x : Entry, (blocks.erase id)[a]? = some x ∧ key x = k := by
  have own : index[key e]? = some id := (agree _ id).2 ⟨e, held, rfl⟩
  rw [exists_erase (fun x => key x = k), ← agree, getElem?_erase]
  by_cases same : k = key e
  · rw [if_pos same, same, own]
    simp [eq_comm]
  · rw [if_neg same]
    constructor
    · intro found
      refine ⟨?_, found⟩
      rintro rfl
      obtain ⟨x, held', keyed⟩ := (agree k a).1 found
      rw [held] at held'
      cases held'
      exact same keyed.symm
    · exact And.right

theorem index_insert
    (agree : ∀ k a, index[k]? = some a ↔ ∃ x : Entry, blocks[a]? = some x ∧ key x = k)
    (new : blocks[id]? = none) (free : index[key e]? = none) (k a : Nat) :
    (index.insert (key e) id)[k]? = some a ↔
      ∃ x : Entry, (blocks.insert id e)[a]? = some x ∧ key x = k := by
  rw [getElem?_insert, getElem?_insert]
  by_cases own : a = id
  · subst own
    rw [if_pos rfl]
    by_cases same : k = key e
    · simp [same]
    · rw [if_neg same]
      constructor
      · intro found
        obtain ⟨x, held, -⟩ := (agree k a).1 found
        rw [new] at held
        cases held
      · rintro ⟨x, held, keyed⟩
        cases held
        exact absurd keyed.symm same
  · rw [if_neg own, ← agree]
    by_cases same : k = key e
    · rw [if_pos same, same, free]
      simp [Ne.symm own]
    · rw [if_neg same]

end

/-! ## Using blocks -/

section
variable {c : Cache} {id : BlockId} {e : Entry}

/-- A consistent cache finds an entry at every address that it has indexed. -/
theorem Consistent.held (h : c.Consistent) {pc : Nat} (found : c.byAddr[pc]? = some id) :
    ∃ e : Entry, c.blocks[id]? = some e ∧ e.block.start.toNat = pc :=
  (h.addr pc id).1 found

/-- Replacing an entry of a block by another for the same block and code, in step with the order of
use. -/
theorem Consistent.update (h : c.Consistent) (held : c.blocks[id]? = some e) {e' : Entry}
    (same : e.Same e') {tick : Nat}
    {byUse : ExtTreeMap Nat BlockId} (counts : Counts)
    (use : ∀ t a, byUse[t]? = some a ↔
      ∃ x : Entry, (c.blocks.insert id e')[a]? = some x ∧ x.lastUse = t)
    (last : e'.lastUse ≤ tick) (later : c.tick ≤ tick) :
    Keeps c { c with tick, blocks := c.blocks.insert id e', byUse, counts } := by
  refine ⟨⟨?_, ?_, h.once, use, ?_, ?_, ?_, ?_, h.stock.update held same.offset.symm same.size.symm⟩, rfl, ?_⟩
  · intro pc a
    exact (h.addr pc a).trans
      (exists_update held (fun x => x.block.start.toNat = pc) (by rw [same.block]) a).symm
  · intro p a
    exact (h.page p a).trans
      (exists_update held (fun x => p ∈ x.block.pageNumbers) (by rw [same.block]) a).symm
  · exact forall_update (P := fun _ x => x.lastUse ≤ tick) last (fun held' => Nat.le_trans (h.past held') later)
  · intro a ha
    obtain ⟨absent, retired⟩ := h.fresh ha
    refine ⟨?_, retired⟩
    dsimp only
    rw [getElem?_insert, if_neg, absent]
    rintro rfl
    rw [held] at absent
    cases absent
  · exact forall_update (P := fun a _ => c.retired[a]? = none) (h.apart held) h.apart
  · exact forall_update (P := fun _ x => x.block.pageNumbers.Nodup) 
      (by rw [← same.block]; exact h.distinct held) h.distinct
  · exact forall_update (P := fun a x => ∃ y : Entry, c.blocks[a]? = some y ∧ y.Same x)
      ⟨e, held, same⟩ (fun held' => ⟨_, held', .rfl⟩)

theorem Consistent.use_now (h : c.Consistent) (held : c.blocks[id]? = some e) {e' : Entry}
    (last : e'.lastUse = c.tick + 1) (t a : Nat) :
    ((c.byUse.erase e.lastUse).insert (c.tick + 1) id)[t]? = some a ↔
      ∃ x : Entry, (c.blocks.insert id e')[a]? = some x ∧ x.lastUse = t := by
  have erased := index_erase Entry.lastUse e h.use held
  have absent : (c.blocks.erase id)[id]? = none := by rw [getElem?_erase, if_pos rfl]
  -- Nothing was used at a time that has not come yet.
  have free : (c.byUse.erase e.lastUse)[e'.lastUse]? = none := by
    rw [last, Option.eq_none_iff_forall_ne_some]
    intro a found
    obtain ⟨x, held', use⟩ := (erased _ a).1 found
    have := h.past (mem_of_erase held')
    omega
  have inserted := index_insert Entry.lastUse e' erased absent free t a
  rw [last] at inserted
  rw [inserted, getElem?_insert, getElem?_insert, getElem?_erase]
  by_cases same : a = id
  · simp [same]
  · simp [same]

end

theorem find_keeps {c : Cache} (h : c.Consistent) (pc : Word) (pin : Bool) : Keeps c (c.find pc pin).2 := by
  unfold find
  split
  · exact keeps_counts h _
  · next id found =>
    obtain ⟨e, held, -⟩ := h.held found
    dsimp only
    rw [held]
    apply h.update held
    · exact ⟨rfl, rfl, rfl⟩
    · exact h.use_now held rfl
    · exact Nat.le_refl _
    · exact Nat.le_succ _

theorem find_some {c : Cache} (h : c.Consistent) {pc : Word} {pin : Bool} {handle : Handle}
    (found : (c.find pc pin).1 = some handle) :
    ∃ e : Entry, c.blocks[handle.id]? = some e ∧ e.block = handle.block ∧ handle.block.start = pc := by
  unfold find at found
  split at found
  · cases found
  · next id addr =>
    obtain ⟨e, held, start⟩ := h.held addr
    dsimp only at found
    rw [held] at found
    cases found
    exact ⟨e, held, rfl, BitVec.eq_of_toNat_eq start⟩

theorem find_held {c c' : Cache} {pc : Word} {pin : Bool} {handle : Handle}
    (found : c.find pc pin = (some handle, c')) :
    ∃ e : Entry, c'.blocks[handle.id]? = some e ∧ e.block = handle.block := by
  unfold find at found
  split at found
  · cases found
  · next id _ =>
    dsimp only at found
    split at found
    · cases found
    · cases found
      have now (e : Entry) : (c.blocks.insert id e)[id]? = some e := by rw [getElem?_insert, if_pos rfl]
      exact ⟨_, now _, rfl⟩

theorem Consistent.setAside {c : Cache} (h : c.Consistent) {retired : ExtTreeMap Nat Retired} {arena : Arena}
    (none : ∀ {a : BlockId}, c.retired[a]? = none → retired[a]? = none)
    (stock : Stocked arena c.blocks retired) (cells : arena.cells = c.arena.cells) :
    Keeps c { c with retired, arena } :=
  ⟨⟨h.addr, h.page, h.once, h.use, h.past, fun ha => ⟨(h.fresh ha).1, none (h.fresh ha).2⟩,
    fun held => none (h.apart held), h.distinct, stock⟩, cells, fun held => ⟨_, held, .rfl⟩⟩

theorem unpin_keeps {c : Cache} (h : c.Consistent) (id : BlockId) : Keeps c (c.unpin id) := by
  unfold unpin
  split
  · next e held =>
    apply h.update held
    · exact ⟨rfl, rfl, rfl⟩
    · intro t a
      rw [h.use]
      refine (exists_update held (fun x => x.lastUse = t) ?_ a).symm
      rfl
    · have last : e.lastUse ≤ c.tick := h.past held
      exact last
    · exact Nat.le_refl _
  · split
    · exact .refl h
    · next r retired =>
      split
      · -- The last pin gives the code back.
        apply h.setAside
        · intro a absent
          rw [getElem?_erase, absent, ite_self]
        · exact h.stock.unretire retired
        · rfl
      · apply h.setAside
        · intro a absent
          rw [getElem?_insert, if_neg, absent]
          rintro rfl
          rw [absent] at retired
          cases retired
        · exact h.stock.repin retired (fewer r.pins)
        · rfl

/-! ## The page index -/

theorem getD_insert (m : ExtTreeMap Nat (List BlockId)) (k a : Nat) (v : List BlockId) :
    (m.insert k v).getD a [] = if a = k then v else m.getD a [] := by
  rw [ExtTreeMap.getD_insert]
  simp only [Std.LawfulEqCmp.compare_eq_iff_eq, eq_comm (a := k)]

theorem getD_erase (m : ExtTreeMap Nat (List BlockId)) (k a : Nat) :
    (m.erase k).getD a [] = if a = k then [] else m.getD a [] := by
  rw [ExtTreeMap.getD_erase]
  simp only [Std.LawfulEqCmp.compare_eq_iff_eq, eq_comm (a := k)]

theorem getD_unlistPage (m : ExtTreeMap Nat (List BlockId)) (id : BlockId) (p q : Nat) :
    (unlistPage m id p).getD q [] = if q = p then (m.getD q []).filter (· ≠ id) else m.getD q [] := by
  unfold unlistPage
  by_cases same : q = p
  · subst same
    rw [if_pos rfl, ExtTreeMap.getD_eq_getD_getElem? (t := m)]
    cases found : m[q]? with
    | none =>
      dsimp only
      rw [ExtTreeMap.getD_eq_getD_getElem?, found]
      rfl
    | some ids =>
      dsimp only [Option.getD_some]
      split
      · next empty => rw [getD_erase, if_pos rfl, List.isEmpty_iff.1 empty]
      · rw [getD_insert, if_pos rfl]
  · rw [if_neg same]
    cases m[p]? with
    | none => rfl
    | some ids =>
      dsimp only
      split
      · rw [getD_erase, if_neg same]
      · rw [getD_insert, if_neg same]

theorem getD_unlist (id : BlockId) (ps : List Nat) (m : ExtTreeMap Nat (List BlockId)) (q : Nat) :
    (ps.foldl (fun m p => unlistPage m id p) m).getD q [] =
      if q ∈ ps then (m.getD q []).filter (· ≠ id) else m.getD q [] := by
  induction ps generalizing m with
  | nil => rfl
  | cons p ps ih =>
    rw [List.foldl_cons, ih, getD_unlistPage]
    by_cases same : q = p
    · simp [same]
    · simp [same]

/-- Listing a block under its pages, none of which comes twice. -/
theorem getD_list (id : BlockId) {ps : List PageSnapshot} (distinct : (ps.map PageSnapshot.page).Nodup)
    (m : ExtTreeMap Nat (List BlockId)) (q : Nat) :
    (ps.foldl (fun m p => m.insert p.page (m.getD p.page [] ++ [id])) m).getD q [] =
      if q ∈ ps.map PageSnapshot.page then m.getD q [] ++ [id] else m.getD q [] := by
  induction ps generalizing m with
  | nil => rfl
  | cons p ps ih =>
    rw [List.map_cons, List.nodup_cons] at distinct
    rw [List.foldl_cons, ih distinct.2, getD_insert, List.map_cons]
    by_cases same : q = p.page
    · rw [same, if_neg distinct.1, if_pos rfl, if_pos List.mem_cons_self]
    · simp [same]

theorem Consistent.listed {c : Cache} (h : c.Consistent) {id : BlockId} (new : c.blocks[id]? = none) {e : Entry}
    {pages : ExtTreeMap Nat (List BlockId)} {p : Nat}
    (lists : pages.getD p [] =
      if p ∈ e.block.pageNumbers then c.byPage.getD p [] ++ [id] else c.byPage.getD p []) :
    (pages.getD p []).Nodup ∧ ∀ a, a ∈ pages.getD p [] ↔
      ∃ x : Entry, (c.blocks.insert id e)[a]? = some x ∧ p ∈ x.block.pageNumbers := by
  -- The identity is new, so it was not listed before.
  have unlisted : id ∉ c.byPage.getD p [] := by
    rw [h.page]
    rintro ⟨x, held, -⟩
    rw [new] at held
    cases held
  rw [lists]
  constructor
  · split
    · rw [List.nodup_append]
      refine ⟨h.once p, List.nodup_singleton id, ?_⟩
      intro a mem a' mem' same
      rw [List.mem_singleton] at mem'
      rw [same, mem'] at mem
      exact unlisted mem
    · exact h.once p
  · intro a
    rw [getElem?_insert]
    by_cases own : a = id
    · subst own
      split
      · next covers => simpa using covers
      · next uncovered => simpa [uncovered] using unlisted
    · rw [if_neg own, ← h.page]
      split
      · simp [own]
      · rfl

/-- A page index where a block that is held no longer has been taken off the lists of its pages. -/
theorem Consistent.unlisted {c : Cache} (h : c.Consistent) {id : BlockId} {e : Entry}
    (held : c.blocks[id]? = some e) {pages : ExtTreeMap Nat (List BlockId)} {p : Nat}
    (unlists : pages.getD p [] =
      if p ∈ e.block.pageNumbers then (c.byPage.getD p []).filter (· ≠ id) else c.byPage.getD p []) :
    (pages.getD p []).Nodup ∧ ∀ a, a ∈ pages.getD p [] ↔
      ∃ x : Entry, (c.blocks.erase id)[a]? = some x ∧ p ∈ x.block.pageNumbers := by
  rw [unlists]
  constructor
  · split
    · exact (h.once p).filter _
    · exact h.once p
  · intro a
    rw [exists_erase (fun x => p ∈ x.block.pageNumbers), ← h.page]
    split
    · rw [List.mem_filter]
      simp [and_comm]
    · next uncovered =>
      refine ⟨fun listed => ⟨?_, listed⟩, And.right⟩
      rintro rfl
      obtain ⟨x, held', covers⟩ := (h.page p a).1 listed
      rw [held] at held'
      cases held'
      exact uncovered covers

/-! ## Removing blocks -/

/-- A consistent cache without one of its blocks, whatever becomes of the block's code. -/
theorem Consistent.without {c : Cache} (h : c.Consistent) {id : BlockId} {e : Entry}
    (held : c.blocks[id]? = some e) {retired : ExtTreeMap Nat Retired} {arena : Arena}
    (none : ∀ a : BlockId, a ≠ id → c.retired[a]? = none → retired[a]? = none)
    (stock : Stocked arena (c.blocks.erase id) retired) :
    Consistent { c with
      blocks := c.blocks.erase id
      byAddr := c.byAddr.erase e.block.start.toNat
      byPage := e.block.pageNumbers.foldl (fun m p => unlistPage m id p) c.byPage
      byUse := c.byUse.erase e.lastUse
      retired
      arena } := by
  have unlisted (p : Nat) := h.unlisted held (getD_unlist id e.block.pageNumbers c.byPage p)
  constructor
  case addr => exact index_erase (fun x => x.block.start.toNat) e h.addr held
  case page => exact fun p => (unlisted p).2
  case once => exact fun p => (unlisted p).1
  case use => exact index_erase Entry.lastUse e h.use held
  case past => exact fun held' => h.past (mem_of_erase held')
  case fresh =>
    intro a late
    obtain ⟨free, unretired⟩ := h.fresh late
    refine ⟨?_, none a ?_ unretired⟩
    · dsimp only
      rw [getElem?_erase, free, ite_self]
    · rintro rfl
      rw [free] at held
      cases held
  case apart =>
    intro a x held'
    refine none a ?_ (h.apart (mem_of_erase held'))
    rintro rfl
    dsimp only at held'
    rw [getElem?_erase, if_pos rfl] at held'
    cases held'
  case distinct => exact fun held' => h.distinct (mem_of_erase held')
  case stock => exact stock

theorem remove_blocks (c : Cache) (id : BlockId) : (c.remove id).blocks = c.blocks.erase id := by
  unfold remove
  split
  · next absent => rw [erase_of_none absent]
  · dsimp only
    split <;> rfl

theorem Consistent.remove {c : Cache} (h : c.Consistent) (id : BlockId) : (c.remove id).Consistent := by
  unfold Cache.remove
  split
  · exact h
  · next e held =>
    dsimp only
    rw [if_pos ((h.addr _ id).2 ⟨e, held, rfl⟩)]
    split
    · apply h.without held
      · intro a other absent
        rw [getElem?_insert, if_neg other, absent]
      · exact h.stock.retire held (h.apart held)
    · apply h.without held
      · exact fun _ _ absent => absent
      · exact h.stock.release held

theorem remove_cells (c : Cache) (id : BlockId) : (c.remove id).arena.cells = c.arena.cells := by
  unfold remove
  split
  · rfl
  · dsimp only
    split <;> rfl

theorem remove_keeps {c : Cache} (h : c.Consistent) (id : BlockId) : Keeps c (c.remove id) := by
  refine ⟨h.remove id, c.remove_cells id, ?_⟩
  intro a e' held
  rw [remove_blocks] at held
  exact ⟨e', mem_of_erase held, .rfl⟩

theorem removeAll_keeps {c : Cache} (h : c.Consistent) (ids : List BlockId) :
    Keeps c (ids.foldl Cache.remove c) := by
  induction ids generalizing c with
  | nil => exact .refl h
  | cons id ids ih => exact (remove_keeps h id).trans (ih (h.remove id))

theorem removeAll_blocks (ids : List BlockId) (c : Cache) (a : BlockId) :
    (ids.foldl Cache.remove c).blocks[a]? = if a ∈ ids then none else c.blocks[a]? := by
  induction ids generalizing c with
  | nil => simp
  | cons id ids ih =>
    rw [List.foldl_cons, ih, remove_blocks, getElem?_erase]
    by_cases same : a = id
    · simp [same]
    · simp [same]

theorem flush_keeps {c : Cache} (h : c.Consistent) : Keeps c c.flush := by
  have removed := removeAll_keeps h c.blocks.keys
  exact removed.trans (keeps_counts removed.consistent _)

theorem flush_blocks (c : Cache) (a : BlockId) : c.flush.blocks[a]? = none := by
  have removed := removeAll_blocks c.blocks.keys c a
  unfold flush invalidated
  dsimp only
  rw [removed]
  split
  · rfl
  · next absent =>
    rw [ExtTreeMap.mem_keys] at absent
    exact ExtTreeMap.getElem?_eq_none absent

theorem invalidatePage_keeps {c : Cache} (h : c.Consistent) (page : Nat) :
    Keeps c (c.invalidatePage page).2 := by
  have removed := removeAll_keeps h (c.byPage.getD page [])
  exact removed.trans (keeps_counts removed.consistent _)

theorem invalidatePage_blocks {c : Cache} (h : c.Consistent) (page : Nat) {a : BlockId} {e : Entry}
    (held : (c.invalidatePage page).2.blocks[a]? = some e) : page ∉ e.block.pageNumbers := by
  intro covers
  have removed := removeAll_blocks (c.byPage.getD page []) c a
  unfold invalidatePage invalidated at held
  dsimp only at held
  rw [held] at removed
  split at removed
  · cases removed
  · next unlisted => exact unlisted ((h.page page a).2 ⟨e, removed.symm, covers⟩)

/-- What is left when a cache has heard of events: blocks that it held before, and none of a page that
was written. -/
structure Heard (c : Cache) (told : List Event) (c' : Cache) : Prop extends Keeps c c' where
  rest : ∀ {p : Nat}, .codeWritten p ∈ told → ∀ {a : BlockId} {e : Entry}, c'.blocks[a]? = some e →
    p ∉ e.block.pageNumbers

/-- What the first event leaves, with what it makes sure of, and what the later events leave of that. -/
theorem Keeps.heard {c c' c'' : Cache} {event : Event} {told : List Event} (first : Keeps c c')
    (gone : ∀ {p : Nat}, event = .codeWritten p →
      ∀ {a : BlockId} {e : Entry}, c'.blocks[a]? = some e → p ∉ e.block.pageNumbers)
    (later : Heard c' told c'') : Heard c (event :: told) c'' := by
  refine { first.trans later.toKeeps with rest := ?_ }
  intro p heard a e held
  rcases List.mem_cons.1 heard with now | then'
  · obtain ⟨e', held', same⟩ := later.within held
    rw [← same.block]
    exact gone now.symm held'
  · exact later.rest then' held

theorem notice_heard {c : Cache} (h : c.Consistent) (told : Array Event) :
    Heard c told.toList (c.notice told) := by
  unfold notice
  rw [← Array.foldl_toList]
  generalize told.toList = told
  induction told generalizing c with
  | nil => exact { Keeps.refl h with rest := fun heard => absurd heard List.not_mem_nil }
  | cons event told ih =>
    rw [List.foldl_cons]
    cases event with
    | codeWritten page =>
      have first := invalidatePage_keeps h page
      refine first.heard ?_ (ih first.consistent)
      rintro p ⟨⟩
      exact invalidatePage_blocks h page
    | deviceRead device offset size =>
      exact (Keeps.refl h).heard (fun same => Event.noConfusion same) (ih h)
    | deviceWrite device offset size value =>
      exact (Keeps.refl h).heard (fun same => Event.noConfusion same) (ih h)

end EmotionEngine.Cache
