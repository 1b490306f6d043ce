import EmotionEngine.Memory.Access
import EmotionEngine.Memory.Map

/-!
The page table. A mapping stays as it was made, and every page has a frame of its own among those that
were handed out (`Sound`), so bytes stored on one page are never seen on another.
-/

namespace EmotionEngine

theorem pageOffset_lt (addr : Nat) : pageOffset addr < pageSize := Nat.mod_lt _ (by decide)

theorem Region.meets_of_covers {r : Region} {first count p : Nat} (h : r.covers p = true)
    (low : first ≤ p) (high : p < first + count) : r.meets first count = true := by
  simp only [Region.covers, Bool.and_eq_true, decide_eq_true_eq] at h
  simp only [Region.meets, Bool.and_eq_true, decide_eq_true_eq]
  omega

namespace Memory

/-- Every page has a frame of its own, among those handed out. -/
structure Sound (m : Memory) : Prop where
  below : ∀ {p e}, m.page? p = some e → e.frame < m.used
  own : ∀ {p q e f}, m.page? p = some e → m.page? q = some f → e.frame = f.frame → p = q

theorem sound_empty (size : Nat) (board : Board) : (empty size board).Sound := by
  constructor
  · intro p e h
    cases h
  · intro p q e f h
    cases h

theorem page?_congr {m m' : Memory} (regions : m'.regions = m.regions) (p : Nat) : m'.page? p = m.page? p := by
  unfold page?
  rw [regions]

theorem Sound.of_regions {m m' : Memory} (h : m.Sound) (regions : m'.regions = m.regions)
    (used : m'.used = m.used) : m'.Sound := by
  constructor
  · intro p e found
    rw [page?_congr regions] at found
    rw [used]
    exact h.below found
  · intro p q e f foundP foundQ
    rw [page?_congr regions] at foundP foundQ
    exact h.own foundP foundQ

/-! ## Stored bytes -/

theorem storeBytes_eq (m : Memory) (pos : Nat) (data : List Byte) :
    ∃ store, m.storeBytes pos data = { m with store } := by
  induction data generalizing m pos with
  | nil => exact ⟨m.store, rfl⟩
  | cons b rest ih => exact ih { m with store := m.store.insert pos b } (pos + 1)

@[simp] theorem storeBytes_regions (m : Memory) (pos : Nat) (data : List Byte) :
    (m.storeBytes pos data).regions = m.regions := by
  obtain ⟨store, e⟩ := m.storeBytes_eq pos data
  rw [e]

@[simp] theorem storeBytes_used (m : Memory) (pos : Nat) (data : List Byte) :
    (m.storeBytes pos data).used = m.used := by
  obtain ⟨store, e⟩ := m.storeBytes_eq pos data
  rw [e]

@[simp] theorem storeBytes_code (m : Memory) (pos : Nat) (data : List Byte) :
    (m.storeBytes pos data).code = m.code := by
  obtain ⟨store, e⟩ := m.storeBytes_eq pos data
  rw [e]

@[simp] theorem storeBytes_events (m : Memory) (pos : Nat) (data : List Byte) :
    (m.storeBytes pos data).events = m.events := by
  obtain ⟨store, e⟩ := m.storeBytes_eq pos data
  rw [e]

@[simp] theorem storeBytes_board (m : Memory) (pos : Nat) (data : List Byte) :
    (m.storeBytes pos data).board = m.board := by
  obtain ⟨store, e⟩ := m.storeBytes_eq pos data
  rw [e]

@[simp] theorem storeBytes_past (m : Memory) (pos : Nat) (data : List Byte) :
    (m.storeBytes pos data).past = m.past := by
  obtain ⟨store, e⟩ := m.storeBytes_eq pos data
  rw [e]

@[simp] theorem storeBytes_page? (m : Memory) (pos : Nat) (data : List Byte) (p : Nat) :
    (m.storeBytes pos data).page? p = m.page? p := page?_congr (m.storeBytes_regions pos data) p

theorem storeByte_storeBytes_of_outside {m : Memory} {pos q : Nat} {data : List Byte}
    (h : q < pos ∨ pos + data.length ≤ q) : (m.storeBytes pos data).storeByte q = m.storeByte q := by
  induction data generalizing m pos with
  | nil => rfl
  | cons b rest ih =>
    simp only [List.length_cons] at h
    rw [storeBytes, ih (by omega)]
    unfold storeByte
    rw [Std.ExtTreeMap.getD_insert, if_neg]
    rw [Std.LawfulEqCmp.compare_eq_iff_eq]
    omega

/-! ## Mapping -/

theorem page?_cons (m : Memory) (r : Region) (used p : Nat) :
    page? { m with used, regions := r :: m.regions } p =
      if r.covers p then some { frame := r.frame + (p - r.first), readOnly := r.readOnly }
      else m.page? p := by
  unfold page?
  rw [List.find?_cons]
  cases r.covers p <;> rfl

/-- A region that is accepted is made of whole pages of physical space, and none of them is mapped. -/
theorem checkRegion_ok {m : Memory} {base size : Nat} (h : m.checkRegion base size = .ok ()) :
    (0 < size ∧ base % pageSize = 0 ∧ size % pageSize = 0 ∧ base + size ≤ physSpace) ∧
      ∀ r ∈ m.regions, ¬ r.meets (base / pageSize) (size / pageSize) = true := by
  unfold checkRegion at h
  split at h
  · cases h
  · next good =>
    split at h
    · cases h
    · next unmet =>
      rw [Bool.or_eq_true, List.any_eq_true] at unmet
      exact ⟨by omega, fun r mem meets => unmet (.inl ⟨r, mem, meets⟩)⟩

/-- What a mapping changes: pages that had no frame get the next ones. -/
theorem mapFrames_ok {m m' : Memory} {base size frame : Nat} {readOnly : Bool}
    (h : m.mapFrames base size readOnly = .ok (frame, m')) :
    frame = m.used ∧ ∃ r : Region, r.frame = m.used ∧
      m' = { m with used := m.used + r.count, regions := r :: m.regions } ∧
      ∀ p, r.covers p = true → m.page? p = none := by
  unfold mapFrames at h
  split at h
  · cases h
  · next free =>
    dsimp only at h
    split at h
    · cases h
    · cases h
      refine ⟨rfl, { first := base / pageSize, count := size / pageSize, frame := m.used, readOnly },
        rfl, rfl, ?_⟩
      intro p covers
      -- A region that covered the page would meet the new one.
      unfold page?
      rw [Option.map_eq_none_iff, List.find?_eq_none]
      intro r mem covered
      simp only [Region.covers, Bool.and_eq_true, decide_eq_true_eq] at covers
      exact (checkRegion_ok free).2 r mem (Region.meets_of_covers covered covers.1 covers.2)

/-- The region of a mapping gives its pages frames that were not handed out before. -/
theorem frame_of_covers {r : Region} {used p : Nat} {e : PageEntry} (frame : r.frame = used)
    (h : some ({ frame := r.frame + (p - r.first), readOnly := r.readOnly } : PageEntry) = some e) :
    e.frame = used + (p - r.first) := by
  cases h
  rw [frame]

section
variable {m m' : Memory} {base size frame : Nat} {readOnly : Bool}

theorem mapFrames_stays (h : m.mapFrames base size readOnly = .ok (frame, m')) {p : Nat} {e : PageEntry}
    (found : m.page? p = some e) : m'.page? p = some e := by
  obtain ⟨-, r, -, rfl, free⟩ := mapFrames_ok h
  rw [page?_cons, if_neg, found]
  intro covers
  rw [free p covers] at found
  cases found

theorem mapFrames_sound (sound : m.Sound) (h : m.mapFrames base size readOnly = .ok (frame, m')) :
    m'.Sound := by
  obtain ⟨-, r, start, rfl, free⟩ := mapFrames_ok h
  have covered {p : Nat} (c : r.covers p = true) : r.first ≤ p ∧ p < r.first + r.count := by
    simpa only [Region.covers, Bool.and_eq_true, decide_eq_true_eq] using c
  constructor
  · intro p e found
    rw [page?_cons] at found
    split at found
    · next c =>
      have := frame_of_covers start found
      have := covered c
      dsimp only
      omega
    · have := sound.below found
      dsimp only
      omega
  · intro p q e f foundP foundQ same
    rw [page?_cons] at foundP foundQ
    split at foundP <;> split at foundQ
    · next cp cq =>
      have hp := frame_of_covers start foundP
      have hq := frame_of_covers start foundQ
      have := covered cp
      have := covered cq
      omega
    · have hp := frame_of_covers start foundP
      have hq := sound.below foundQ
      omega
    · have hp := sound.below foundP
      have hq := frame_of_covers start foundQ
      omega
    · exact sound.own foundP foundQ same

end

end Memory

end EmotionEngine
