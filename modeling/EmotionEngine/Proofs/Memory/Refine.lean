import EmotionEngine.Proofs.Memory.Contents
import EmotionEngine.Proofs.Memory.Flat

/-!
A paged memory behaves as the flat one that it stands for. The view of a memory (`flat`) forgets frames,
marks and versions; each call on the memory gives the answer of the flat call and leaves its view. What
makes this work is that pages have frames of their own, that frames not handed out are still zero, and
that devices keep off the pages of RAM and ROM (`Laid`). The devices may be any: they see the same bytes of both,
and so they store the same to both (`call_flat`).

Main statement: `session_flat`, for any calls in any order, failing ones among them.
-/

namespace EmotionEngine.Memory

/-- A memory without its pages. -/
def flat (m : Memory) : Flat :=
  { cell := fun a => (m.page? (pageOf a)).map fun e =>
      { byte := m.storeByte (e.position (pageOffset a)), readOnly := e.readOnly }
    device := m.device?
    board := m.board
    past := m.past
    spare := m.available }

/-- What all calls keep. -/
structure Laid (m : Memory) : Prop where
  sound : m.Sound
  regions : ∀ r ∈ m.regions, 0 < r.count
  devices : ∀ d ∈ m.devices, 0 < d.size
  /-- No byte of a device is on a page of RAM or ROM. -/
  apart : ∀ {a}, (m.device? a).isSome = true → m.page? (pageOf a) = none
  /-- Frames that are not handed out are zero. -/
  blank : ∀ pos, m.used * pageSize ≤ pos → m.storeByte pos = 0

theorem laid_empty (size : Nat) (board : Board) : (empty size board).Laid where
  sound := sound_empty size board
  regions := by simp [empty]
  devices := by simp [empty]
  apart _ := rfl
  blank _ _ := by simp [storeByte, empty]

/-! ## Addresses -/

theorem virtToPhys_succ {vaddr : Word} (inside : pageOffset (virtToPhys vaddr) + 1 < pageSize) :
    virtToPhys (vaddr + 1) = virtToPhys vaddr + 1 := by
  unfold pageOffset virtToPhys at *
  rw [show pageSize = 4096 from rfl, show physSpace = 536870912 from rfl] at *
  have next : (vaddr + 1).toNat = (vaddr.toNat + 1) % 4294967296 := by
    rw [BitVec.toNat_add]
    rfl
  have := vaddr.isLt
  omega

theorem next_inPage {vaddr : Word} {n : Nat}
    (inside : pageOffset (virtToPhys vaddr) + (n + 1) ≤ pageSize) (more : 0 < n) :
    pageOf (virtToPhys (vaddr + 1)) = pageOf (virtToPhys vaddr) ∧
      pageOffset (virtToPhys (vaddr + 1)) = pageOffset (virtToPhys vaddr) + 1 := by
  rw [virtToPhys_succ (by omega)]
  unfold pageOf pageOffset at *
  rw [show pageSize = 4096 from rfl] at *
  omega

theorem position_succ (e : PageEntry) (offset : Nat) : e.position offset + 1 = e.position (offset + 1) :=
  Nat.add_assoc ..

theorem page_inj {a b : Nat} (page : pageOf a = pageOf b) (offset : pageOffset a = pageOffset b) :
    a = b := by
  unfold pageOf pageOffset at *
  rw [← Nat.div_add_mod a pageSize, ← Nat.div_add_mod b pageSize, page, offset]

/-! ## What does not show -/

theorem flat_congr {m m' : Memory} (frames : m'.frames = m.frames) (used : m'.used = m.used)
    (regions : m'.regions = m.regions) (devices : m'.devices = m.devices) (board : m'.board = m.board)
    (past : m'.past = m.past) (store : m'.store = m.store) : m'.flat = m.flat := by
  unfold flat page? storeByte device? available
  rw [frames, used, regions, devices, board, past, store]

theorem Laid.congr {m m' : Memory} (h : m.Laid) (used : m'.used = m.used)
    (regions : m'.regions = m.regions) (devices : m'.devices = m.devices)
    (store : m'.store = m.store) : m'.Laid where
  sound := h.sound.of_regions regions used
  regions := by
    rw [regions]
    exact h.regions
  devices := by
    rw [devices]
    exact h.devices
  apart := by
    unfold device? page?
    rw [devices, regions]
    exact h.apart
  blank := by
    unfold storeByte
    rw [used, store]
    exact h.blank

/-- What became of a memory shows as before. -/
structure Silent (m m' : Memory) : Prop where
  flat : m'.flat = m.flat
  laid : m.Laid → m'.Laid

namespace Silent

theorem refl (m : Memory) : Silent m m := ⟨rfl, id⟩

theorem of_layout {m m' : Memory} (frames : m'.frames = m.frames) (used : m'.used = m.used)
    (regions : m'.regions = m.regions) (devices : m'.devices = m.devices) (board : m'.board = m.board)
    (past : m'.past = m.past) (store : m'.store = m.store) : Silent m m' :=
  ⟨flat_congr frames used regions devices board past store, fun h => h.congr used regions devices store⟩

theorem invalidateCode (m : Memory) (page : Nat) : Silent m (m.invalidateCode page) :=
  of_layout rfl rfl rfl rfl rfl rfl rfl

theorem markCode (m : Memory) (page : Nat) : Silent m (m.markCode page).2 := by
  unfold Memory.markCode
  split
  · exact .refl m
  · exact of_layout rfl rfl rfl rfl rfl rfl rfl

end Silent

/-- What a call gives and leaves shows as what the flat call gives and leaves. -/
structure Shows {α : Type} (r : α × Memory) (s : α × Flat) : Prop where
  eq : s = (r.1, r.2.flat)
  laid : r.2.Laid

theorem Shows.silent {α : Type} {a : α} {m m' : Memory} (laid : m.Laid) (h : Silent m m') :
    Shows (a, m') (a, m.flat) :=
  ⟨by rw [h.flat], h.laid laid⟩

theorem Shows.map {α β : Type} {r : α × Memory} {s : α × Flat} (h : Shows r s) (f : α → β) :
    Shows (f r.1, r.2) (f s.1, s.2) :=
  ⟨by rw [h.eq], h.laid⟩

/-! ## Writing -/

theorem storeByte_insert (m : Memory) (pos q : Nat) (b : Byte) :
    storeByte { m with store := m.store.insert pos b } q = if q = pos then b else m.storeByte q := by
  unfold storeByte
  rw [Std.ExtTreeMap.getD_insert]
  by_cases h : q = pos
  · rw [if_pos h, if_pos (by rw [Std.LawfulEqCmp.compare_eq_iff_eq]; exact h.symm)]
  · rw [if_neg h, if_neg (by rw [Std.LawfulEqCmp.compare_eq_iff_eq]; exact Ne.symm h)]

section
variable {m : Memory} {e : PageEntry} {paddr : Nat}

theorem flat_insert (sound : m.Sound) (found : m.page? (pageOf paddr) = some e) (b : Byte) :
    flat { m with store := m.store.insert (e.position (pageOffset paddr)) b } = m.flat.set paddr b := by
  refine Flat.ext ?_ rfl rfl rfl rfl
  funext a
  show ((m.page? (pageOf a)).map _) = if a = paddr then _ else _
  dsimp only [flat]
  cases other : m.page? (pageOf a) with
  | none => simp
  | some e' =>
    simp only [Option.map_some, storeByte_insert]
    by_cases same : a = paddr
    · subst same
      cases found.symm.trans other
      simp
    · -- Another address has another frame, or another place in the frame.
      have apart : e'.position (pageOffset a) ≠ e.position (pageOffset paddr) := by
        intro meet
        have := pageOffset_lt a
        have := pageOffset_lt paddr
        unfold PageEntry.position at meet
        have frame : e'.frame = e.frame := by
          rw [show pageSize = 4096 from rfl] at *
          omega
        have offset : pageOffset a = pageOffset paddr := by
          rw [frame] at meet
          omega
        exact same (page_inj (sound.own other found frame) offset)
      rw [if_neg apart, if_neg same]

theorem Laid.insert (h : m.Laid) (found : m.page? (pageOf paddr) = some e) (b : Byte) :
    Laid { m with store := m.store.insert (e.position (pageOffset paddr)) b } where
  sound := h.sound.of_regions rfl rfl
  regions := h.regions
  devices := h.devices
  apart := h.apart
  blank pos beyond := by
    have below := h.sound.below found
    have := pageOffset_lt paddr
    rw [storeByte_insert, if_neg]
    · exact h.blank pos beyond
    · unfold PageEntry.position
      rw [show pageSize = 4096 from rfl] at *
      dsimp only at beyond
      omega

end

/-- A write without what it tells of code. -/
def plain (r : Except MemError WriteEffect × Memory) : Except MemError Unit × Memory :=
  (r.1.map fun _ => (), r.2)

theorem storeBytes_put {m : Memory} (laid : m.Laid) {e : PageEntry} {vaddr : Word} {data : List Byte}
    (found : m.page? (pageOf (virtToPhys vaddr)) = some e)
    (inside : pageOffset (virtToPhys vaddr) + data.length ≤ pageSize) :
    m.flat.put vaddr data = (m.storeBytes (e.position (pageOffset (virtToPhys vaddr))) data).flat ∧
      (m.storeBytes (e.position (pageOffset (virtToPhys vaddr))) data).Laid := by
  induction data generalizing m vaddr with
  | nil => exact ⟨rfl, laid⟩
  | cons b rest ih =>
    rw [storeBytes, Flat.put, ← flat_insert laid.sound found]
    have laid' := laid.insert found b
    cases rest with
    | nil => exact ⟨rfl, laid'⟩
    | cons b' rest =>
      obtain ⟨page, offset⟩ := next_inPage inside (by simp)
      rw [position_succ, ← offset]
      apply ih laid'
      · rw [page]
        exact found
      · rw [offset]
        simp only [List.length_cons] at inside ⊢
        omega

/-- Where the page can be written, none of its bytes is refused. -/
theorem store_eq_put {m : Memory} (laid : m.Laid) {e : PageEntry} {vaddr : Word} {data : List Byte}
    (found : m.page? (pageOf (virtToPhys vaddr)) = some e) (writable : e.readOnly = false)
    (inside : pageOffset (virtToPhys vaddr) + data.length ≤ pageSize) :
    m.flat.store vaddr data = (.ok (), m.flat.put vaddr data) := by
  induction data generalizing m vaddr with
  | nil => rfl
  | cons b rest ih =>
    have accepted : m.flat.refusal vaddr = none := by simp [Flat.refusal, flat, found, writable]
    have set : m.flat.accept vaddr b = m.flat.set (virtToPhys vaddr) b := by
      unfold Flat.accept
      simp [flat, found]
    rw [Flat.store, accepted, Flat.put, set, ← flat_insert laid.sound found]
    cases rest with
    | nil => rfl
    | cons b' rest =>
      obtain ⟨page, offset⟩ := next_inPage inside (by simp)
      apply ih (laid.insert found b)
      · rw [page]
        exact found
      · rw [offset]
        simp only [List.length_cons] at inside ⊢
        omega

theorem writePage_flat {m : Memory} (laid : m.Laid) {e : PageEntry} {vaddr : Word} {data : List Byte}
    (found : m.page? (pageOf (virtToPhys vaddr)) = some e) (nonempty : data ≠ [])
    (inside : pageOffset (virtToPhys vaddr) + data.length ≤ pageSize) :
    Shows (plain (m.writePage e vaddr data)) (m.flat.store vaddr data) := by
  cases writable : e.readOnly with
  | true =>
    obtain ⟨b, rest, rfl⟩ := List.exists_cons_of_ne_nil nonempty
    have refused : m.flat.refusal vaddr = some (.readOnly vaddr) := by
      simp [Flat.refusal, flat, found, writable]
    rw [writePage_locked writable, Flat.store, refused]
    exact ⟨rfl, laid⟩
  | false =>
    obtain ⟨stored, laid'⟩ := storeBytes_put laid found inside
    rw [store_eq_put laid found writable inside, stored]
    unfold writePage
    rw [if_neg (by rw [writable]; exact Bool.false_ne_true)]
    dsimp only
    split
    · exact .silent laid' (.invalidateCode _ _)
    · exact .silent laid' (.refl _)

/-! ## Devices -/

theorem deposit_flat {m : Memory} (laid : m.Laid) (d : Deposit) :
    m.flat.deposit d = (m.deposit d).flat ∧ (m.deposit d).Laid := by
  unfold deposit Flat.deposit Deposit.page
  cases found : m.page? (pageOf (virtToPhys d.vaddr)) with
  | none =>
    rw [show m.flat.cell (virtToPhys d.vaddr) = none by simp [flat, found]]
    exact ⟨rfl, laid⟩
  | some e =>
    have written := writePage_flat laid found d.nonempty d.inside
    obtain ⟨c, cell, locked⟩ : ∃ c, m.flat.cell (virtToPhys d.vaddr) = some c ∧ c.readOnly = e.readOnly := by
      simp [flat, found]
    rw [cell]
    dsimp only
    rw [locked]
    cases writable : e.readOnly with
    | true =>
      rw [writePage_locked writable]
      exact ⟨rfl, laid⟩
    | false =>
      rw [store_eq_put laid found writable d.inside] at written
      exact ⟨congrArg Prod.snd written.eq, written.laid⟩

theorem foldl_deposit_flat {m : Memory} (laid : m.Laid) (stores : List Deposit) :
    stores.foldl Flat.deposit m.flat = (stores.foldl deposit m).flat ∧ (stores.foldl deposit m).Laid := by
  induction stores generalizing m with
  | nil => exact ⟨rfl, laid⟩
  | cons d rest ih =>
    obtain ⟨first, laid'⟩ := deposit_flat laid d
    rw [List.foldl_cons, List.foldl_cons, first]
    exact ih laid'

theorem moment_flat (m : Memory) (c : Call) : m.flat.moment c = m.moment c := by
  refine congrArg (Moment.mk c) (funext fun a => ?_)
  unfold byte? flat
  rw [Option.map_map]
  rfl

/-- A device sees the same bytes of both, and stores the same to both. -/
theorem call_flat {m : Memory} (laid : m.Laid) (c : Call) : Shows (m.call c) (m.flat.call c) := by
  have reply : m.flat.reply c = m.reply c := congrArg (m.board.reply m.past) (m.moment_flat c)
  have called : m.flat.called c = (m.called c).flat :=
    congrArg (fun now : Moment => { m.flat with past := now :: m.past }) (m.moment_flat c)
  obtain ⟨stored, laid'⟩ := foldl_deposit_flat (m := m.called c) (laid.congr rfl rfl rfl rfl) (m.reply c).stores
  unfold call Flat.call
  rw [reply, called, stored]
  exact ⟨rfl, laid'⟩

theorem readDevice_flat {m : Memory} (laid : m.Laid) (vaddr : Word) (size : Nat) :
    Shows (m.readDevice vaddr size) (m.flat.readDevice vaddr size) := by
  unfold readDevice Flat.readDevice
  dsimp only [flat]
  cases m.device? (virtToPhys vaddr) with
  | none => exact ⟨rfl, laid⟩
  | some r => exact (call_flat laid _).map Except.ok

theorem writeDevice_flat {m : Memory} (laid : m.Laid) (vaddr : Word) (size : Nat) (v : Quad) :
    Shows (plain (m.writeDevice vaddr size v)) (m.flat.writeDevice vaddr size v) := by
  unfold writeDevice Flat.writeDevice
  dsimp only [flat]
  cases m.device? (virtToPhys vaddr) with
  | none => exact ⟨rfl, laid⟩
  | some r => exact (call_flat laid _).map fun _ => Except.ok ()

section
variable {m : Memory} {vaddr : Word} (unmapped : m.page? (pageOf (virtToPhys vaddr)) = none)
include unmapped

theorem cell_unmapped : m.flat.cell (virtToPhys vaddr) = none := by simp [flat, unmapped]

/-- Away from RAM and ROM, a byte is refused unless a device takes it. -/
theorem refusal_unmapped :
    m.flat.refusal vaddr =
      match m.device? (virtToPhys vaddr) with
      | some _ => none
      | none => some (.invalidAddress vaddr) := by
  unfold Flat.refusal
  rw [cell_unmapped unmapped]
  rw [show m.flat.device (virtToPhys vaddr) = m.device? (virtToPhys vaddr) from rfl]
  cases m.device? (virtToPhys vaddr) <;> rfl

/-- There a write goes on after a byte as after a call of its device. -/
theorem store_unmapped (b : Byte) (rest : List Byte) :
    m.flat.store vaddr (b :: rest) =
      match m.flat.writeDevice vaddr 1 (b.setWidth 128) with
      | (.error e, f) => (.error e, f)
      | (.ok _, f) => f.store (vaddr + 1) rest := by
  rw [Flat.store, refusal_unmapped unmapped]
  unfold Flat.accept
  rw [cell_unmapped unmapped]
  unfold Flat.writeDevice
  rw [show m.flat.device (virtToPhys vaddr) = m.device? (virtToPhys vaddr) from rfl]
  cases m.device? (virtToPhys vaddr) <;> rfl

end

/-! ## Writing -/

theorem writeDeviceBytes_flat {m : Memory} (laid : m.Laid) {vaddr : Word} {data : List Byte}
    (unmapped : m.page? (pageOf (virtToPhys vaddr)) = none)
    (inside : pageOffset (virtToPhys vaddr) + data.length ≤ pageSize) :
    Shows (plain (m.writeDeviceBytes vaddr data)) (m.flat.store vaddr data) := by
  induction data generalizing m vaddr with
  | nil => exact ⟨rfl, laid⟩
  | cons b rest ih =>
    have first := writeDevice_flat laid vaddr 1 (b.setWidth 128)
    have kept := (m.pieces_writeDevice vaddr 1 (b.setWidth 128)).kept
    rw [writeDeviceBytes, store_unmapped unmapped, first.eq]
    generalize m.writeDevice vaddr 1 (b.setWidth 128) = r at first kept ⊢
    obtain ⟨e | effect, m'⟩ := r
    · exact ⟨rfl, first.laid⟩
    · cases rest with
      | nil => exact ⟨rfl, first.laid⟩
      | cons b' rest =>
        obtain ⟨page, offset⟩ := next_inPage inside (by simp)
        apply ih first.laid
        · show m'.page? _ = none
          rw [kept.page?, page]
          exact unmapped
        · rw [offset]
          simp only [List.length_cons] at inside ⊢
          omega

theorem writeInPage_flat {m : Memory} (laid : m.Laid) {vaddr : Word} {data : List Byte}
    (nonempty : data ≠ []) (inside : pageOffset (virtToPhys vaddr) + data.length ≤ pageSize) :
    Shows (plain (m.writeInPage vaddr data)) (m.flat.store vaddr data) := by
  unfold writeInPage
  split
  · next unmapped => exact writeDeviceBytes_flat laid unmapped inside
  · next e found => exact writePage_flat laid found nonempty inside

theorem writeHead_flat {m : Memory} (laid : m.Laid) (vaddr : Word) {data : List Byte}
    (nonempty : data ≠ []) :
    Shows (plain (m.writeInPage vaddr (data.take (roomInPage vaddr))))
      (m.flat.store vaddr (data.take (roomInPage vaddr))) := by
  refine writeInPage_flat laid ?_ (head_inside vaddr data)
  have := roomInPage_pos vaddr
  rw [ne_eq, List.take_eq_nil_iff, not_or]
  exact ⟨by omega, nonempty⟩

/-- After a part that was written comes the rest. -/
theorem Shows.cut {f : Flat} {vaddr : Word} {n : Nat} {data : List Byte} {effect : WriteEffect} {m : Memory}
    (first : Shows (plain (.ok effect, m)) (f.store vaddr (data.take n))) :
    f.store vaddr data = m.flat.store (vaddr + BitVec.ofNat 32 n) (data.drop n) := by
  rw [Flat.store_cut f vaddr n, first.eq]
  rfl

/-- A byte range, page by page, is written as byte by byte. -/
theorem writeBytes_flat {m : Memory} (laid : m.Laid) (vaddr : Word) (data : List Byte) :
    Shows (plain (m.writeBytes vaddr data)) (m.flat.store vaddr data) := by
  fun_induction writeBytes m vaddr data with
  | case1 m vaddr => exact ⟨rfl, laid⟩
  | case2 m vaddr data nonempty n e m' written =>
    have first := writeHead_flat laid vaddr nonempty
    rw [written] at first
    refine ⟨?_, first.laid⟩
    rw [Flat.store_cut m.flat vaddr n, first.eq]
    rfl
  | case3 m vaddr data nonempty n effect m' written r m'' rest ih
  | case4 m vaddr data nonempty n effect m' written r m'' rest ih =>
    have first := writeHead_flat laid vaddr nonempty
    rw [written] at first
    have later := ih first.laid
    rw [rest] at later
    exact ⟨first.cut.trans later.eq, later.laid⟩

theorem whole_iff {m : Memory} {w : Width} {vaddr : Word} :
    m.flat.Whole w vaddr ↔
      inPage (virtToPhys vaddr) w.size = true ∧ m.page? (pageOf (virtToPhys vaddr)) = none := by
  unfold Flat.Whole
  rw [show m.flat.cell (virtToPhys vaddr) = none ↔ m.page? (pageOf (virtToPhys vaddr)) = none from
    Option.map_eq_none_iff]

theorem not_whole {m : Memory} {w : Width} {vaddr : Word} {e : PageEntry}
    (found : m.page? (pageOf (virtToPhys vaddr)) = some e) : ¬m.flat.Whole w vaddr := by
  rw [whole_iff, found]
  exact nofun

theorem write_flat {m : Memory} (laid : m.Laid) (w : Width) (vaddr : Word) (v : Quad) :
    Shows (plain (m.write w vaddr v)) (m.flat.write w vaddr v) := by
  unfold write Flat.write
  dsimp only
  by_cases inside : inPage (virtToPhys vaddr) w.size = true
  · rw [if_pos inside]
    cases found : m.page? (pageOf (virtToPhys vaddr)) with
    | none =>
      rw [if_pos (whole_iff.2 ⟨inside, found⟩)]
      exact writeDevice_flat laid vaddr w.size _
    | some e =>
      rw [if_neg (not_whole found)]
      apply writeInPage_flat laid
      · rw [← List.length_pos_iff, length_leBytes]
        exact w.size_pos
      · rw [length_leBytes]
        exact of_decide_eq_true inside
  · rw [if_neg inside, if_neg fun whole => inside (whole_iff.1 whole).1]
    exact writeBytes_flat laid vaddr _

/-! ## Mapping -/

theorem page?_isSome {m : Memory} {p : Nat} :
    (m.page? p).isSome = true ↔ ∃ r ∈ m.regions, r.covers p = true := by
  unfold page?
  rw [Option.isSome_map, List.find?_isSome]

theorem device?_isSome {m : Memory} {paddr : Nat} :
    (m.device? paddr).isSome = true ↔ ∃ d ∈ m.devices, d.contains paddr = true := by
  unfold device?
  rw [List.find?_isSome]

section
variable {m : Memory} (laid : m.Laid) {base size : Nat} (nonempty : 0 < size)
include laid nonempty

/-- A region meets the pages of a range when it maps an address of the range. -/
theorem any_meets {first count : Nat} (start : first = base / pageSize)
    (stop : first + count = (base + size - 1) / pageSize + 1) :
    m.regions.any (·.meets first count) = true ↔
      ∃ i < size, (m.page? (pageOf (base + i))).isSome = true := by
  rw [List.any_eq_true]
  constructor
  · rintro ⟨r, mem, meets⟩
    have wide := laid.regions r mem
    simp only [Region.meets, Bool.and_eq_true, decide_eq_true_eq] at meets
    -- The first common page, and the first address of the range on it.
    let i := max base (max first r.first * pageSize) - base
    have page : pageOf (base + i) = max first r.first := by
      unfold pageOf i
      rw [show pageSize = 4096 from rfl] at *
      omega
    refine ⟨i, ?_, page?_isSome.2 ⟨r, mem, ?_⟩⟩
    · unfold i
      rw [show pageSize = 4096 from rfl] at *
      omega
    · rw [page]
      simp only [Region.covers, Bool.and_eq_true, decide_eq_true_eq]
      omega
  · rintro ⟨i, hi, covered⟩
    obtain ⟨r, mem, covers⟩ := page?_isSome.1 covered
    refine ⟨r, mem, Region.meets_of_covers covers ?_ ?_⟩ <;>
    · unfold pageOf
      rw [show pageSize = 4096 from rfl] at *
      omega

theorem any_overlaps :
    m.devices.any (·.overlaps base size) = true ↔ ∃ i < size, (m.device? (base + i)).isSome = true := by
  rw [List.any_eq_true]
  constructor
  · rintro ⟨d, mem, overlaps⟩
    have wide := laid.devices d mem
    simp only [DeviceRange.overlaps, Bool.and_eq_true, decide_eq_true_eq] at overlaps
    refine ⟨max base d.base - base, by omega, device?_isSome.2 ⟨d, mem, ?_⟩⟩
    simp only [DeviceRange.contains, Bool.and_eq_true, decide_eq_true_eq]
    omega
  · rintro ⟨i, hi, found⟩
    obtain ⟨d, mem, contains⟩ := device?_isSome.1 found
    refine ⟨d, mem, ?_⟩
    simp only [DeviceRange.contains, Bool.and_eq_true, decide_eq_true_eq] at contains
    simp only [DeviceRange.overlaps, Bool.and_eq_true, decide_eq_true_eq]
    omega

theorem meets_flat {first count : Nat} (start : first = base / pageSize)
    (stop : first + count = (base + size - 1) / pageSize + 1) :
    (m.regions.any (·.meets first count) || m.devices.any (·.overlaps base size)) =
      m.flat.meets base size := by
  rw [Bool.eq_iff_iff, Bool.or_eq_true, any_meets laid nonempty start stop, any_overlaps laid nonempty]
  simp only [Flat.meets, Flat.taken, flat, List.any_eq_true, List.mem_range, Bool.or_eq_true,
    Option.isSome_map]
  constructor
  · rintro (⟨i, hi, h⟩ | ⟨i, hi, h⟩)
    · exact ⟨i, hi, .inl h⟩
    · exact ⟨i, hi, .inr h⟩
  · rintro ⟨i, hi, h | h⟩
    · exact .inl ⟨i, hi, h⟩
    · exact .inr ⟨i, hi, h⟩

end

theorem not_taken {m : Memory} {base size a : Nat} (free : ¬ m.flat.meets base size = true)
    (low : base ≤ a) (high : a < base + size) :
    m.page? (pageOf a) = none ∧ m.device? a = none := by
  have untaken : ¬ m.flat.taken a = true := by
    intro taken
    apply free
    unfold Flat.meets
    rw [List.any_eq_true]
    refine ⟨a - base, by rw [List.mem_range]; omega, ?_⟩
    rwa [Nat.add_sub_cancel' low]
  simpa [Flat.taken, flat] using untaken

theorem storeByte_storeBytes_inside {m : Memory} {pos : Nat} {data : List Byte} {i : Nat}
    (h : i < data.length) : (m.storeBytes pos data).storeByte (pos + i) = data.getD i 0 := by
  induction data generalizing m pos i with
  | nil => cases h
  | cons b rest ih =>
    rw [storeBytes]
    cases i with
    | zero =>
      rw [storeByte_storeBytes_of_outside (by omega), storeByte_insert]
      simp
    | succ i =>
      rw [show pos + (i + 1) = pos + 1 + i by omega, ih (by simpa using h)]
      rfl

theorem storeByte_image {m : Memory} {pos : Nat} (blank : ∀ q, pos ≤ q → m.storeByte q = 0)
    (image : List Byte) (i : Nat) :
    (m.storeBytes pos image).storeByte (pos + i) = image.getD i 0 := by
  by_cases inside : i < image.length
  · exact storeByte_storeBytes_inside inside
  · rw [storeByte_storeBytes_of_outside (by omega), blank _ (by omega),
      List.getD_eq_getElem?_getD, List.getElem?_eq_none (by omega)]
    rfl

section
variable {m : Memory} {base size : Nat} {readOnly : Bool}

theorem covers_iff {frame : Nat} (aligned : base % pageSize = 0) (whole : size % pageSize = 0) (a : Nat) :
    Region.covers { first := base / pageSize, count := size / pageSize, frame, readOnly } (pageOf a) = true ↔
      base ≤ a ∧ a < base + size := by
  simp only [Region.covers, Bool.and_eq_true, decide_eq_true_eq]
  unfold pageOf
  rw [show pageSize = 4096 from rfl] at *
  omega

theorem checkRegion_flat (laid : m.Laid) :
    m.checkRegion base size =
      if size = 0 ∨ base % pageSize ≠ 0 ∨ size % pageSize ≠ 0 ∨ physSpace < base + size then
        .error (.badRegion base size)
      else if m.flat.meets base size then .error (.overlap base size)
      else .ok () := by
  unfold checkRegion
  split
  · rfl
  · next good =>
    rw [meets_flat laid (by omega) rfl]
    rw [show pageSize = 4096 from rfl] at *
    omega

end

/-- The memory with whole pages mapped on the next frames. -/
def withPages (m : Memory) (base size : Nat) (readOnly : Bool) : Memory :=
  { m with
    used := m.used + size / pageSize
    regions := { first := base / pageSize, count := size / pageSize, frame := m.used, readOnly } ::
      m.regions }

/-- The same, with an image stored on the new frames. -/
def withImage (m : Memory) (base size : Nat) (readOnly : Bool) (image : List Byte) : Memory :=
  (m.withPages base size readOnly).storeBytes (m.used * pageSize) image

section
variable {m : Memory} {base size : Nat} {readOnly : Bool} {image : List Byte}

theorem withImage_eq (m : Memory) (base size : Nat) (readOnly : Bool) (image : List Byte) :
    ∃ store, m.withImage base size readOnly image = { m.withPages base size readOnly with store } :=
  storeBytes_eq _ _ _

theorem withImage_page? (aligned : base % pageSize = 0) (whole : size % pageSize = 0) (a : Nat) :
    (m.withImage base size readOnly image).page? (pageOf a) =
      if base ≤ a ∧ a < base + size then
        some { frame := m.used + (pageOf a - base / pageSize), readOnly }
      else m.page? (pageOf a) := by
  unfold withImage withPages
  rw [storeBytes_page?, page?_cons]
  simp only [covers_iff aligned whole]

/-- The image and zeros after it are on the new frames; what was stored before is as it was. -/
theorem withImage_storeByte (laid : m.Laid) (pos : Nat) :
    (m.withImage base size readOnly image).storeByte pos =
      if m.used * pageSize ≤ pos then image.getD (pos - m.used * pageSize) 0 else m.storeByte pos := by
  have blank : ∀ q, m.used * pageSize ≤ q → (m.withPages base size readOnly).storeByte q = 0 := laid.blank
  unfold withImage
  split
  · next new =>
    obtain ⟨i, rfl⟩ := Nat.exists_eq_add_of_le new
    rw [storeByte_image blank, Nat.add_sub_cancel_left]
  · next old =>
    rw [storeByte_storeBytes_of_outside (by omega)]
    rfl

theorem withImage_flat (laid : m.Laid) (aligned : base % pageSize = 0) (whole : size % pageSize = 0) :
    (m.withImage base size readOnly image).flat =
      { m.flat with
        cell := fun a =>
          if base ≤ a ∧ a < base + size then some { byte := image.getD (a - base) 0, readOnly }
          else m.flat.cell a
        spare := m.available - size } := by
  obtain ⟨store, eq⟩ := m.withImage_eq base size readOnly image
  refine Flat.ext ?_ ?_ ?_ ?_ ?_
  · funext a
    dsimp only [flat]
    rw [withImage_page? aligned whole]
    split
    · next inside =>
      have place : m.used * pageSize + (a - base) =
          (m.used + (pageOf a - base / pageSize)) * pageSize + pageOffset a := by
        unfold pageOf pageOffset
        rw [show pageSize = 4096 from rfl] at *
        omega
      unfold PageEntry.position
      rw [Option.map_some, ← place, withImage_storeByte laid, if_pos (by omega), Nat.add_sub_cancel_left]
    · cases found : m.page? (pageOf a) with
      | none => rfl
      | some e =>
        have := laid.sound.below found
        have := pageOffset_lt a
        rw [Option.map_some, withImage_storeByte laid, if_neg]
        · rfl
        · unfold PageEntry.position
          rw [show pageSize = 4096 from rfl] at *
          omega
  · rw [eq]
    rfl
  · rw [eq]
    rfl
  · rw [eq]
    rfl
  · rw [eq]
    show (m.frames - (m.used + size / pageSize)) * pageSize = (m.frames - m.used) * pageSize - size
    rw [show pageSize = 4096 from rfl] at *
    omega

theorem Laid.withImage (laid : m.Laid) (sound : (m.withPages base size readOnly).Sound)
    (nonempty : 0 < size) (aligned : base % pageSize = 0) (whole : size % pageSize = 0)
    (free : ¬ m.flat.meets base size = true) (short : image.length ≤ size) :
    (m.withImage base size readOnly image).Laid := by
  obtain ⟨store, eq⟩ := m.withImage_eq base size readOnly image
  refine ⟨sound.of_regions (by rw [eq]) (by rw [eq]), ?_, ?_, ?_, ?_⟩
  · rw [eq]
    rintro r (_ | ⟨_, mem⟩)
    · show 0 < size / pageSize
      rw [show pageSize = 4096 from rfl] at *
      omega
    · exact laid.regions r mem
  · rw [eq]
    exact laid.devices
  · intro a found
    have found' : (m.device? a).isSome = true := by
      rwa [eq] at found
    rw [withImage_page? aligned whole, if_neg]
    · exact laid.apart found'
    · rintro ⟨low, high⟩
      rw [(not_taken free low high).2] at found'
      cases found'
  · intro pos beyond
    have room : (m.used + size / pageSize) * pageSize ≤ pos := by
      rwa [eq] at beyond
    rw [Nat.add_mul, Nat.div_mul_cancel (Nat.dvd_of_mod_eq_zero whole)] at room
    rw [withImage_storeByte laid, if_pos (by omega), List.getD_eq_getElem?_getD,
      List.getElem?_eq_none (by omega)]
    rfl

end

theorem mapFrames_eq {m : Memory} (laid : m.Laid) (base size : Nat) (readOnly : Bool) :
    m.mapFrames base size readOnly =
      if size = 0 ∨ base % pageSize ≠ 0 ∨ size % pageSize ≠ 0 ∨ physSpace < base + size then
        .error (.badRegion base size)
      else if m.flat.meets base size then .error (.overlap base size)
      else if m.available < size then .error (.outOfBacking size m.available)
      else .ok (m.used, m.withPages base size readOnly) := by
  unfold mapFrames
  rw [checkRegion_flat laid]
  by_cases bad : size = 0 ∨ base % pageSize ≠ 0 ∨ size % pageSize ≠ 0 ∨ physSpace < base + size
  · simp only [if_pos bad]
  · by_cases taken : m.flat.meets base size = true
    · simp only [if_neg bad, if_pos taken]
    · have enough : m.frames < m.used + size / pageSize ↔ m.available < size := by
        unfold available
        rw [show pageSize = 4096 from rfl] at *
        omega
      simp only [if_neg bad, if_neg taken, enough]
      rfl

/-- A mapping and the flat mapping that it shows as. -/
structure Maps (r : Except MemError Memory) (s : Except MemError Flat) : Prop where
  eq : s = r.map flat
  laid : ∀ m, r = .ok m → m.Laid

theorem mapFrames_flat {m : Memory} (laid : m.Laid) (base size : Nat) (readOnly : Bool) (image : List Byte)
    (short : image.length ≤ size) :
    Maps ((m.mapFrames base size readOnly).map fun r => r.2.storeBytes (r.1 * pageSize) image)
      (m.flat.map base size readOnly fun i => image.getD i 0) := by
  have sound (frame : Nat) (m' : Memory) (h : m.mapFrames base size readOnly = .ok (frame, m')) : m'.Sound :=
    mapFrames_sound laid.sound h
  rw [mapFrames_eq laid] at sound ⊢
  unfold Flat.map
  rw [show m.flat.spare = m.available from rfl]
  split
  · exact ⟨rfl, nofun⟩
  · split
    · exact ⟨rfl, nofun⟩
    · split
      · exact ⟨rfl, nofun⟩
      · next good free room =>
        refine ⟨congrArg Except.ok (withImage_flat laid (by omega) (by omega)).symm, ?_⟩
        rintro m' ⟨⟩
        refine laid.withImage (sound m.used _ ?_) (by omega) (by omega) (by omega) free short
        rw [if_neg good, if_neg free, if_neg room]

theorem mapRam_flat {m : Memory} (laid : m.Laid) (base size : Nat) :
    Maps (m.mapRam base size) (m.flat.map base size false fun _ => 0) := by
  have mapped := mapFrames_flat laid base size false [] (Nat.zero_le _)
  exact mapped

theorem mapRom_flat {m : Memory} (laid : m.Laid) (base : Nat) (image : List Byte) :
    Maps (m.mapRom base image) (m.flat.map base (romSize image) true fun i => image.getD i 0) := by
  have short : image.length ≤ romSize image := by
    unfold romSize
    rw [show pageSize = 4096 from rfl]
    omega
  have mapped := mapFrames_flat laid base (romSize image) true image short
  unfold mapRom
  cases h : m.mapFrames base (romSize image) true with
  | error e => rwa [h] at mapped
  | ok r => rwa [h] at mapped

theorem mapDevice_flat {m : Memory} (laid : m.Laid) (base size : Nat) (device : Device) :
    Maps (m.mapDevice base size device) (m.flat.mapDevice base size device) := by
  unfold mapDevice Flat.mapDevice
  dsimp only
  split
  · exact ⟨rfl, nofun⟩
  · next good =>
    rw [meets_flat laid (by omega) rfl (by
      have := Nat.div_le_div_right (c := pageSize) (show base ≤ base + size - 1 by omega)
      omega)]
    split
    · exact ⟨rfl, nofun⟩
    · next free =>
      have device? (a : Nat) :
          Memory.device? { m with devices := { base, size, device } :: m.devices } a =
            if base ≤ a ∧ a < base + size then some { base, size, device } else m.device? a := by
        unfold Memory.device?
        rw [List.find?_cons, DeviceRange.contains, ← Bool.decide_and]
        by_cases own : base ≤ a ∧ a < base + size
        · rw [if_pos own, decide_eq_true own]
        · rw [if_neg own, decide_eq_false own]
      refine ⟨congrArg Except.ok (Flat.ext rfl (funext fun a => (device? a).symm) rfl rfl rfl), ?_⟩
      rintro m' ⟨⟩
      refine ⟨laid.sound.of_regions rfl rfl, laid.regions, ?_, ?_, laid.blank⟩
      · rintro d (_ | ⟨_, mem⟩)
        · show 0 < size
          omega
        · exact laid.devices d mem
      · intro a found
        rw [device?] at found
        split at found
        · next own => exact (not_taken free own.1 own.2).1
        · exact laid.apart found

/-! ## Reading -/

theorem readByte_flat {m : Memory} (laid : m.Laid) (vaddr : Word) :
    Shows (m.readByte vaddr) (m.flat.readByte vaddr) := by
  have device := readDevice_flat laid vaddr 1
  unfold readByte Flat.readByte
  dsimp only
  cases found : m.page? (pageOf (virtToPhys vaddr)) with
  | some e =>
    rw [show m.flat.cell (virtToPhys vaddr) =
      some ⟨m.storeByte (e.position (pageOffset (virtToPhys vaddr))), e.readOnly⟩ by simp [flat, found]]
    exact ⟨rfl, laid⟩
  | none =>
    rw [cell_unmapped found]
    dsimp only
    rw [device.eq]
    generalize m.readDevice vaddr 1 = r at device ⊢
    obtain ⟨e | v, m'⟩ := r <;> exact ⟨rfl, device.laid⟩

theorem readBytes_flat {m : Memory} (laid : m.Laid) (vaddr : Word) (n : Nat) :
    Shows (m.readBytes vaddr n) (m.flat.load vaddr n) := by
  induction n generalizing m vaddr with
  | zero => exact ⟨rfl, laid⟩
  | succ n ih =>
    have first := readByte_flat laid vaddr
    rw [readBytes, Flat.load, first.eq]
    generalize m.readByte vaddr = r at first ⊢
    obtain ⟨e | b, m'⟩ := r
    · exact ⟨rfl, first.laid⟩
    · have rest := ih first.laid (vaddr + 1)
      dsimp only at rest ⊢
      rw [rest.eq]
      generalize m'.readBytes (vaddr + 1) n = r at rest ⊢
      obtain ⟨e | bs, m''⟩ := r <;> exact ⟨rfl, rest.laid⟩

theorem loadBytes_succ (m : Memory) (pos n : Nat) :
    m.loadBytes pos (n + 1) = m.storeByte pos :: m.loadBytes (pos + 1) n := by
  unfold loadBytes
  rw [List.range_succ_eq_map, List.map_cons, List.map_map]
  refine congrArg (m.storeByte pos :: ·) (List.map_congr_left fun i _ => ?_)
  show m.storeByte (pos + (i + 1)) = m.storeByte (pos + 1 + i)
  rw [Nat.add_right_comm pos 1 i, Nat.add_assoc]

section
variable {m : Memory}

theorem bytes?_inPage {e : PageEntry} {vaddr : Word} {n : Nat}
    (found : m.page? (pageOf (virtToPhys vaddr)) = some e)
    (inside : pageOffset (virtToPhys vaddr) + n ≤ pageSize) :
    m.flat.bytes? vaddr n = some (m.loadBytes (e.position (pageOffset (virtToPhys vaddr))) n) := by
  induction n generalizing vaddr with
  | zero => rfl
  | succ n ih =>
    rw [loadBytes_succ, Flat.bytes?]
    rw [show m.flat.cell (virtToPhys vaddr) =
      some ⟨m.storeByte (e.position (pageOffset (virtToPhys vaddr))), e.readOnly⟩ by simp [flat, found]]
    cases n with
    | zero => rfl
    | succ n =>
      obtain ⟨page, offset⟩ := next_inPage inside (Nat.succ_pos n)
      rw [ih (by rwa [page]) (by omega), offset, position_succ]

theorem read_flat (laid : m.Laid) (w : Width) (vaddr : Word) :
    Shows (m.read w vaddr) (m.flat.read w vaddr) := by
  by_cases inside : inPage (virtToPhys vaddr) w.size = true
  · cases found : m.page? (pageOf (virtToPhys vaddr)) with
    | none =>
      rw [read_unmapped inside found, Flat.read, if_pos (whole_iff.2 ⟨inside, found⟩)]
      exact (readDevice_flat laid vaddr w.size).map (Except.map w.truncate)
    | some e =>
      rw [read_mapped inside found, Flat.read, if_neg (not_whole found),
        Flat.load_of_bytes? (bytes?_inPage found (of_decide_eq_true inside))]
      exact ⟨rfl, laid⟩
  · have bytes := readBytes_flat laid vaddr w.size
    unfold read Flat.read
    dsimp only
    rw [if_neg inside, if_neg fun whole => inside (whole_iff.1 whole).1, bytes.eq]
    generalize m.readBytes vaddr w.size = r at bytes ⊢
    obtain ⟨e | bs, m'⟩ := r <;> exact ⟨rfl, bytes.laid⟩

/-! ### RAM and ROM -/

theorem readBytes_known {vaddr : Word} {n : Nat} {bs : List Byte} (h : m.flat.bytes? vaddr n = some bs) :
    m.readBytes vaddr n = (.ok bs, m) := by
  induction n generalizing vaddr bs with
  | zero =>
    cases h
    rfl
  | succ n ih =>
    obtain ⟨c, rest, cell, later, rfl⟩ := Flat.bytes?_succ h
    have first : m.readByte vaddr = (.ok c.byte, m) := by
      dsimp only [flat] at cell
      obtain ⟨e, found, rfl⟩ := Option.map_eq_some_iff.1 cell
      unfold readByte
      dsimp only
      rw [found]
    rw [readBytes, first]
    dsimp only
    rw [ih later]

theorem read_known {w : Width} {vaddr : Word} {bs : List Byte}
    (h : m.flat.bytes? vaddr w.size = some bs) :
    m.read w vaddr = (.ok (BitVec.ofNat 128 (ofLeBytes bs)), m) := by
  by_cases inside : inPage (virtToPhys vaddr) w.size = true
  · cases found : m.page? (pageOf (virtToPhys vaddr)) with
    | none =>
      -- The first byte is RAM or ROM.
      obtain ⟨n, size⟩ := Nat.exists_eq_add_of_lt w.size_pos
      rw [size] at h
      obtain ⟨c, -, cell, -⟩ := Flat.bytes?_succ h
      rw [cell_unmapped found] at cell
      cases cell
    | some e =>
      rw [bytes?_inPage found (of_decide_eq_true inside)] at h
      rw [read_mapped inside found, Option.some.inj h]
  · unfold read
    dsimp only
    rw [if_neg inside, readBytes_known h]

end

/-! ## Sessions -/

/-- A memory stands for a flat one. -/
structure Faithful (m : Memory) (f : Flat) : Prop where
  /-- The byte at each address of RAM and ROM, and which addresses these are. -/
  view : m.flat = f
  /-- No two pages share a frame. -/
  frames : ∀ {p q e e'}, m.page? p = some e → m.page? q = some e' → e.frame = e'.frame → p = q
  /-- No page of RAM or ROM has an address of a device. -/
  apart : ∀ {a b}, f.cell a ≠ none → pageOf a = pageOf b → f.device b = none
  /-- Reading a range of RAM and ROM gives its bytes, through any address. -/
  bytes : ∀ {vaddr n bs}, f.bytes? vaddr n = some bs → m.readBytes vaddr n = (.ok bs, m)
  /-- So does a typed read, as a little-endian value. -/
  value : ∀ {w vaddr bs}, f.bytes? vaddr w.size = some bs →
    m.read w vaddr = (.ok (BitVec.ofNat 128 (ofLeBytes bs)), m)
  /-- Writing a range puts all bytes, or those before the address that is reported, unless a device stores
  something meanwhile. -/
  written : ∀ vaddr data, f.Calm (m.writeBytes vaddr data).2.flat →
    match m.writeBytes vaddr data with
    | (.ok _, m') => m'.flat = { f.put vaddr data with past := m'.past }
    | (.error e, m') => ∃ k < data.length, e.faultAddr = some (vaddr + BitVec.ofNat 32 k) ∧
        m'.flat = { f.put vaddr (data.take k) with past := m'.past }

theorem Laid.faithful {m : Memory} (laid : m.Laid) : Faithful m m.flat where
  view := rfl
  frames := laid.sound.own
  apart := by
    intro a b cell page
    cases found : m.flat.device b with
    | none => rfl
    | some r =>
      have unmapped := laid.apart (a := b) (Option.isSome_iff_exists.2 ⟨r, found⟩)
      rw [← page] at unmapped
      exact absurd (by simp [flat, unmapped]) cell
  bytes := readBytes_known
  value := read_known
  written vaddr data calm := by
    have shown := (writeBytes_flat laid vaddr data).eq
    split
    · next effect m' e =>
      rw [e] at shown calm
      exact Flat.store_ok shown calm
    · next e m' h =>
      rw [h] at shown calm
      exact Flat.store_error shown calm

/-- A mapping, made or refused, shows as the flat mapping. -/
theorem Maps.settle {m : Memory} (laid : m.Laid) {r : Except MemError Memory} {s : Except MemError Flat}
    (h : Maps r s) :
    Memory.settle m.flat s = ((Memory.settle m r).1, (Memory.settle m r).2.flat) ∧
      (Memory.settle m r).2.Laid := by
  rw [h.eq]
  cases r with
  | error e => exact ⟨rfl, laid⟩
  | ok m' => exact ⟨rfl, h.laid m' rfl⟩

theorem apply_flat {m : Memory} (laid : m.Laid) (op : Op) :
    m.flat.apply op = ((m.apply op).1, (m.apply op).2.flat) ∧ (m.apply op).2.Laid := by
  have answers {r : Except MemError (List Byte) × Memory} {s : Except MemError (List Byte) × Flat}
      (shown : Shows r s) : s = (r.1, r.2.flat) ∧ r.2.Laid := ⟨shown.eq, shown.laid⟩
  have writes {r : Except MemError WriteEffect × Memory} {s : Except MemError Unit × Flat}
      (shown : Shows (plain r) s) :
      (s.1.map (fun _ => ([] : List Byte)), s.2) = (r.1.map fun _ => [], r.2.flat) ∧ r.2.Laid := by
    refine ⟨?_, shown.laid⟩
    rw [shown.eq]
    obtain ⟨e | effect, m'⟩ := r <;> rfl
  cases op with
  | mapRam base size => exact (mapRam_flat laid base size).settle laid
  | mapRom base image => exact (mapRom_flat laid base image).settle laid
  | mapDevice base size device => exact (mapDevice_flat laid base size device).settle laid
  | write w vaddr v => exact writes (write_flat laid w vaddr v)
  | writeBytes vaddr data => exact writes (writeBytes_flat laid vaddr data)
  | markCode page => exact answers (.silent laid (.markCode m page))
  | read w vaddr => exact answers ((read_flat laid w vaddr).map _)
  | readBytes vaddr n => exact answers (readBytes_flat laid vaddr n)

theorem session_view {m : Memory} (laid : m.Laid) (ops : List Op) :
    session Flat.apply m.flat ops = ((session apply m ops).1, (session apply m ops).2.flat) ∧
      (session apply m ops).2.Laid := by
  induction ops generalizing m with
  | nil => exact ⟨rfl, laid⟩
  | cons op rest ih =>
    obtain ⟨first, laid'⟩ := apply_flat laid op
    obtain ⟨later, laid''⟩ := ih laid'
    refine ⟨?_, laid''⟩
    simp only [session, first, later]

/-- Whatever is mapped, written, marked and read, whatever of it fails, and whatever the devices do when they are
called, a memory answers as the flat one does and stands for it afterwards. -/
theorem session_flat (size : Nat) (board : Board) (ops : List Op) :
    let paged := session apply (empty size board) ops
    let flat := session Flat.apply (Flat.blank (empty size).available board) ops
    paged.1 = flat.1 ∧ Faithful paged.2 flat.2 := by
  obtain ⟨shown, laid⟩ := session_view (laid_empty size board) ops
  have blank : (empty size board).flat = Flat.blank (empty size).available board := rfl
  rw [blank] at shown
  dsimp only
  rw [shown]
  exact ⟨rfl, laid.faithful⟩

end EmotionEngine.Memory
