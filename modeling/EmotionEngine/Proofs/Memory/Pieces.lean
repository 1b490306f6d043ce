import EmotionEngine.Proofs.Memory.Pages

/-!
What accesses do to memory is done in pieces: calls of devices are noted, and bytes are written on one page at a
time. Reads and writes of any width and range are of this kind, and so are the stores of devices (`Pieces`), so
what both pieces keep, every access keeps.
-/

namespace EmotionEngine.Memory

/-- The memories that pieces of accesses make of one. -/
inductive Pieces (m : Memory) : Memory → Prop where
  | refl : Pieces m m
  | called {m' : Memory} (h : Pieces m m') (c : Call) : Pieces m (m'.called c)
  | write {m' : Memory} (h : Pieces m m') {vaddr : Word} {data : List Byte} {e : PageEntry}
    (found : m'.page? (pageOf (virtToPhys vaddr)) = some e)
    (inside : pageOffset (virtToPhys vaddr) + data.length ≤ pageSize) :
    Pieces m (m'.writePage e vaddr data).2

theorem Pieces.trans {m m' m'' : Memory} (h : Pieces m m') (h' : Pieces m' m'') : Pieces m m'' := by
  induction h' with
  | refl => exact h
  | called _ c ih => exact .called ih c
  | write _ found inside ih => exact .write ih found inside

/-! ## Pieces of a page -/

theorem writePage_ok {e : PageEntry} (writable : e.readOnly = false) (m : Memory) (vaddr : Word)
    (data : List Byte) : ∃ effect, (m.writePage e vaddr data).1 = .ok effect := by
  unfold writePage
  rw [if_neg (by rw [writable]; exact nofun)]
  dsimp only
  split
  · exact ⟨_, rfl⟩
  · exact ⟨_, rfl⟩

theorem writePage_locked {e : PageEntry} (locked : e.readOnly = true) (m : Memory) (vaddr : Word)
    (data : List Byte) : m.writePage e vaddr data = (.error (.readOnly vaddr), m) := by
  unfold writePage
  rw [if_pos locked]

/-- The store, what is known of code, and the events are all that a write changes. -/
theorem writePage_eq (m : Memory) (e : PageEntry) (vaddr : Word) (data : List Byte) :
    ∃ store code events, (m.writePage e vaddr data).2 = { m with store, code, events } := by
  obtain ⟨store, eq⟩ := m.storeBytes_eq (e.position (pageOffset (virtToPhys vaddr))) data
  unfold writePage
  dsimp only
  rw [eq]
  split
  · exact ⟨m.store, m.code, m.events, rfl⟩
  · split
    · exact ⟨store, _, _, rfl⟩
    · exact ⟨store, m.code, m.events, rfl⟩

/-- What no access changes: the map, and what the devices are. Calls of devices are only added. -/
structure Kept (m m' : Memory) : Prop where
  regions : m'.regions = m.regions
  devices : m'.devices = m.devices
  board : m'.board = m.board
  past : m.past <:+ m'.past

theorem Pieces.kept {m m' : Memory} (h : Pieces m m') : Kept m m' := by
  induction h with
  | refl => exact ⟨rfl, rfl, rfl, List.suffix_refl _⟩
  | called _ c ih => exact ⟨ih.regions, ih.devices, ih.board, ih.past.trans (List.suffix_cons _ _)⟩
  | @write m' _ vaddr data e found inside ih =>
    obtain ⟨store, code, events, eq⟩ := m'.writePage_eq e vaddr data
    rw [eq]
    exact ⟨ih.regions, ih.devices, ih.board, ih.past⟩

section
variable {m m' : Memory} (h : Kept m m')
include h

theorem Kept.page? (p : Nat) : m'.page? p = m.page? p := page?_congr h.regions p

theorem Kept.device? (paddr : Nat) : m'.device? paddr = m.device? paddr := by
  unfold Memory.device?
  rw [h.devices]

end

/-! ## Devices -/

theorem pieces_foldl_deposit (m : Memory) (stores : List Deposit) : Pieces m (stores.foldl deposit m) := by
  induction stores generalizing m with
  | nil => exact .refl
  | cons d rest ih =>
    have first : Pieces m (m.deposit d) := by
      unfold deposit
      split
      · next e found => exact .write .refl found d.inside
      · exact .refl
    exact first.trans (ih (m.deposit d))

theorem pieces_call (m : Memory) (c : Call) : Pieces m (m.call c).2 :=
  (Pieces.called .refl c).trans (pieces_foldl_deposit _ _)

theorem pieces_readDevice (m : Memory) (vaddr : Word) (size : Nat) : Pieces m (m.readDevice vaddr size).2 := by
  unfold readDevice
  dsimp only
  split
  · exact pieces_call m _
  · exact .refl

theorem pieces_writeDevice (m : Memory) (vaddr : Word) (size : Nat) (v : Quad) :
    Pieces m (m.writeDevice vaddr size v).2 := by
  unfold writeDevice
  dsimp only
  split
  · exact pieces_call m _
  · exact .refl

/-! ## Reading -/

theorem pieces_readByte (m : Memory) (vaddr : Word) : Pieces m (m.readByte vaddr).2 := by
  have device := m.pieces_readDevice vaddr 1
  unfold readByte
  dsimp only
  split
  · exact .refl
  · split <;> next e => rwa [e] at device

theorem pieces_readBytes (m : Memory) (vaddr : Word) (n : Nat) : Pieces m (m.readBytes vaddr n).2 := by
  induction n generalizing m vaddr with
  | zero => exact .refl
  | succ n ih =>
    have first := m.pieces_readByte vaddr
    unfold readBytes
    split
    · next e => rwa [e] at first
    · next b m' e =>
      rw [e] at first
      have rest := first.trans (ih m' (vaddr + 1))
      split <;> next e' => rwa [e'] at rest

theorem pieces_read (m : Memory) (w : Width) (vaddr : Word) : Pieces m (m.read w vaddr).2 := by
  have device := m.pieces_readDevice vaddr w.size
  have bytes := m.pieces_readBytes vaddr w.size
  unfold read
  dsimp only
  split
  · split
    · exact .refl
    · split <;> next e => rwa [e] at device
  · split <;> next e => rwa [e] at bytes

/-! ## Writing -/

theorem pieces_writeDeviceBytes (m : Memory) (vaddr : Word) (data : List Byte) :
    Pieces m (m.writeDeviceBytes vaddr data).2 := by
  induction data generalizing m vaddr with
  | nil => exact .refl
  | cons b rest ih =>
    have first := m.pieces_writeDevice vaddr 1 (b.setWidth 128)
    unfold writeDeviceBytes
    split
    · next e => rwa [e] at first
    · next m' e =>
      rw [e] at first
      exact first.trans (ih m' (vaddr + 1))

theorem pieces_writeInPage (m : Memory) (vaddr : Word) (data : List Byte)
    (inside : pageOffset (virtToPhys vaddr) + data.length ≤ pageSize) :
    Pieces m (m.writeInPage vaddr data).2 := by
  unfold writeInPage
  split
  · exact pieces_writeDeviceBytes m vaddr data
  · next e found => exact .write .refl found inside

theorem head_inside (vaddr : Word) (data : List Byte) :
    pageOffset (virtToPhys vaddr) + (data.take (roomInPage vaddr)).length ≤ pageSize := by
  have := pageOffset_lt (virtToPhys vaddr)
  rw [List.length_take]
  unfold roomInPage
  omega

theorem pieces_writeBytes (m : Memory) (vaddr : Word) (data : List Byte) :
    Pieces m (m.writeBytes vaddr data).2 := by
  fun_induction writeBytes m vaddr data with
  | case1 => exact .refl
  | case2 m vaddr data nonempty n e m' written =>
    have first := m.pieces_writeInPage vaddr (data.take n) (head_inside vaddr data)
    rwa [written] at first
  | case3 m vaddr data nonempty n effect m' written r m'' rest ih
  | case4 m vaddr data nonempty n effect m' written r m'' rest ih =>
    have first := m.pieces_writeInPage vaddr (data.take n) (head_inside vaddr data)
    rw [written] at first
    rw [rest] at ih
    exact first.trans ih

theorem pieces_write (m : Memory) (w : Width) (vaddr : Word) (v : Quad) : Pieces m (m.write w vaddr v).2 := by
  unfold write
  dsimp only
  split
  · next inside =>
    split
    · apply pieces_writeInPage
      rw [length_leBytes]
      exact of_decide_eq_true inside
    · exact pieces_writeDevice m vaddr w.size _
  · exact pieces_writeBytes m vaddr _

end EmotionEngine.Memory
