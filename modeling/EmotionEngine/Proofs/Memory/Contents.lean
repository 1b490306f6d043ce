import EmotionEngine.Proofs.Memory.Evolve

/-!
Memories with the same contents: the same map over the same bytes, and the same devices with the same accesses
so far. They may differ in what is known of the code on their pages and in what was told of it. Aligned
accesses cannot tell them apart, nor can fetches, nor the devices.
-/

namespace EmotionEngine

/-! ## Aligned accesses -/

section
variable {w : Width} {addr : Word} (aligned : Guest.aligned w addr = true)
include aligned

theorem aligned_inPage : Memory.inPage (virtToPhys addr) w.size = true := by
  unfold Guest.aligned at aligned
  rw [beq_iff_eq] at aligned
  show decide (addr.toNat % 536870912 % 4096 + w.size ≤ 4096) = true
  rw [decide_eq_true_eq]
  cases w <;> simp only [Width.size] at aligned ⊢ <;> omega

theorem aligned_page {i : Nat} (hi : i < w.size) :
    pageOf (virtToPhys (addr + BitVec.ofNat 32 i)) = pageOf (virtToPhys addr) := by
  have size : w.size ≤ 16 := by cases w <;> decide
  have byte : (addr + BitVec.ofNat 32 i).toNat = (addr.toNat + i) % 4294967296 := by
    rw [BitVec.toNat_add, BitVec.toNat_ofNat, Nat.mod_eq_of_lt (by omega : i < 2 ^ 32)]
  unfold Guest.aligned at aligned
  rw [beq_iff_eq] at aligned
  show (addr + BitVec.ofNat 32 i).toNat % 536870912 / 4096 = addr.toNat % 536870912 / 4096
  cases w <;> simp only [Width.size] at aligned hi <;> omega

end

def Event.isDevice : Event → Bool
  | .deviceRead .. => true
  | .deviceWrite .. => true
  | .codeWritten _ => false

namespace Memory

/-- The accesses of devices so far, in order. -/
def deviceEvents (m : Memory) : List Event := m.events.toList.filter Event.isDevice

section
variable {m : Memory} {w : Width} {addr : Word} (inside : inPage (virtToPhys addr) w.size = true)
include inside

theorem read_mapped {e : PageEntry} (found : m.page? (pageOf (virtToPhys addr)) = some e) :
    m.read w addr =
      (.ok (BitVec.ofNat 128
        (ofLeBytes (m.loadBytes (e.position (pageOffset (virtToPhys addr))) w.size))), m) := by
  unfold read
  dsimp only
  rw [if_pos inside, found]

theorem read_unmapped (unmapped : m.page? (pageOf (virtToPhys addr)) = none) :
    m.read w addr = ((m.readDevice addr w.size).1.map w.truncate, (m.readDevice addr w.size).2) := by
  unfold read
  dsimp only
  rw [if_pos inside, unmapped]
  dsimp only
  split <;> next e => rw [e]; rfl

theorem write_mapped {e : PageEntry} (found : m.page? (pageOf (virtToPhys addr)) = some e) (v : Quad) :
    m.write w addr v = m.writePage e addr (leBytes w.size v.toNat) := by
  unfold write writeInPage
  dsimp only
  rw [if_pos inside, found]

theorem write_unmapped (unmapped : m.page? (pageOf (virtToPhys addr)) = none) (v : Quad) :
    m.write w addr v = m.writeDevice addr w.size (w.truncate v) := by
  unfold write
  dsimp only
  rw [if_pos inside, unmapped]

end

/-! ## The same contents -/

/-- Two memories that differ at most in what is known of code. -/
structure SameContents (m m' : Memory) : Prop where
  frames : m'.frames = m.frames
  used : m'.used = m.used
  regions : m'.regions = m.regions
  devices : m'.devices = m.devices
  board : m'.board = m.board
  past : m'.past = m.past
  store : m'.store = m.store
  deviceEvents : m'.deviceEvents = m.deviceEvents

namespace SameContents

theorem refl (m : Memory) : SameContents m m := ⟨rfl, rfl, rfl, rfl, rfl, rfl, rfl, rfl⟩

section
variable {m m' m'' : Memory} (h : SameContents m m')
include h

theorem symm : SameContents m' m :=
  ⟨h.frames.symm, h.used.symm, h.regions.symm, h.devices.symm, h.board.symm, h.past.symm, h.store.symm,
    h.deviceEvents.symm⟩

theorem trans (h' : SameContents m' m'') : SameContents m m'' :=
  ⟨h'.frames.trans h.frames, h'.used.trans h.used, h'.regions.trans h.regions,
    h'.devices.trans h.devices, h'.board.trans h.board, h'.past.trans h.past, h'.store.trans h.store,
    h'.deviceEvents.trans h.deviceEvents⟩

theorem page? (p : Nat) : m'.page? p = m.page? p := by
  unfold Memory.page?
  rw [h.regions]

theorem loadBytes (pos n : Nat) : m'.loadBytes pos n = m.loadBytes pos n := by
  unfold Memory.loadBytes storeByte
  rw [h.store]

theorem fetch (addr : Word) : m'.fetch addr = m.fetch addr := by
  unfold Memory.fetch
  simp only [h.page?, h.loadBytes]

theorem byte? : m'.byte? = m.byte? := by
  funext paddr
  unfold Memory.byte? storeByte
  rw [h.page?, h.store]

theorem storeBytes (pos : Nat) (data : List Byte) :
    SameContents (m.storeBytes pos data) (m'.storeBytes pos data) := by
  induction data generalizing m m' pos with
  | nil => exact h
  | cons b rest ih =>
    unfold Memory.storeBytes
    apply ih
    exact ⟨h.frames, h.used, h.regions, h.devices, h.board, h.past, congrArg (·.insert pos b) h.store,
      h.deviceEvents⟩

end

theorem markCode (m : Memory) (page : Nat) : SameContents m (m.markCode page).2 := by
  unfold Memory.markCode
  split
  · exact .refl m
  · exact ⟨rfl, rfl, rfl, rfl, rfl, rfl, rfl, rfl⟩

theorem invalidateCode (m : Memory) (page : Nat) : SameContents m (m.invalidateCode page) := by
  refine ⟨rfl, rfl, rfl, rfl, rfl, rfl, rfl, ?_⟩
  simp [Memory.deviceEvents, Memory.invalidateCode, Memory.record, Event.isDevice]

/-! ### Devices -/

section
variable {m m' : Memory} (h : SameContents m m')
include h

theorem writePage (e : PageEntry) (vaddr : Word) (data : List Byte) :
    (m'.writePage e vaddr data).1.isOk = (m.writePage e vaddr data).1.isOk ∧
      SameContents (m.writePage e vaddr data).2 (m'.writePage e vaddr data).2 := by
  have stored := h.storeBytes (e.position (pageOffset (virtToPhys vaddr))) data
  have told (m : Memory) := invalidateCode m (pageOf (virtToPhys vaddr))
  unfold Memory.writePage
  dsimp only
  split
  · exact ⟨rfl, h⟩
  · -- Whether the page is marked makes no difference to what is stored.
    split <;> split
    · exact ⟨rfl, (told _).symm.trans (stored.trans (told _))⟩
    · exact ⟨rfl, stored.trans (told _)⟩
    · exact ⟨rfl, (told _).symm.trans stored⟩
    · exact ⟨rfl, stored⟩

theorem deposit (d : Deposit) : SameContents (m.deposit d) (m'.deposit d) := by
  unfold Memory.deposit
  rw [h.page?]
  split
  · exact (h.writePage _ _ _).2
  · exact h

theorem foldl_deposit (stores : List Deposit) :
    SameContents (stores.foldl Memory.deposit m) (stores.foldl Memory.deposit m') := by
  induction stores generalizing m m' with
  | nil => exact h
  | cons d rest ih => exact ih (h.deposit d)

theorem moment (c : Call) : m'.moment c = m.moment c := congrArg (Moment.mk c) h.byte?

theorem reply (c : Call) : m'.reply c = m.reply c := by
  unfold Memory.reply
  rw [h.board, h.past, h.moment]

theorem called (c : Call) : SameContents (m.called c) (m'.called c) := by
  have events := h.deviceEvents
  have past : (m'.called c).past = (m.called c).past := by
    unfold Memory.called
    dsimp only
    rw [h.moment, h.past]
  refine ⟨h.frames, h.used, h.regions, h.devices, h.board, past, h.store, ?_⟩
  unfold Memory.deviceEvents at events ⊢
  simp only [Memory.called, Memory.record, Array.toList_push, List.filter_append, events]

theorem call (c : Call) : (m'.call c).1 = (m.call c).1 ∧ SameContents (m.call c).2 (m'.call c).2 := by
  unfold Memory.call
  rw [h.reply]
  exact ⟨rfl, (h.called c).foldl_deposit _⟩

theorem readDevice (addr : Word) (size : Nat) :
    (m'.readDevice addr size).1 = (m.readDevice addr size).1 ∧
      SameContents (m.readDevice addr size).2 (m'.readDevice addr size).2 := by
  unfold Memory.readDevice device?
  rw [h.devices]
  dsimp only
  split
  · exact ⟨congrArg Except.ok (h.call _).1, (h.call _).2⟩
  · exact ⟨rfl, h⟩

theorem writeDevice (addr : Word) (size : Nat) (v : Quad) :
    (m'.writeDevice addr size v).1 = (m.writeDevice addr size v).1 ∧
      SameContents (m.writeDevice addr size v).2 (m'.writeDevice addr size v).2 := by
  unfold Memory.writeDevice device?
  rw [h.devices]
  dsimp only
  split
  · exact ⟨rfl, (h.call _).2⟩
  · exact ⟨rfl, h⟩

end

section
variable {m m' : Memory} (h : SameContents m m') {w : Width} {addr : Word}
  (inside : inPage (virtToPhys addr) w.size = true)
include h inside

theorem read : (m'.read w addr).1 = (m.read w addr).1 ∧ SameContents (m.read w addr).2 (m'.read w addr).2 := by
  cases found : m.page? (pageOf (virtToPhys addr)) with
  | some e =>
    rw [read_mapped inside found, read_mapped inside ((h.page? _).trans found), h.loadBytes]
    exact ⟨rfl, h⟩
  | none =>
    obtain ⟨same, after⟩ := h.readDevice addr w.size
    rw [read_unmapped inside found, read_unmapped inside ((h.page? _).trans found), same]
    exact ⟨rfl, after⟩

theorem write (v : Quad) :
    (m'.write w addr v).1.isOk = (m.write w addr v).1.isOk ∧
      SameContents (m.write w addr v).2 (m'.write w addr v).2 := by
  cases found : m.page? (pageOf (virtToPhys addr)) with
  | some e =>
    rw [write_mapped inside found, write_mapped inside ((h.page? _).trans found)]
    exact h.writePage e addr _
  | none =>
    obtain ⟨same, after⟩ := h.writeDevice addr w.size (w.truncate v)
    rw [write_unmapped inside found, write_unmapped inside ((h.page? _).trans found), same]
    exact ⟨rfl, after⟩

end

end SameContents

end Memory

end EmotionEngine
