import EmotionEngine.Proofs.Memory.Report

/-!
Which accesses succeed. A byte can be read where RAM, ROM or a device is, and written where RAM or a device
is. An access succeeds exactly if each of its bytes can be read or written, with one exception: an access
that begins on a device and goes beyond the end of its range, on the same page (`Memory.Overruns`). The
device at the first byte takes such an access whole, whatever is at the other bytes, and is called for bytes
that are not its own.

1. Across pages, and for byte ranges, every byte is asked for by itself (`readBytes_isOk`, `write_isOk`).
2. Inside a page that is neither RAM nor ROM, the first byte decides (`readDevice_isOk`).
3. Calls of handlers stay inside the range but for such accesses (`apply_serves`).

Main statement: `accesses_valid`.
-/

namespace EmotionEngine

/-! ## Bytes -/

namespace Memory

/-- Whether the byte at an address can be written. -/
def isWritable (m : Memory) (vaddr : Word) : Bool :=
  match m.page? (pageOf (virtToPhys vaddr)) with
  | some e => !e.readOnly
  | none => (m.device? (virtToPhys vaddr)).isSome

/-- The access begins on a device and goes beyond the end of its range, on the same page. -/
def Overruns (m : Memory) (w : Width) (vaddr : Word) : Prop :=
  inPage (virtToPhys vaddr) w.size = true ∧
    ∃ r, m.device? (virtToPhys vaddr) = some r ∧ r.base + r.size < virtToPhys vaddr + w.size

theorem isWritable_iff (m : Memory) (vaddr : Word) : m.isWritable vaddr = true ↔ m.flat.refusal vaddr = none := by
  unfold isWritable Flat.refusal flat
  cases found : m.page? (pageOf (virtToPhys vaddr)) with
  | none => simp [found, Option.isSome_iff_ne_none]
  | some e => simp [found]

theorem device?_bounds {m : Memory} {paddr : Nat} {r : DeviceRange} (found : m.device? paddr = some r) :
    r.base ≤ paddr ∧ paddr < r.base + r.size := by
  have contains := List.find?_some found
  simpa [DeviceRange.contains] using contains

theorem device?_of_bounds {m : Memory} {paddr : Nat} {r : DeviceRange} (mem : r ∈ m.devices)
    (bounds : r.base ≤ paddr ∧ paddr < r.base + r.size) : (m.device? paddr).isSome = true := by
  rw [device?_isSome]
  exact ⟨r, mem, by simpa [DeviceRange.contains] using bounds⟩

theorem inPage_add {vaddr : Word} {n i : Nat} (inside : inPage (virtToPhys vaddr) n = true) (less : i < n) :
    pageOf (virtToPhys (vaddr + BitVec.ofNat 32 i)) = pageOf (virtToPhys vaddr) ∧
      virtToPhys (vaddr + BitVec.ofNat 32 i) = virtToPhys vaddr + i := by
  have room : pageOffset (virtToPhys vaddr) + n ≤ pageSize := of_decide_eq_true inside
  have bound : virtToPhys vaddr < physSpace := Nat.mod_lt _ (by decide)
  refine ⟨(add_inPage vaddr i (by omega)).1, ?_⟩
  rw [virtToPhys_add]
  unfold pageOffset at room
  rw [show pageSize = 4096 from rfl, show physSpace = 536870912 from rfl] at *
  omega

/-- Away from RAM and ROM the first byte of an access decides: either the others are of devices too, or the
access goes beyond its device. -/
theorem device?_first {m : Memory} {w : Width} {vaddr : Word} (inside : inPage (virtToPhys vaddr) w.size = true) :
    (m.device? (virtToPhys vaddr)).isSome = true ↔
      (∀ i < w.size, (m.device? (virtToPhys (vaddr + BitVec.ofNat 32 i))).isSome = true) ∨ m.Overruns w vaddr := by
  constructor
  · intro first
    obtain ⟨r, found⟩ := Option.isSome_iff_exists.1 first
    obtain ⟨low, -⟩ := device?_bounds found
    by_cases short : r.base + r.size < virtToPhys vaddr + w.size
    · exact .inr ⟨inside, r, found, short⟩
    · left
      intro i less
      rw [(inPage_add inside less).2]
      exact device?_of_bounds (List.mem_of_find?_eq_some found) ⟨by omega, by omega⟩
  · rintro (all | ⟨-, r, found, -⟩)
    · simpa using all 0 w.size_pos
    · rw [found]
      rfl

end Memory

namespace Flat

/-- A write goes through exactly if no byte is refused. -/
theorem store_isOk (f : Flat) (vaddr : Word) (data : List Byte) :
    (f.store vaddr data).1 = .ok () ↔ ∀ i < data.length, f.refusal (vaddr + BitVec.ofNat 32 i) = none := by
  induction data generalizing f vaddr with
  | nil => simp [store]
  | cons b rest ih =>
    have first : vaddr + BitVec.ofNat 32 0 = vaddr := BitVec.add_zero vaddr
    unfold store
    cases refused : f.refusal vaddr with
    | some e =>
      simp only [reduceCtorEq, false_iff, not_forall]
      exact ⟨0, Nat.succ_pos _, by rw [first, refused]; simp⟩
    | none =>
      dsimp only
      rw [ih]
      simp only [(f.goes_accept vaddr b).refusal, next_addr, List.length_cons]
      constructor
      · intro later i less
        cases i with
        | zero => rw [first, refused]
        | succ i => exact later i (by omega)
      · exact fun all i less => all (i + 1) (by omega)

end Flat

namespace Memory

/-! ## Accesses -/

theorem readByte_isOk (m : Memory) (vaddr : Word) : (m.readByte vaddr).1.isOk = m.isMapped vaddr := by
  unfold readByte isMapped
  dsimp only
  cases m.page? (pageOf (virtToPhys vaddr)) with
  | some e => rfl
  | none =>
    unfold readDevice
    dsimp only
    cases m.device? (virtToPhys vaddr) <;> rfl

theorem readBytes_isOk (m : Memory) (vaddr : Word) (n : Nat) :
    (m.readBytes vaddr n).1.isOk = true ↔ ∀ i < n, m.isMapped (vaddr + BitVec.ofNat 32 i) = true := by
  induction n generalizing m vaddr with
  | zero => simp [readBytes, Except.isOk, Except.toBool]
  | succ n ih =>
    have here : vaddr + BitVec.ofNat 32 0 = vaddr := BitVec.add_zero vaddr
    have first := m.readByte_isOk vaddr
    have kept := (m.pieces_readByte vaddr).kept
    unfold readBytes
    generalize m.readByte vaddr = r at first kept ⊢
    obtain ⟨e | b, m'⟩ := r
    · constructor
      · intro ok
        cases ok
      · intro all
        have mapped := all 0 (Nat.succ_pos n)
        rw [here, ← first] at mapped
        cases mapped
    · have same (a : Word) : m'.isMapped a = m.isMapped a := by
        unfold isMapped
        dsimp only at kept ⊢
        rw [kept.page?, kept.device?]
      have rest := ih m' (vaddr + 1)
      simp only [same, Flat.next_addr] at rest
      have step : (∀ i < n + 1, m.isMapped (vaddr + BitVec.ofNat 32 i) = true) ↔
          ∀ i < n, m.isMapped (vaddr + BitVec.ofNat 32 (i + 1)) = true := by
        constructor
        · exact fun all i less => all (i + 1) (Nat.succ_lt_succ less)
        · intro later i less
          cases i with
          | zero => rw [here, ← first]; rfl
          | succ i => exact later i (Nat.lt_of_succ_lt_succ less)
      rw [step, ← rest]
      dsimp only
      generalize m'.readBytes (vaddr + 1) n = r
      obtain ⟨e | bs, m''⟩ := r <;> exact Iff.rfl

section
variable {m : Memory} {w : Width} {vaddr : Word}

theorem not_overruns (laid : m.Laid) {e : PageEntry} (found : m.page? (pageOf (virtToPhys vaddr)) = some e) :
    ¬m.Overruns w vaddr := by
  rintro ⟨-, r, device, -⟩
  have unmapped := laid.apart (a := virtToPhys vaddr) (by rw [device]; rfl)
  rw [found] at unmapped
  cases unmapped

theorem readDevice_isOk (m : Memory) (vaddr : Word) (n : Nat) :
    (m.readDevice vaddr n).1.isOk = (m.device? (virtToPhys vaddr)).isSome := by
  unfold readDevice
  dsimp only
  cases m.device? (virtToPhys vaddr) <;> rfl

theorem read_isOk : (m.read w vaddr).1.isOk = true ↔
    (∀ i < w.size, m.isMapped (vaddr + BitVec.ofNat 32 i) = true) ∨ m.Overruns w vaddr := by
  by_cases inside : inPage (virtToPhys vaddr) w.size = true
  · cases found : m.page? (pageOf (virtToPhys vaddr)) with
    | some e =>
      rw [read_mapped inside found]
      refine iff_of_true rfl (.inl fun i less => ?_)
      unfold isMapped
      dsimp only
      rw [(inPage_add inside less).1, found]
      rfl
    | none =>
      rw [read_unmapped inside found]
      have mapped (i : Nat) (less : i < w.size) : m.isMapped (vaddr + BitVec.ofNat 32 i) =
          (m.device? (virtToPhys (vaddr + BitVec.ofNat 32 i))).isSome := by
        unfold isMapped
        dsimp only
        rw [(inPage_add inside less).1, found]
        rfl
      have answered : ((m.readDevice vaddr w.size).1.map w.truncate).isOk =
          (m.device? (virtToPhys vaddr)).isSome := by
        rw [← m.readDevice_isOk vaddr w.size]
        cases (m.readDevice vaddr w.size).1 <;> rfl
      dsimp only
      rw [answered, device?_first inside]
      simp +contextual only [mapped]
  · have crossing : ¬m.Overruns w vaddr := fun overruns => inside overruns.1
    rw [or_iff_left crossing, ← readBytes_isOk]
    unfold read
    dsimp only
    rw [if_neg inside]
    generalize m.readBytes vaddr w.size = r
    obtain ⟨e | bs, m'⟩ := r <;> exact Iff.rfl

/-- A typed write. -/
theorem write_isOk (laid : m.Laid) (v : Quad) : (m.write w vaddr v).1.isOk = true ↔
    (∀ i < w.size, m.isWritable (vaddr + BitVec.ofNat 32 i) = true) ∨ m.Overruns w vaddr := by
  have shown := (write_flat laid w vaddr v).eq
  have same : (m.write w vaddr v).1.isOk = true ↔ (m.flat.write w vaddr v).1 = .ok () := by
    rw [shown]
    unfold plain
    cases (m.write w vaddr v).1 with
    | error e => simp [Except.map, Except.isOk, Except.toBool]
    | ok effect => simp [Except.map, Except.isOk, Except.toBool]
  rw [same]
  unfold Flat.write
  split
  · next device =>
    obtain ⟨inside, unmapped⟩ := whole_iff.1 device
    have writable (i : Nat) (less : i < w.size) : m.isWritable (vaddr + BitVec.ofNat 32 i) =
        (m.device? (virtToPhys (vaddr + BitVec.ofNat 32 i))).isSome := by
      unfold isWritable
      rw [(inPage_add inside less).1, unmapped]
    simp +contextual only [writable]
    rw [← device?_first inside]
    unfold Flat.writeDevice flat
    dsimp only
    cases m.device? (virtToPhys vaddr) <;> simp
  · next other =>
    have inside : ¬m.Overruns w vaddr := by
      intro overruns
      cases found : m.page? (pageOf (virtToPhys vaddr)) with
      | some e => exact not_overruns laid found overruns
      | none => exact other (whole_iff.2 ⟨overruns.1, found⟩)
    rw [or_iff_left inside, Flat.store_isOk, length_leBytes]
    simp only [isWritable_iff]

end

/-! ## Calls of handlers -/

/-- The event, if it is a call of a handler, is for bytes of the range that the handler has. -/
def Fits (m : Memory) : Event → Prop
  | .deviceRead device offset size => ∃ paddr r, m.device? paddr = some r ∧ r.device = device ∧
      offset = paddr - r.base ∧ offset + size ≤ r.size
  | .deviceWrite device offset size _ => ∃ paddr r, m.device? paddr = some r ∧ r.device = device ∧
      offset = paddr - r.base ∧ offset + size ≤ r.size
  | .codeWritten _ => True

/-- What became of a memory by accesses that call handlers only for bytes of their ranges. -/
structure Serves (m m' : Memory) : Prop where
  devices : m'.devices = m.devices
  told : ∃ told, m'.events.toList = m.events.toList ++ told ∧ ∀ e ∈ told, m.Fits e

theorem fits_congr {m m' : Memory} (devices : m'.devices = m.devices) (e : Event) : m'.Fits e ↔ m.Fits e := by
  have same (paddr : Nat) : m'.device? paddr = m.device? paddr := by
    unfold device?
    rw [devices]
  cases e <;> simp only [Fits, same]

namespace Serves

theorem refl (m : Memory) : Serves m m := ⟨rfl, [], (List.append_nil _).symm, nofun⟩

theorem trans {m m' m'' : Memory} (h : Serves m m') (h' : Serves m' m'') : Serves m m'' := by
  obtain ⟨devices, told, events, fit⟩ := h
  obtain ⟨devices', told', events', fit'⟩ := h'
  refine ⟨devices'.trans devices, told ++ told', by rw [events', events, List.append_assoc], ?_⟩
  intro e mem
  rcases List.mem_append.1 mem with first | later
  · exact fit e first
  · exact (fits_congr devices e).1 (fit' e later)

theorem of_quiet {m m' : Memory} (devices : m'.devices = m.devices) (events : m'.events = m.events) : Serves m m' :=
  ⟨devices, [], by rw [events, List.append_nil], nofun⟩

theorem called {m : Memory} {c : Call} (fits : m.Fits c.event) : Serves m (m.called c) := by
  refine ⟨rfl, [c.event], Array.toList_push, ?_⟩
  intro e mem
  rw [List.mem_singleton.1 mem]
  exact fits

theorem writePage (m : Memory) (e : PageEntry) (vaddr : Word) (data : List Byte) :
    Serves m (m.writePage e vaddr data).2 := by
  obtain ⟨store, eq⟩ := m.storeBytes_eq (e.position (pageOffset (virtToPhys vaddr))) data
  unfold Memory.writePage
  dsimp only
  rw [eq]
  split
  · exact .refl m
  · split
    · exact ⟨rfl, [.codeWritten (pageOf (virtToPhys vaddr))], Array.toList_push, by simp [Fits]⟩
    · exact .of_quiet rfl rfl

theorem foldl_deposit (m : Memory) (stores : List Deposit) : Serves m (stores.foldl deposit m) := by
  induction stores generalizing m with
  | nil => exact .refl m
  | cons d rest ih =>
    have first : Serves m (m.deposit d) := by
      unfold deposit
      split
      · exact writePage m _ d.vaddr d.data
      · exact .refl m
    exact first.trans (ih (m.deposit d))

theorem call {m : Memory} {c : Call} (fits : m.Fits c.event) : Serves m (m.call c).2 :=
  (called fits).trans (foldl_deposit _ _)

theorem markCode (m : Memory) (page : Nat) : Serves m (m.markCode page).2 := by
  unfold Memory.markCode
  split
  · exact .refl m
  · exact .of_quiet rfl rfl

section
variable {m : Memory} {vaddr : Word} {n : Nat}
  (within : ∀ r, m.device? (virtToPhys vaddr) = some r → virtToPhys vaddr + n ≤ r.base + r.size)
include within

theorem readDevice : Serves m (m.readDevice vaddr n).2 := by
  unfold Memory.readDevice
  dsimp only
  split
  · next r found =>
    have := within r found
    obtain ⟨low, -⟩ := device?_bounds found
    exact .call ⟨_, r, found, rfl, rfl, by omega⟩
  · exact .refl m

theorem writeDevice (v : Quad) : Serves m (m.writeDevice vaddr n v).2 := by
  unfold Memory.writeDevice
  dsimp only
  split
  · next r found =>
    have := within r found
    obtain ⟨low, -⟩ := device?_bounds found
    exact .call ⟨_, r, found, rfl, rfl, by omega⟩
  · exact .refl m

end

theorem within_byte {m : Memory} {vaddr : Word} (r : DeviceRange) (found : m.device? (virtToPhys vaddr) = some r) :
    virtToPhys vaddr + 1 ≤ r.base + r.size := (device?_bounds found).2

theorem readByte (m : Memory) (vaddr : Word) : Serves m (m.readByte vaddr).2 := by
  have device : Serves m (m.readDevice vaddr 1).2 := readDevice within_byte
  unfold Memory.readByte
  dsimp only
  split
  · exact .refl m
  · split <;> next e => rwa [e] at device

theorem readBytes (m : Memory) (vaddr : Word) (n : Nat) : Serves m (m.readBytes vaddr n).2 := by
  induction n generalizing m vaddr with
  | zero => exact .refl m
  | succ n ih =>
    have first := readByte m vaddr
    unfold Memory.readBytes
    split
    · next e => rwa [e] at first
    · next b m' e =>
      rw [e] at first
      have rest := first.trans (ih m' (vaddr + 1))
      split <;> next e' => rwa [e'] at rest

theorem writeDeviceBytes (m : Memory) (vaddr : Word) (data : List Byte) :
    Serves m (m.writeDeviceBytes vaddr data).2 := by
  induction data generalizing m vaddr with
  | nil => exact .refl m
  | cons b rest ih =>
    have first : Serves m (m.writeDevice vaddr 1 (b.setWidth 128)).2 := writeDevice within_byte _
    unfold Memory.writeDeviceBytes
    split
    · next e => rwa [e] at first
    · next m' e =>
      rw [e] at first
      exact first.trans (ih m' (vaddr + 1))

theorem writeInPage (m : Memory) (vaddr : Word) (data : List Byte) : Serves m (m.writeInPage vaddr data).2 := by
  unfold Memory.writeInPage
  split
  · exact writeDeviceBytes m vaddr data
  · next e found => exact writePage m e vaddr data

theorem writeBytes (m : Memory) (vaddr : Word) (data : List Byte) : Serves m (m.writeBytes vaddr data).2 := by
  fun_induction Memory.writeBytes m vaddr data with
  | case1 m vaddr => exact .refl m
  | case2 m vaddr data nonempty n e m' written =>
    have first := writeInPage m vaddr (data.take n)
    rwa [written] at first
  | case3 m vaddr data nonempty n effect m' written r m'' rest ih
  | case4 m vaddr data nonempty n effect m' written r m'' rest ih =>
    have first := writeInPage m vaddr (data.take n)
    rw [written] at first
    rw [rest] at ih
    exact first.trans ih

section
variable {m : Memory} {w : Width} {vaddr : Word} (short : ¬m.Overruns w vaddr)
include short

theorem within_access (inside : inPage (virtToPhys vaddr) w.size = true) (r : DeviceRange)
    (found : m.device? (virtToPhys vaddr) = some r) : virtToPhys vaddr + w.size ≤ r.base + r.size :=
  Nat.le_of_not_lt fun beyond => short ⟨inside, r, found, beyond⟩

theorem read : Serves m (m.read w vaddr).2 := by
  by_cases inside : inPage (virtToPhys vaddr) w.size = true
  · cases found : m.page? (pageOf (virtToPhys vaddr)) with
    | some e =>
      rw [read_mapped inside found]
      exact .refl m
    | none =>
      rw [read_unmapped inside found]
      exact readDevice (within_access short inside)
  · have bytes := readBytes m vaddr w.size
    unfold Memory.read
    dsimp only
    rw [if_neg inside]
    split <;> next e => rwa [e] at bytes

theorem write (v : Quad) : Serves m (m.write w vaddr v).2 := by
  unfold Memory.write
  dsimp only
  split
  · next inside =>
    split
    · exact writeInPage m vaddr _
    · exact writeDevice (within_access short inside) _
  · exact writeBytes m vaddr _

end

end Serves

/-- The call is an access that goes beyond its device. -/
def Op.Overruns (m : Memory) : Op → Prop
  | .read w vaddr => m.Overruns w vaddr
  | .write w vaddr _ => m.Overruns w vaddr
  | _ => False

theorem settle_events {m : Memory} {r : Except MemError Memory} (quiet : ∀ m', r = .ok m' → m'.events = m.events) :
    (settle m r).2.events = m.events := by
  cases r with
  | error e => rfl
  | ok m' => exact quiet m' rfl

/-- Whatever is called, handlers are called for bytes of their ranges only, unless an access goes beyond its
device. -/
theorem apply_serves {m : Memory} (laid : m.Laid) {op : Op} (short : ¬op.Overruns m) :
    ∃ told, (m.apply op).2.events.toList = m.events.toList ++ told ∧ ∀ e ∈ told, m.Fits e := by
  have quiet {m' : Memory} (events : m'.events = m.events) :
      ∃ told, m'.events.toList = m.events.toList ++ told ∧ ∀ e ∈ told, m.Fits e :=
    ⟨[], by rw [events, List.append_nil], nofun⟩
  cases op with
  | mapRam base size => exact quiet (settle_events fun m' mapped => (evolves_mapRam laid.sound mapped).2)
  | mapRom base image => exact quiet (settle_events fun m' mapped => (evolves_mapRom laid.sound mapped).2)
  | mapDevice base size device =>
    exact quiet (settle_events fun m' mapped => (evolves_mapDevice laid.sound mapped).2)
  | write w vaddr v => exact (Serves.write short v).told
  | writeBytes vaddr data => exact (Serves.writeBytes m vaddr data).told
  | markCode page => exact (Serves.markCode m page).told
  | read w vaddr => exact (Serves.read short).told
  | readBytes vaddr n => exact (Serves.readBytes m vaddr n).told

/-- An access that goes beyond its device succeeds, with one call for bytes that the device does not have. -/
theorem overruns_succeeds {m : Memory} (laid : m.Laid) {w : Width} {vaddr : Word} (overruns : m.Overruns w vaddr)
    (v : Quad) : ∃ r offset, m.device? (virtToPhys vaddr) = some r ∧ offset = virtToPhys vaddr - r.base ∧
      r.size < offset + w.size ∧
      (m.read w vaddr).1.isOk = true ∧ (m.read w vaddr).2 = (m.call (.read r.device offset w.size)).2 ∧
      (m.write w vaddr v).1 = .ok .plain ∧
      (m.write w vaddr v).2 = (m.call (.write r.device offset w.size (w.truncate v))).2 := by
  have read := read_isOk.2 (.inr overruns)
  cases found : m.page? (pageOf (virtToPhys vaddr)) with
  | some e => exact absurd overruns (not_overruns laid found)
  | none =>
    obtain ⟨inside, r, device, beyond⟩ := overruns
    obtain ⟨low, -⟩ := device?_bounds device
    refine ⟨r, _, device, rfl, by omega, read, ?_⟩
    rw [read_unmapped inside found, write_unmapped inside found]
    unfold readDevice writeDevice
    dsimp only
    rw [device]
    exact ⟨rfl, rfl, rfl⟩

/-- Which accesses succeed, and what handlers are called for. In every memory that calls can lead to, a typed
read succeeds exactly if each byte is mapped, and a typed write exactly if each byte is RAM or a device's, but for
accesses that begin on a device and go beyond the end of its range on the same page: these always succeed,
with one call of the handler for bytes beyond its range. No other call, typed or not, calls a handler for a
byte beyond its range. -/
theorem accesses_valid (size : Nat) (board : Board) (ops : List Op) :
    let m := (session apply (empty size board) ops).2
    (∀ w vaddr, (m.read w vaddr).1.isOk = true ↔
      (∀ i < w.size, m.isMapped (vaddr + BitVec.ofNat 32 i) = true) ∨ m.Overruns w vaddr) ∧
    (∀ w vaddr v, (m.write w vaddr v).1.isOk = true ↔
      (∀ i < w.size, m.isWritable (vaddr + BitVec.ofNat 32 i) = true) ∨ m.Overruns w vaddr) ∧
    (∀ op : Op, ¬op.Overruns m → ∃ told, (m.apply op).2.events.toList = m.events.toList ++ told ∧
      ∀ e ∈ told, m.Fits e) ∧
    ∀ w vaddr v, m.Overruns w vaddr → ∃ r offset, m.device? (virtToPhys vaddr) = some r ∧
      offset = virtToPhys vaddr - r.base ∧ r.size < offset + w.size ∧
      (m.read w vaddr).2 = (m.call (.read r.device offset w.size)).2 ∧
      (m.write w vaddr v).2 = (m.call (.write r.device offset w.size (w.truncate v))).2 := by
  have laid := (session_view (laid_empty size board) ops).2
  refine ⟨fun w vaddr => read_isOk, fun w vaddr v => write_isOk laid v, fun op short => apply_serves laid short, ?_⟩
  intro w vaddr v overruns
  obtain ⟨r, offset, device, place, beyond, -, read, -, write⟩ := overruns_succeeds laid overruns v
  exact ⟨r, offset, device, place, beyond, read, write⟩

/-- A device of two bytes is read with a width of four. Two of the bytes are not mapped, and the read succeeds;
the handler is called for four bytes at offset 0. -/
theorem read_beyond_device :
    let m := (session apply (empty 4096) [.mapDevice 0x10000000 2 ⟨0⟩]).2
    m.isMapped 0x10000002 = false ∧ m.isMapped 0x10000003 = false ∧
      (m.read .word 0x10000000).1.toOption = some 4 ∧
      (m.read .word 0x10000000).2.events = #[.deviceRead ⟨0⟩ 0 4] := by
  decide +kernel

end Memory

end EmotionEngine
