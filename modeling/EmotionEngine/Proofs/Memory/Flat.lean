import EmotionEngine.Memory.Access
import EmotionEngine.Memory.Map

/-!
Memory without pages: every physical address by itself holds a byte of RAM or ROM, belongs to a device,
or is free. Mapping fills a range of free addresses. Reading and writing go byte by byte from a virtual address,
which stands for the physical address of its low 29 bits, up to the first byte that is refused; only where nothing
but devices can be does a device take a typed access whole. A device may store to RAM while it is called.

There is no backing store here, no frame, no mark and no version; a store that runs out is a number of
spare bytes.

Main statement: a write puts all bytes, or those before the address that it reports, if the devices that it calls
store nothing themselves (`Flat.store_ok`, `Flat.store_error`).
-/

namespace EmotionEngine

/-- A byte of RAM or ROM. -/
structure Cell where
  byte : Byte
  readOnly : Bool
  deriving DecidableEq

/-- What stands at each physical address. -/
@[ext]
structure Flat where
  cell : Nat → Option Cell
  device : Nat → Option DeviceRange
  board : Board
  /-- The calls of devices so far, the last one first. -/
  past : List Moment
  /-- Bytes that are left for RAM and ROM. -/
  spare : Nat

namespace Flat

def blank (spare : Nat) (board : Board) : Flat :=
  { cell := fun _ => none, device := fun _ => none, board, past := [], spare }

/-! ## Mapping -/

/-- Whether RAM, ROM or a device is at an address. -/
def taken (f : Flat) (paddr : Nat) : Bool := (f.cell paddr).isSome || (f.device paddr).isSome

def meets (f : Flat) (base size : Nat) : Bool := (List.range size).any fun i => f.taken (base + i)

/-- Map whole pages of RAM or ROM, with the contents given by offset. -/
def map (f : Flat) (base size : Nat) (readOnly : Bool) (contents : Nat → Byte) : Except MemError Flat :=
  if size = 0 ∨ base % pageSize ≠ 0 ∨ size % pageSize ≠ 0 ∨ physSpace < base + size then
    .error (.badRegion base size)
  else if f.meets base size then .error (.overlap base size)
  else if f.spare < size then .error (.outOfBacking size f.spare)
  else
    .ok { f with
      cell := fun a =>
        if base ≤ a ∧ a < base + size then some { byte := contents (a - base), readOnly } else f.cell a
      spare := f.spare - size }

def mapDevice (f : Flat) (base size : Nat) (device : Device) : Except MemError Flat :=
  if size = 0 ∨ physSpace < base + size then .error (.badRegion base size)
  else if f.meets base size then .error (.overlap base size)
  else
    .ok { f with
      device := fun a => if base ≤ a ∧ a < base + size then some { base, size, device } else f.device a }

/-! ## Devices -/

def set (f : Flat) (paddr : Nat) (b : Byte) : Flat :=
  { f with
    cell := fun a => if a = paddr then (f.cell a).map fun c => { c with byte := b } else f.cell a }

/-- Replace the bytes of all cells from a virtual address on; addresses wrap. -/
def put (f : Flat) (vaddr : Word) : List Byte → Flat
  | [] => f
  | b :: rest => (f.set (virtToPhys vaddr) b).put (vaddr + 1) rest

/-- A device stores to RAM; elsewhere nothing happens. -/
def deposit (f : Flat) (d : Deposit) : Flat :=
  match f.cell (virtToPhys d.vaddr) with
  | some c => if c.readOnly then f else f.put d.vaddr d.data
  | none => f

def moment (f : Flat) (c : Call) : Moment := { call := c, byte? := fun a => (f.cell a).map Cell.byte }

/-- What the device will do that is called now. -/
def reply (f : Flat) (c : Call) : Reply := f.board.reply f.past (f.moment c)

def called (f : Flat) (c : Call) : Flat := { f with past := f.moment c :: f.past }

def call (f : Flat) (c : Call) : Quad × Flat :=
  ((f.reply c).value, (f.reply c).stores.foldl deposit (f.called c))

def readDevice (f : Flat) (vaddr : Word) (size : Nat) : Except MemError Quad × Flat :=
  match f.device (virtToPhys vaddr) with
  | some r =>
    let (v, f) := f.call (.read r.device (virtToPhys vaddr - r.base) size)
    (.ok v, f)
  | none => (.error (.invalidAddress vaddr), f)

def writeDevice (f : Flat) (vaddr : Word) (size : Nat) (v : Quad) : Except MemError Unit × Flat :=
  match f.device (virtToPhys vaddr) with
  | some r => (.ok (), (f.call (.write r.device (virtToPhys vaddr - r.base) size v)).2)
  | none => (.error (.invalidAddress vaddr), f)

/-! ## Writing -/

/-- Why the byte at an address cannot be written, unless it can. -/
def refusal (f : Flat) (vaddr : Word) : Option MemError :=
  match f.cell (virtToPhys vaddr) with
  | some c => if c.readOnly then some (.readOnly vaddr) else none
  | none => if (f.device (virtToPhys vaddr)).isSome then none else some (.invalidAddress vaddr)

def accept (f : Flat) (vaddr : Word) (b : Byte) : Flat :=
  match f.cell (virtToPhys vaddr) with
  | some _ => f.set (virtToPhys vaddr) b
  | none => (f.writeDevice vaddr 1 (b.setWidth 128)).2

/-- Write byte by byte, up to the first byte that cannot be written. -/
def store (f : Flat) (vaddr : Word) : List Byte → Except MemError Unit × Flat
  | [] => (.ok (), f)
  | b :: rest =>
    match f.refusal vaddr with
    | some e => (.error e, f)
    | none => (f.accept vaddr b).store (vaddr + 1) rest

/-- A device can take a typed access whole, whatever follows its first byte. -/
def Whole (f : Flat) (w : Width) (vaddr : Word) : Prop :=
  Memory.inPage (virtToPhys vaddr) w.size ∧ f.cell (virtToPhys vaddr) = none

instance (f : Flat) (w : Width) (vaddr : Word) : Decidable (f.Whole w vaddr) :=
  inferInstanceAs (Decidable (_ ∧ _))

def write (f : Flat) (w : Width) (vaddr : Word) (v : Quad) : Except MemError Unit × Flat :=
  if f.Whole w vaddr then f.writeDevice vaddr w.size (w.truncate v)
  else f.store vaddr (leBytes w.size v.toNat)

/-! ## Reading -/

def readByte (f : Flat) (vaddr : Word) : Except MemError Byte × Flat :=
  match f.cell (virtToPhys vaddr) with
  | some c => (.ok c.byte, f)
  | none => ((f.readDevice vaddr 1).1.map (·.setWidth 8), (f.readDevice vaddr 1).2)

def load (f : Flat) (vaddr : Word) : Nat → Except MemError (List Byte) × Flat
  | 0 => (.ok [], f)
  | n + 1 =>
    match f.readByte vaddr with
    | (.error e, f) => (.error e, f)
    | (.ok b, f) => ((f.load (vaddr + 1) n).1.map (b :: ·), (f.load (vaddr + 1) n).2)

def read (f : Flat) (w : Width) (vaddr : Word) : Except MemError Quad × Flat :=
  if f.Whole w vaddr then ((f.readDevice vaddr w.size).1.map w.truncate, (f.readDevice vaddr w.size).2)
  else ((f.load vaddr w.size).1.map fun bs => BitVec.ofNat 128 (ofLeBytes bs), (f.load vaddr w.size).2)

/-- The bytes from a virtual address on, if all of them are RAM or ROM; addresses wrap. -/
def bytes? (f : Flat) (vaddr : Word) : Nat → Option (List Byte)
  | 0 => some []
  | n + 1 =>
    match f.cell (virtToPhys vaddr), f.bytes? (vaddr + 1) n with
    | some c, some rest => some (c.byte :: rest)
    | _, _ => none

theorem bytes?_succ {f : Flat} {vaddr : Word} {n : Nat} {bs : List Byte}
    (h : f.bytes? vaddr (n + 1) = some bs) :
    ∃ c rest, f.cell (virtToPhys vaddr) = some c ∧ f.bytes? (vaddr + 1) n = some rest ∧
      bs = c.byte :: rest := by
  unfold bytes? at h
  split at h
  · next c rest cell later =>
    cases h
    exact ⟨c, rest, cell, later, rfl⟩
  · cases h

/-- Bytes of RAM and ROM are read without calling a device. -/
theorem load_of_bytes? {f : Flat} {vaddr : Word} {n : Nat} {bs : List Byte} (h : f.bytes? vaddr n = some bs) :
    f.load vaddr n = (.ok bs, f) := by
  induction n generalizing vaddr bs with
  | zero =>
    cases h
    rfl
  | succ n ih =>
    obtain ⟨c, rest, cell, later, rfl⟩ := bytes?_succ h
    have first : f.readByte vaddr = (.ok c.byte, f) := by
      unfold readByte
      rw [cell]
    rw [load, first]
    dsimp only
    rw [ih later]
    rfl

/-! ## What a write does -/

/-- Where nothing but a device can be, there is no byte to replace. -/
theorem set_of_none {f : Flat} {paddr : Nat} (h : f.cell paddr = none) (b : Byte) :
    f.set paddr b = f := by
  refine Flat.ext ?_ rfl rfl rfl rfl
  funext a
  unfold set
  dsimp only
  split
  · next same =>
    rw [same, h]
    rfl
  · rfl

/-- The same addresses hold RAM, and the same ROM. -/
def SameKind (cell cell' : Nat → Option Cell) : Prop :=
  ∀ a, (cell' a).map Cell.readOnly = (cell a).map Cell.readOnly

theorem sameKind_set (f : Flat) (paddr : Nat) (b : Byte) : SameKind f.cell (f.set paddr b).cell := by
  intro a
  unfold set
  dsimp only
  split <;> cases f.cell a <;> rfl

theorem put_eq (f : Flat) (vaddr : Word) (data : List Byte) :
    ∃ cell, SameKind f.cell cell ∧ f.put vaddr data = { f with cell } := by
  induction data generalizing f vaddr with
  | nil => exact ⟨f.cell, fun _ => rfl, rfl⟩
  | cons b rest ih =>
    obtain ⟨cell, kind, eq⟩ := ih (f.set (virtToPhys vaddr) b) (vaddr + 1)
    exact ⟨cell, fun a => (kind a).trans (f.sameKind_set _ b a), eq⟩

theorem foldl_deposit_eq (f : Flat) (stores : List Deposit) :
    ∃ cell, SameKind f.cell cell ∧ stores.foldl deposit f = { f with cell } := by
  induction stores generalizing f with
  | nil => exact ⟨f.cell, fun _ => rfl, rfl⟩
  | cons d rest ih =>
    obtain ⟨cell, kind, first⟩ : ∃ cell, SameKind f.cell cell ∧ f.deposit d = { f with cell } := by
      unfold deposit
      split
      · split
        · exact ⟨f.cell, fun _ => rfl, rfl⟩
        · exact f.put_eq d.vaddr d.data
      · exact ⟨f.cell, fun _ => rfl, rfl⟩
    obtain ⟨cell', kind', later⟩ := ih (f.deposit d)
    rw [first] at kind' later
    exact ⟨cell', fun a => (kind' a).trans (kind a), by rw [List.foldl_cons, first, later]⟩

theorem call_past (f : Flat) (c : Call) : (f.call c).2.past = f.moment c :: f.past := by
  obtain ⟨cell, -, stored⟩ := foldl_deposit_eq (f.called c) (f.reply c).stores
  exact congrArg Flat.past stored

theorem suffix_call (f : Flat) (c : Call) : f.moment c :: f.past <:+ (f.call c).2.past :=
  ⟨[], (f.call_past c).symm⟩

/-- The calls that made `f'` of `f` have stored nothing. -/
def Calm (f f' : Flat) : Prop :=
  ∀ before now, f.past <:+ before → now :: before <:+ f'.past → (f.board.reply before now).stores = []

/-- Accesses only add calls and change bytes. -/
structure Goes (f f' : Flat) : Prop where
  past : f.past <:+ f'.past
  board : f'.board = f.board
  device : f'.device = f.device
  kind : SameKind f.cell f'.cell

theorem Goes.refl (f : Flat) : Goes f f := ⟨List.suffix_refl _, rfl, rfl, fun _ => rfl⟩

theorem Goes.trans {f f' f'' : Flat} (h : Goes f f') (h' : Goes f' f'') : Goes f f'' :=
  ⟨h.past.trans h'.past, h'.board.trans h.board, h'.device.trans h.device,
    fun a => (h'.kind a).trans (h.kind a)⟩

theorem Goes.refusal {f f' : Flat} (h : Goes f f') (vaddr : Word) : f'.refusal vaddr = f.refusal vaddr := by
  have kind := h.kind (virtToPhys vaddr)
  unfold Flat.refusal
  rw [h.device]
  cases cell : f.cell (virtToPhys vaddr) <;> cases cell' : f'.cell (virtToPhys vaddr) <;> simp_all

theorem goes_call (f : Flat) (c : Call) : Goes f (f.call c).2 := by
  obtain ⟨cell, kind, stored⟩ := foldl_deposit_eq (f.called c) (f.reply c).stores
  unfold call
  rw [stored]
  exact ⟨List.suffix_cons _ _, rfl, rfl, kind⟩

theorem goes_accept (f : Flat) (vaddr : Word) (b : Byte) : Goes f (f.accept vaddr b) := by
  unfold accept
  split
  · exact ⟨List.suffix_refl _, rfl, rfl, f.sameKind_set _ b⟩
  · unfold writeDevice
    split
    · exact f.goes_call _
    · exact .refl f

theorem goes_store (f : Flat) (vaddr : Word) (data : List Byte) : Goes f (f.store vaddr data).2 := by
  induction data generalizing f vaddr with
  | nil => exact .refl f
  | cons b rest ih =>
    unfold store
    split
    · exact .refl f
    · exact (f.goes_accept vaddr b).trans (ih _ _)

/-- A byte that is accepted is put, if no device stores anything. -/
theorem accept_calm {f : Flat} {vaddr : Word} {b : Byte} (calm : Calm f (f.accept vaddr b)) :
    f.accept vaddr b = { f.set (virtToPhys vaddr) b with past := (f.accept vaddr b).past } := by
  unfold accept at calm ⊢
  split
  · rfl
  · next none =>
    rw [set_of_none none]
    rw [none] at calm
    unfold writeDevice at calm ⊢
    dsimp only at calm ⊢
    split
    · next r found =>
      rw [found] at calm
      dsimp only at calm ⊢
      have quiet := calm f.past _ (List.suffix_refl _) (f.suffix_call _)
      unfold call reply
      rw [quiet]
      rfl
    · rfl

theorem put_past (f : Flat) (past : List Moment) (vaddr : Word) (data : List Byte) :
    put { f with past } vaddr data = { f.put vaddr data with past } := by
  induction data generalizing f vaddr with
  | nil => rfl
  | cons b rest ih => exact ih (f.set (virtToPhys vaddr) b) (vaddr + 1)

theorem refusal_faultAddr {f : Flat} {vaddr : Word} {e : MemError} (h : f.refusal vaddr = some e) :
    e.faultAddr = some vaddr := by
  unfold refusal at h
  split at h
  · split at h
    · cases h
      rfl
    · cases h
  · split at h
    · cases h
    · cases h
      rfl

theorem next_addr (vaddr : Word) (n : Nat) :
    vaddr + 1 + BitVec.ofNat 32 n = vaddr + BitVec.ofNat 32 (n + 1) := by
  rw [Nat.add_comm n 1, BitVec.ofNat_add, BitVec.add_assoc]
  rfl

theorem store_cut (f : Flat) (vaddr : Word) (n : Nat) (data : List Byte) :
    f.store vaddr data =
      match f.store vaddr (data.take n) with
      | (.error e, f') => (.error e, f')
      | (.ok (), f') => f'.store (vaddr + BitVec.ofNat 32 n) (data.drop n) := by
  induction n generalizing f vaddr data with
  | zero => simp [store]
  | succ n ih =>
    cases data with
    | nil => rfl
    | cons b rest =>
      rw [List.take_succ_cons, List.drop_succ_cons, store, store]
      cases f.refusal vaddr with
      | some e => rfl
      | none =>
        dsimp only
        rw [ih, next_addr]

theorem Calm.cut {f f' f'' : Flat} (calm : Calm f f'') (first : Goes f f') (rest : Goes f' f'') :
    Calm f f' ∧ Calm f' f'' := by
  refine ⟨fun before now old made => calm before now old (made.trans rest.past), fun before now old made => ?_⟩
  rw [first.board]
  exact calm before now (first.past.trans old) made

/-- After a byte was accepted, bytes are put as if it had been set. -/
theorem put_accept {f : Flat} {vaddr : Word} {b : Byte} (calm : Calm f (f.accept vaddr b)) (rest : List Byte)
    (past : List Moment) :
    { (f.accept vaddr b).put (vaddr + 1) rest with past } = { f.put vaddr (b :: rest) with past } := by
  rw [accept_calm calm, put_past]
  rfl

/-- A write that succeeds puts all bytes. -/
theorem store_ok {f f' : Flat} {vaddr : Word} {data : List Byte}
    (h : f.store vaddr data = (.ok (), f')) (calm : Calm f f') :
    f' = { f.put vaddr data with past := f'.past } := by
  induction data generalizing f vaddr with
  | nil =>
    cases h
    rfl
  | cons b rest ih =>
    unfold store at h
    split at h
    · cases h
    · have more := (f.accept vaddr b).goes_store (vaddr + 1) rest
      rw [h] at more
      obtain ⟨first, later⟩ := calm.cut (f.goes_accept vaddr b) more
      exact (ih h later).trans (put_accept first rest f'.past)

/-- A write that fails puts the bytes before the address that it reports. -/
theorem store_error {f f' : Flat} {vaddr : Word} {data : List Byte} {e : MemError}
    (h : f.store vaddr data = (.error e, f')) (calm : Calm f f') :
    ∃ k < data.length, e.faultAddr = some (vaddr + BitVec.ofNat 32 k) ∧
      f' = { f.put vaddr (data.take k) with past := f'.past } := by
  induction data generalizing f vaddr with
  | nil => cases h
  | cons b rest ih =>
    unfold store at h
    split at h
    · next refused =>
      cases h
      refine ⟨0, by simp, ?_, rfl⟩
      rw [refusal_faultAddr refused]
      simp
    · have more := (f.accept vaddr b).goes_store (vaddr + 1) rest
      rw [h] at more
      obtain ⟨first, later⟩ := calm.cut (f.goes_accept vaddr b) more
      obtain ⟨k, short, reported, written⟩ := ih h later
      refine ⟨k + 1, by simpa using short, ?_, written.trans (put_accept first (rest.take k) f'.past)⟩
      rw [reported, next_addr]

end Flat

/-! ## Calls -/

namespace Memory

/-- Calls on a memory. -/
inductive Op where
  | mapRam (base size : Nat)
  | mapRom (base : Nat) (image : List Byte)
  | mapDevice (base size : Nat) (device : Device)
  | write (w : Width) (vaddr : Word) (v : Quad)
  | writeBytes (vaddr : Word) (data : List Byte)
  | markCode (page : Nat)
  | read (w : Width) (vaddr : Word)
  | readBytes (vaddr : Word) (n : Nat)

/-- What a mapping leaves: nothing to read, and the state with it or the one before. -/
def settle {σ : Type} (before : σ) : Except MemError σ → Except MemError (List Byte) × σ
  | .ok after => (.ok [], after)
  | .error e => (.error e, before)

/-- Calls in order: what each answered, and the state afterwards. -/
def session {σ : Type} (apply : σ → Op → Except MemError (List Byte) × σ) (s : σ) :
    List Op → List (Except MemError (List Byte)) × σ
  | [] => ([], s)
  | op :: rest =>
    let first := apply s op
    let later := session apply first.2 rest
    (first.1 :: later.1, later.2)

/-- A call on a paged memory: the bytes that were read, if any, or why it failed. What marks give back is left
out. -/
def apply (m : Memory) : Op → Except MemError (List Byte) × Memory
  | .mapRam base size => settle m (m.mapRam base size)
  | .mapRom base image => settle m (m.mapRom base image)
  | .mapDevice base size device => settle m (m.mapDevice base size device)
  | .write w vaddr v => ((m.write w vaddr v).1.map fun _ => [], (m.write w vaddr v).2)
  | .writeBytes vaddr data => ((m.writeBytes vaddr data).1.map fun _ => [], (m.writeBytes vaddr data).2)
  | .markCode page => (.ok [], (m.markCode page).2)
  | .read w vaddr => ((m.read w vaddr).1.map fun v => leBytes w.size v.toNat, (m.read w vaddr).2)
  | .readBytes vaddr n => m.readBytes vaddr n

end Memory

/-- The same call without pages: RAM is zero at first, ROM is its image and then zeros. -/
def Flat.apply (f : Flat) : Memory.Op → Except MemError (List Byte) × Flat
  | .mapRam base size => Memory.settle f (f.map base size false fun _ => 0)
  | .mapRom base image =>
    Memory.settle f (f.map base (Memory.romSize image) true fun i => image.getD i 0)
  | .mapDevice base size device => Memory.settle f (f.mapDevice base size device)
  | .write w vaddr v => ((f.write w vaddr v).1.map fun _ => [], (f.write w vaddr v).2)
  | .writeBytes vaddr data => ((f.store vaddr data).1.map fun _ => [], (f.store vaddr data).2)
  | .markCode _ => (.ok [], f)
  | .read w vaddr => ((f.read w vaddr).1.map fun v => leBytes w.size v.toNat, (f.read w vaddr).2)
  | .readBytes vaddr n => f.load vaddr n

end EmotionEngine
