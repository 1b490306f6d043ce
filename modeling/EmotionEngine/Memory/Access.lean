import EmotionEngine.Memory.Basic

/-!
Reading and writing. An access that stays inside a page goes to RAM or ROM if the page is mapped, else
to the device at its first byte. An access that crosses into the next page, and every access to a byte
range, is served page by page: bytes of unmapped pages go to devices one at a time. A byte range is
written up to the first byte that cannot be written, and what was written before stays.

Every function returns the memory afterwards, also when it fails: a device that is read may have stored
something, and a failing write may have stored a part.
-/

namespace EmotionEngine.Memory

/-- Whether an access of `n` bytes stays inside its page. -/
def inPage (paddr n : Nat) : Bool := pageOffset paddr + n ≤ pageSize

/-! ## Pages -/

/-- Write bytes that all lie in a page of RAM or ROM, at entry `e`. -/
def writePage (m : Memory) (e : PageEntry) (vaddr : Word) (data : List Byte) :
    Except MemError WriteEffect × Memory :=
  if e.readOnly then (.error (.readOnly vaddr), m)
  else
    let paddr := virtToPhys vaddr
    let page := pageOf paddr
    -- The bytes are stored before anyone hears of it.
    let stored := m.storeBytes (e.position (pageOffset paddr)) data
    if m.isCodePage page then (.ok (.codeInvalidated page page), stored.invalidateCode page)
    else (.ok .plain, stored)

/-! ## Devices -/

/-- A device stores to RAM; elsewhere nothing happens. -/
def deposit (m : Memory) (d : Deposit) : Memory :=
  match m.page? d.page with
  | some e => (m.writePage e d.vaddr d.data).2
  | none => m

def moment (m : Memory) (c : Call) : Moment := { call := c, byte? := m.byte? }

/-- What the device will do that is called now. -/
def reply (m : Memory) (c : Call) : Reply := m.board.reply m.past (m.moment c)

def called (m : Memory) (c : Call) : Memory := { m.record c.event with past := m.moment c :: m.past }

/-- Call a device: its answer, and memory when it returns. -/
def call (m : Memory) (c : Call) : Quad × Memory :=
  ((m.reply c).value, (m.reply c).stores.foldl deposit (m.called c))

def readDevice (m : Memory) (vaddr : Word) (size : Nat) : Except MemError Quad × Memory :=
  let paddr := virtToPhys vaddr
  match m.device? paddr with
  | some r =>
    let (v, m) := m.call (.read r.device (paddr - r.base) size)
    (.ok v, m)
  | none => (.error (.invalidAddress vaddr), m)

def writeDevice (m : Memory) (vaddr : Word) (size : Nat) (v : Quad) :
    Except MemError WriteEffect × Memory :=
  let paddr := virtToPhys vaddr
  match m.device? paddr with
  | some r => (.ok .plain, (m.call (.write r.device (paddr - r.base) size v)).2)
  | none => (.error (.invalidAddress vaddr), m)

/-! ## Byte ranges -/

def readByte (m : Memory) (vaddr : Word) : Except MemError Byte × Memory :=
  let paddr := virtToPhys vaddr
  match m.page? (pageOf paddr) with
  | some e => (.ok (m.storeByte (e.position (pageOffset paddr))), m)
  | none =>
    match m.readDevice vaddr 1 with
    | (.ok v, m) => (.ok (v.setWidth 8), m)
    | (.error e, m) => (.error e, m)

def readBytes (m : Memory) (vaddr : Word) : Nat → Except MemError (List Byte) × Memory
  | 0 => (.ok [], m)
  | n + 1 =>
    match m.readByte vaddr with
    | (.error e, m) => (.error e, m)
    | (.ok b, m) =>
      match m.readBytes (vaddr + 1) n with
      | (.error e, m) => (.error e, m)
      | (.ok bs, m) => (.ok (b :: bs), m)

def writeDeviceBytes (m : Memory) (vaddr : Word) : List Byte → Except MemError WriteEffect × Memory
  | [] => (.ok .plain, m)
  | b :: rest =>
    match m.writeDevice vaddr 1 (b.setWidth 128) with
    | (.error e, m) => (.error e, m)
    | (.ok _, m) => m.writeDeviceBytes (vaddr + 1) rest

def writeInPage (m : Memory) (vaddr : Word) (data : List Byte) : Except MemError WriteEffect × Memory :=
  match m.page? (pageOf (virtToPhys vaddr)) with
  | none => m.writeDeviceBytes vaddr data
  | some e => m.writePage e vaddr data

/-- Bytes left in the page of an address, at least one. -/
def roomInPage (vaddr : Word) : Nat := pageSize - pageOffset (virtToPhys vaddr)

theorem roomInPage_pos (vaddr : Word) : 0 < roomInPage vaddr := by
  have h : pageOffset (virtToPhys vaddr) < pageSize := Nat.mod_lt _ (by decide)
  exact Nat.sub_pos_of_lt h

/-- Write a byte range page by page, up to the first page that cannot be written. -/
def writeBytes (m : Memory) (vaddr : Word) (data : List Byte) : Except MemError WriteEffect × Memory :=
  if _h : data = [] then (.ok .plain, m)
  else
    let n := roomInPage vaddr
    match m.writeInPage vaddr (data.take n) with
    | (.error e, m) => (.error e, m)
    | (.ok effect, m) =>
      match m.writeBytes (vaddr + BitVec.ofNat 32 n) (data.drop n) with
      | (.error e, m) => (.error e, m)
      | (.ok rest, m) => (.ok (effect.merge rest), m)
termination_by data.length
decreasing_by
  have hn := roomInPage_pos vaddr
  have hd : 0 < data.length := List.length_pos_iff.2 _h
  simp only [List.length_drop]
  omega

/-! ## Typed accesses -/

def read (m : Memory) (w : Width) (vaddr : Word) : Except MemError Quad × Memory :=
  let paddr := virtToPhys vaddr
  if inPage paddr w.size then
    match m.page? (pageOf paddr) with
    | some e =>
      (.ok (BitVec.ofNat 128 (ofLeBytes (m.loadBytes (e.position (pageOffset paddr)) w.size))), m)
    | none =>
      match m.readDevice vaddr w.size with
      | (.ok v, m) => (.ok (w.truncate v), m)
      | (.error e, m) => (.error e, m)
  else
    match m.readBytes vaddr w.size with
    | (.ok bs, m) => (.ok (BitVec.ofNat 128 (ofLeBytes bs)), m)
    | (.error e, m) => (.error e, m)

/-- Write a little-endian value; the part of `v` beyond the width is ignored. -/
def write (m : Memory) (w : Width) (vaddr : Word) (v : Quad) : Except MemError WriteEffect × Memory :=
  let paddr := virtToPhys vaddr
  let bytes := leBytes w.size v.toNat
  if inPage paddr w.size then
    match m.page? (pageOf paddr) with
    | some _ => m.writeInPage vaddr bytes
    -- The device at the first byte gets the whole access.
    | none => m.writeDevice vaddr w.size (w.truncate v)
  else m.writeBytes vaddr bytes

/-- Fetch an instruction word. Only RAM and ROM can be executed, at aligned addresses. -/
def fetch (m : Memory) (vaddr : Word) : Except MemError Word :=
  let paddr := virtToPhys vaddr
  match m.page? (pageOf paddr) with
  | none => .error (.invalidAddress vaddr)
  | some e =>
    if vaddr.toNat % 4 ≠ 0 then .error (.invalidAddress vaddr)
    else .ok (BitVec.ofNat 32 (ofLeBytes (m.loadBytes (e.position (pageOffset paddr)) 4)))

end EmotionEngine.Memory
