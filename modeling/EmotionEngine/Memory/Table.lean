import EmotionEngine.Memory.Access
import EmotionEngine.Memory.Map

/-!
Memory by its page table. Each page has a word of 64 bits: bit 0 says that code was translated from the page, bit 1
that it is read-only, bits 2 to 31 number its frame, and the upper half is its version. The lower half of an
unmapped page is all ones. Both of its flags are set then, so that a write tests them once before it stores.

`Tabled` does what `Memory` does. It has the fast and the slow paths of typed accesses, and reads and writes byte
ranges in chunks.
-/

namespace EmotionEngine

/-! ## Words -/

/-- A word of the page table. -/
abbrev PageWord := Dword

namespace PageWord

def code : PageWord := 1

def readOnly : PageWord := 2

def flags : PageWord := code ||| readOnly

def lower : PageWord := 0xFFFFFFFF

def unmapped : PageWord := 0xFFFFFFFF

def versionOne : PageWord := 1 <<< 32

def isUnmapped (e : PageWord) : Bool := e &&& lower = unmapped

def has (e : PageWord) (flags : PageWord) : Bool := e &&& flags ≠ 0

def frame (e : PageWord) : Nat := ((e &&& lower) >>> 2).toNat

def version (e : PageWord) : Word := (e >>> 32).setWidth 32

def ofFrame (frame : Nat) (flags : PageWord) : PageWord := BitVec.ofNat 64 frame <<< 2 ||| flags

def written (e : PageWord) : PageWord := (e &&& ~~~code) + versionOne

def position (e : PageWord) (offset : Nat) : Nat := e.frame * pageSize + offset

end PageWord

/-- Put bytes at consecutive positions of a store. -/
def putBytes (store : Std.ExtTreeMap Nat Byte) (pos : Nat) : List Byte → Std.ExtTreeMap Nat Byte
  | [] => store
  | b :: rest => putBytes (store.insert pos b) (pos + 1) rest

/-- The guest physical address space, with its page table. -/
structure Tabled where
  frames : Nat
  used : Nat
  /-- The words of pages; absent pages are unmapped. -/
  table : Std.ExtTreeMap Nat PageWord
  devices : List DeviceRange
  board : Board
  past : List Moment
  store : Std.ExtTreeMap Nat Byte
  events : Array Event

namespace Tabled

def empty (size : Nat) (board : Board := .probes) : Tabled :=
  { frames := (max size 1 + (pageSize - 1)) / pageSize
    used := 0
    table := ∅
    devices := []
    board
    past := []
    store := ∅
    events := #[] }

def entry (t : Tabled) (page : Nat) : PageWord := t.table.getD page .unmapped

def device? (t : Tabled) (paddr : Nat) : Option DeviceRange := t.devices.find? (·.contains paddr)

def isMapped (t : Tabled) (vaddr : Word) : Bool :=
  let paddr := virtToPhys vaddr
  !(t.entry (pageOf paddr)).isUnmapped || (t.device? paddr).isSome

def load (t : Tabled) (pos n : Nat) : List Byte := (List.range n).map fun i => t.store.getD (pos + i) 0

/-! ## Mapping -/

/-- Whether one of `count` pages from `first` is mapped. -/
def meets (t : Tabled) (first count : Nat) : Bool :=
  (List.range count).any fun i => !(t.entry (first + i)).isUnmapped

def checkRegion (t : Tabled) (base size : Nat) : Except MemError Unit :=
  if size = 0 ∨ base % pageSize ≠ 0 ∨ size % pageSize ≠ 0 ∨ physSpace < base + size then
    .error (.badRegion base size)
  else if t.meets (base / pageSize) (size / pageSize) || t.devices.any (·.overlaps base size) then
    .error (.overlap base size)
  else .ok ()

/-- The table with the next frames for `count` pages from `first`. -/
def fill (table : Std.ExtTreeMap Nat PageWord) (first frame : Nat) (flags : PageWord) :
    Nat → Std.ExtTreeMap Nat PageWord
  | 0 => table
  | count + 1 => fill (table.insert first (.ofFrame frame flags)) (first + 1) (frame + 1) flags count

def mapFrames (t : Tabled) (base size : Nat) (flags : PageWord) : Except MemError (Nat × Tabled) :=
  match t.checkRegion base size with
  | .error e => .error e
  | .ok () =>
    let count := size / pageSize
    if t.frames < t.used + count then .error (.outOfBacking size ((t.frames - t.used) * pageSize))
    else
      .ok (t.used, { t with
        used := t.used + count
        table := fill t.table (base / pageSize) t.used flags count })

def mapRam (t : Tabled) (base size : Nat) : Except MemError Tabled := (t.mapFrames base size 0).map Prod.snd

def mapRom (t : Tabled) (base : Nat) (image : List Byte) : Except MemError Tabled :=
  match t.mapFrames base (Memory.romSize image) .readOnly with
  | .error e => .error e
  | .ok (frame, t) => .ok { t with store := putBytes t.store (frame * pageSize) image }

def mapDevice (t : Tabled) (base size : Nat) (device : Device) : Except MemError Tabled :=
  if size = 0 ∨ physSpace < base + size then .error (.badRegion base size)
  else
    let first := base / pageSize
    if t.meets first ((base + size - 1) / pageSize + 1 - first) || t.devices.any (·.overlaps base size) then
      .error (.overlap base size)
    else .ok { t with devices := { base, size, device } :: t.devices }

/-! ## Code -/

/-- Set the flag whatever the word is; that of an unmapped page is set already. -/
def markCode (t : Tabled) (page : Nat) : Option Word × Tabled :=
  let e := t.entry page
  (if e.isUnmapped then none else some e.version, { t with table := t.table.insert page (e ||| .code) })

def pageVersion (t : Tabled) (page : Nat) : Word := (t.entry page).version

def isCodePage (t : Tabled) (page : Nat) : Bool :=
  !(t.entry page).isUnmapped && (t.entry page).has .code

/-- Clear the flag, raise the version and leave a notice; nothing if the flag is clear. -/
def invalidateCode (t : Tabled) (page : Nat) : Tabled :=
  let e := t.entry page
  if e.has .code then
    { t with table := t.table.insert page e.written, events := t.events.push (.codeWritten page) }
  else t

/-! ## Pages -/

/-- Write bytes that all lie in a page of RAM or ROM, with word `e`. -/
def writePage (t : Tabled) (e : PageWord) (vaddr : Word) (data : List Byte) :
    Except MemError WriteEffect × Tabled :=
  if e.has .readOnly then (.error (.readOnly vaddr), t)
  else
    let paddr := virtToPhys vaddr
    let page := pageOf paddr
    let stored := { t with store := putBytes t.store (e.position (pageOffset paddr)) data }
    if e.has .code then (.ok (.codeInvalidated page page), stored.invalidateCode page) else (.ok .plain, stored)

/-! ## Devices -/

def deposit (t : Tabled) (d : Deposit) : Tabled :=
  let e := t.entry d.page
  if e.isUnmapped then t else (t.writePage e d.vaddr d.data).2

def byte? (t : Tabled) (paddr : Nat) : Option Byte :=
  let e := t.entry (pageOf paddr)
  if e.isUnmapped then none else some (t.store.getD (e.position (pageOffset paddr)) 0)

def call (t : Tabled) (c : Call) : Quad × Tabled :=
  let now : Moment := { call := c, byte? := t.byte? }
  let reply := t.board.reply t.past now
  (reply.value, reply.stores.foldl deposit { t with past := now :: t.past, events := t.events.push c.event })

def readDevice (t : Tabled) (vaddr : Word) (size : Nat) : Except MemError Quad × Tabled :=
  let paddr := virtToPhys vaddr
  match t.device? paddr with
  | some r =>
    let (v, t) := t.call (.read r.device (paddr - r.base) size)
    (.ok v, t)
  | none => (.error (.invalidAddress vaddr), t)

def writeDevice (t : Tabled) (vaddr : Word) (size : Nat) (v : Quad) : Except MemError WriteEffect × Tabled :=
  let paddr := virtToPhys vaddr
  match t.device? paddr with
  | some r => (.ok .plain, (t.call (.write r.device (paddr - r.base) size v)).2)
  | none => (.error (.invalidAddress vaddr), t)

/-! ## Byte ranges -/

def readDeviceBytes (t : Tabled) (vaddr : Word) : Nat → Except MemError (List Byte) × Tabled
  | 0 => (.ok [], t)
  | n + 1 =>
    match t.readDevice vaddr 1 with
    | (.error e, t) => (.error e, t)
    | (.ok v, t) =>
      match t.readDeviceBytes (vaddr + 1) n with
      | (.error e, t) => (.error e, t)
      | (.ok bs, t) => (.ok (v.setWidth 8 :: bs), t)

def readChunk (t : Tabled) (vaddr : Word) (n : Nat) : Except MemError (List Byte) × Tabled :=
  let paddr := virtToPhys vaddr
  let e := t.entry (pageOf paddr)
  if e.isUnmapped then t.readDeviceBytes vaddr n else (.ok (t.load (e.position (pageOffset paddr)) n), t)

def readBytes (t : Tabled) (vaddr : Word) (n : Nat) : Except MemError (List Byte) × Tabled :=
  if _h : n = 0 then (.ok [], t)
  else
    let chunk := min (Memory.roomInPage vaddr) n
    match t.readChunk vaddr chunk with
    | (.error e, t) => (.error e, t)
    | (.ok bs, t) =>
      match t.readBytes (vaddr + BitVec.ofNat 32 chunk) (n - chunk) with
      | (.error e, t) => (.error e, t)
      | (.ok rest, t) => (.ok (bs ++ rest), t)
termination_by n
decreasing_by
  have room := Memory.roomInPage_pos vaddr
  omega

def writeDeviceBytes (t : Tabled) (vaddr : Word) : List Byte → Except MemError WriteEffect × Tabled
  | [] => (.ok .plain, t)
  | b :: rest =>
    match t.writeDevice vaddr 1 (b.setWidth 128) with
    | (.error e, t) => (.error e, t)
    | (.ok _, t) => t.writeDeviceBytes (vaddr + 1) rest

def writeChunk (t : Tabled) (vaddr : Word) (data : List Byte) : Except MemError WriteEffect × Tabled :=
  let e := t.entry (pageOf (virtToPhys vaddr))
  if e.isUnmapped then t.writeDeviceBytes vaddr data else t.writePage e vaddr data

/-- Write a byte range page by page, up to the first page that cannot be written. -/
def writeBytes (t : Tabled) (vaddr : Word) (data : List Byte) : Except MemError WriteEffect × Tabled :=
  if _h : data = [] then (.ok .plain, t)
  else
    let n := Memory.roomInPage vaddr
    match t.writeChunk vaddr (data.take n) with
    | (.error e, t) => (.error e, t)
    | (.ok effect, t) =>
      match t.writeBytes (vaddr + BitVec.ofNat 32 n) (data.drop n) with
      | (.error e, t) => (.error e, t)
      | (.ok rest, t) => (.ok (effect.merge rest), t)
termination_by data.length
decreasing_by
  have room := Memory.roomInPage_pos vaddr
  have nonempty : 0 < data.length := List.length_pos_iff.2 _h
  simp only [List.length_drop]
  omega

/-! ## Typed accesses -/

/-- A read that is not of a page of RAM or ROM. -/
def readSlow (t : Tabled) (w : Width) (vaddr : Word) : Except MemError Quad × Tabled :=
  if Memory.inPage (virtToPhys vaddr) w.size then
    match t.readDevice vaddr w.size with
    | (.ok v, t) => (.ok (w.truncate v), t)
    | (.error e, t) => (.error e, t)
  else
    match t.readBytes vaddr w.size with
    | (.ok bs, t) => (.ok (BitVec.ofNat 128 (ofLeBytes bs)), t)
    | (.error e, t) => (.error e, t)

def read (t : Tabled) (w : Width) (vaddr : Word) : Except MemError Quad × Tabled :=
  let paddr := virtToPhys vaddr
  let e := t.entry (pageOf paddr)
  if Memory.inPage paddr w.size && !e.isUnmapped then
    (.ok (BitVec.ofNat 128 (ofLeBytes (t.load (e.position (pageOffset paddr)) w.size))), t)
  else t.readSlow w vaddr

/-- A write that crosses into another page, or is of a page with a flag. -/
def writeSlow (t : Tabled) (w : Width) (vaddr : Word) (v : Quad) : Except MemError WriteEffect × Tabled :=
  let paddr := virtToPhys vaddr
  let e := t.entry (pageOf paddr)
  if !Memory.inPage paddr w.size then t.writeBytes vaddr (leBytes w.size v.toNat)
  else if e.isUnmapped then t.writeDevice vaddr w.size (w.truncate v)
  else t.writePage e vaddr (leBytes w.size v.toNat)

def write (t : Tabled) (w : Width) (vaddr : Word) (v : Quad) : Except MemError WriteEffect × Tabled :=
  let paddr := virtToPhys vaddr
  let e := t.entry (pageOf paddr)
  -- One test for mapped, writable and free of code.
  if Memory.inPage paddr w.size && !e.has .flags then
    (.ok .plain, { t with store := putBytes t.store (e.position (pageOffset paddr)) (leBytes w.size v.toNat) })
  else t.writeSlow w vaddr v

def fetch (t : Tabled) (vaddr : Word) : Except MemError Word :=
  let paddr := virtToPhys vaddr
  let e := t.entry (pageOf paddr)
  if e.isUnmapped || vaddr.toNat % 4 ≠ 0 then .error (.invalidAddress vaddr)
  else .ok (BitVec.ofNat 32 (ofLeBytes (t.load (e.position (pageOffset paddr)) 4)))

end Tabled

end EmotionEngine
