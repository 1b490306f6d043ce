import EmotionEngine.Memory.Device
import EmotionEngine.Text.Number
import Std.Data.ExtTreeMap

/-!
Guest physical memory. Pages of RAM and ROM are windows onto frames of a backing store: a `Region` maps
a run of pages to a run of frames. Devices take byte ranges of their own, and are called in the order in which
they are accessed. The store is sparse, and a byte that was never written is zero.

Each page carries a version and a mark that says whether code was translated from it. A write to a
marked page takes the mark away, raises the version and leaves a notice for whoever holds translated
code. Notices and device accesses are recorded as events, in the order in which they happen.
-/

namespace EmotionEngine

/-- Failures of the memory model. -/
inductive MemError where
  /-- Nothing is mapped at the address. -/
  | invalidAddress (addr : Word)
  | readOnly (addr : Word)
  | overlap (base size : Nat)
  | badRegion (base size : Nat)
  | outOfBacking (requested available : Nat)
  | hostMap (size : Nat) (errno : Int)
  deriving DecidableEq

namespace MemError

def message : MemError → String
  | invalidAddress a => "invalid guest address " ++ Text.addr a.toNat
  | readOnly a => "write to read-only guest memory at " ++ Text.addr a.toNat
  | overlap base size =>
    "region " ++ Text.addr base ++ "+" ++ Text.size size ++ " overlaps an existing mapping"
  | badRegion base size =>
    "region " ++ Text.addr base ++ "+" ++ Text.size size ++
      " is not page aligned or exceeds physical space"
  | outOfBacking requested available =>
    "backing store exhausted: " ++ Text.size requested ++ " bytes requested, " ++
      Text.size available ++ " left"
  | hostMap size errno =>
    "host mmap of " ++ Text.size size ++ " bytes failed (errno " ++ toString errno ++ ")"

def kind : MemError → String
  | invalidAddress _ => "InvalidAddress"
  | readOnly _ => "ReadOnly"
  | overlap .. => "Overlap"
  | badRegion .. => "BadRegion"
  | outOfBacking .. => "OutOfBacking"
  | hostMap .. => "HostMap"

/-- The address that a fault reports to the guest. -/
def faultAddr : MemError → Option Word
  | invalidAddress a => some a
  | readOnly a => some a
  | _ => none

end MemError

/-! ## Events -/

/-- What memory tells the outside world. -/
inductive Event where
  | deviceRead (device : Device) (offset size : Nat)
  | deviceWrite (device : Device) (offset size : Nat) (value : Quad)
  /-- A page that held translated code was written. -/
  | codeWritten (page : Nat)
  deriving DecidableEq

def Call.event : Call → Event
  | .read device offset size => .deviceRead device offset size
  | .write device offset size value => .deviceWrite device offset size value

/-! ## The map -/

/-- `count` pages from page `first`, on `count` frames from frame `frame`. -/
structure Region where
  first : Nat
  count : Nat
  frame : Nat
  readOnly : Bool
  deriving DecidableEq

def Region.covers (r : Region) (page : Nat) : Bool := r.first ≤ page && page < r.first + r.count

/-- Whether the region maps one of `count` pages from `first`. -/
def Region.meets (r : Region) (first count : Nat) : Bool :=
  first < r.first + r.count && r.first < first + count

/-- What is known of the code on a page. -/
structure CodeState where
  /-- Raised by every write that hits translated code. -/
  version : Word := 0
  /-- Whether code was translated from the page since it was last written. -/
  marked : Bool := false
  deriving DecidableEq

instance : Inhabited CodeState := ⟨{}⟩

/-- The frame behind a page, and whether it may be written. -/
structure PageEntry where
  frame : Nat
  readOnly : Bool
  deriving DecidableEq

def PageEntry.position (e : PageEntry) (offset : Nat) : Nat := e.frame * pageSize + offset

/-- The guest physical address space. -/
structure Memory where
  /-- Frames in the backing store. -/
  frames : Nat
  /-- Frames handed out so far; they are handed out in order and never returned. -/
  used : Nat
  regions : List Region
  devices : List DeviceRange
  /-- What the devices do. -/
  board : Board
  /-- The calls of devices so far, the last one first. -/
  past : List Moment
  /-- The bytes of the store by position; absent bytes are zero. -/
  store : Std.ExtTreeMap Nat Byte
  /-- The code state of pages; absent pages have the initial state. -/
  code : Std.ExtTreeMap Nat CodeState
  /-- What has happened, in order. -/
  events : Array Event

/-- What a successful write did besides storing. -/
inductive WriteEffect where
  | plain
  /-- Pages between `first` and `last` held translated code, which is now invalid. -/
  | codeInvalidated (first last : Nat)
  deriving DecidableEq

namespace WriteEffect

/-- Whether the invalidated range meets `first .. last`. -/
def hits (e : WriteEffect) (first last : Nat) : Bool :=
  match e with
  | plain => false
  | codeInvalidated f l => f ≤ last && first ≤ l

def merge : WriteEffect → WriteEffect → WriteEffect
  | plain, e => e
  | e, plain => e
  | codeInvalidated a b, codeInvalidated c d => codeInvalidated (min a c) (max b d)

end WriteEffect

namespace Memory

/-- An address space with nothing mapped, over a store of `size` bytes rounded up to whole frames. -/
def empty (size : Nat) (board : Board := .probes) : Memory :=
  { frames := (max size 1 + (pageSize - 1)) / pageSize
    used := 0
    regions := []
    devices := []
    board
    past := []
    store := ∅
    code := ∅
    events := #[] }

/-! ## Looking things up -/

/-- The frame behind a page of RAM or ROM. -/
def page? (m : Memory) (page : Nat) : Option PageEntry :=
  (m.regions.find? (·.covers page)).map
    (fun r => { frame := r.frame + (page - r.first), readOnly := r.readOnly })

/-- The device that answers at a physical address. -/
def device? (m : Memory) (paddr : Nat) : Option DeviceRange := m.devices.find? (·.contains paddr)

def codeState (m : Memory) (page : Nat) : CodeState := m.code.getD page {}

def pageVersion (m : Memory) (page : Nat) : Word := (m.codeState page).version

/-- Whether a page is marked as holding translated code. -/
def isCodePage (m : Memory) (page : Nat) : Bool := (m.codeState page).marked

/-- Whether an address is backed by RAM, ROM or a device. -/
def isMapped (m : Memory) (vaddr : Word) : Bool :=
  let paddr := virtToPhys vaddr
  (m.page? (pageOf paddr)).isSome || (m.device? paddr).isSome

def storeByte (m : Memory) (pos : Nat) : Byte := m.store.getD pos 0

/-- The byte of RAM or ROM at a physical address. -/
def byte? (m : Memory) (paddr : Nat) : Option Byte :=
  (m.page? (pageOf paddr)).map fun e => m.storeByte (e.position (pageOffset paddr))

/-! ## Changing things -/

def record (m : Memory) (e : Event) : Memory := { m with events := m.events.push e }

/-- Write bytes to consecutive positions of the store. -/
def storeBytes (m : Memory) (pos : Nat) : List Byte → Memory
  | [] => m
  | b :: rest => storeBytes { m with store := m.store.insert pos b } (pos + 1) rest

/-- Read bytes from consecutive positions of the store. -/
def loadBytes (m : Memory) (pos n : Nat) : List Byte := (List.range n).map (fun i => m.storeByte (pos + i))

/-- Mark a page as holding translated code; its version, unless it is neither RAM nor ROM. -/
def markCode (m : Memory) (page : Nat) : Option Word × Memory :=
  match m.page? page with
  | none => (none, m)
  | some _ =>
    let s := m.codeState page
    (some s.version, { m with code := m.code.insert page { s with marked := true } })

/-- Take the mark off a page that was written, raise its version and leave a notice. -/
def invalidateCode (m : Memory) (page : Nat) : Memory :=
  let s := m.codeState page
  { m with code := m.code.insert page { version := s.version + 1, marked := false } }.record
    (.codeWritten page)

/-- The events so far, and the memory without them. -/
def takeEvents (m : Memory) : Array Event × Memory := (m.events, { m with events := #[] })

end Memory

end EmotionEngine
