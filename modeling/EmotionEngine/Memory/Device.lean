import EmotionEngine.Word

/-!
Memory-mapped devices. A device is called with an offset into its range and the size of an access. What it
answers may depend on all calls that were made before, of this device and of others, and on the bytes of memory
when it is called; and before it returns it may store to RAM itself, as a DMA controller does.

`Board` is what the devices of an address space do, as a function of the calls so far. Devices that keep a
state of their own are `Handlers`, and every such family is a board (`Handlers.board`).
-/

namespace EmotionEngine

/-- A device, by its number. -/
structure Device where
  id : Nat
  deriving DecidableEq

/-- A device on a byte range. -/
structure DeviceRange where
  base : Nat
  size : Nat
  device : Device
  deriving DecidableEq

namespace DeviceRange

def contains (r : DeviceRange) (paddr : Nat) : Bool := r.base ≤ paddr && paddr < r.base + r.size

def overlaps (r : DeviceRange) (base size : Nat) : Bool :=
  base < r.base + r.size && r.base < base + size

end DeviceRange

/-! ## Calls -/

/-- A call of a device. -/
inductive Call where
  | read (device : Device) (offset size : Nat)
  | write (device : Device) (offset size : Nat) (value : Quad)
  deriving DecidableEq

/-- A call, and the bytes of RAM and ROM by physical address when it is made. -/
structure Moment where
  call : Call
  byte? : Nat → Option Byte

/-- Bytes that a device stores on one page. A range across pages is stored as several. -/
structure Deposit where
  vaddr : Word
  data : List Byte
  nonempty : data ≠ []
  inside : pageOffset (virtToPhys vaddr) + data.length ≤ pageSize

def Deposit.page (d : Deposit) : Nat := pageOf (virtToPhys d.vaddr)

/-- What a device does when it is called. -/
structure Reply where
  /-- The answer to a read; nobody looks at the answer to a write. -/
  value : Quad := 0
  /-- What it stores, in order. -/
  stores : List Deposit := []

/-! ## Boards -/

/-- What devices do: the reply to a call, given the calls before it, the last one first. -/
structure Board where
  reply : List Moment → Moment → Reply

/-- Devices over a state of type `σ`. -/
structure Handlers (σ : Type) where
  initial : σ
  serve : σ → Moment → Reply × σ

namespace Handlers

variable {σ : Type} (h : Handlers σ)

def state : List Moment → σ
  | [] => h.initial
  | now :: before => (h.serve (state before) now).2

def board : Board where
  reply before now := (h.serve (h.state before) now).1

end Handlers

namespace Board

/-- Devices that answer every read with the offset and size they were asked for. -/
def probes : Board where
  reply _ now :=
    match now.call with
    | .read _ offset size => { value := BitVec.ofNat 128 (offset * 256 ||| size) }
    | .write .. => {}

end Board

end EmotionEngine
