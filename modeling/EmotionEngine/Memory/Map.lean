import EmotionEngine.Memory.Basic

/-!
Mapping RAM, ROM and devices. A mapping is refused when it is malformed, then when it meets another
mapping, then when the store has too few frames left; a refused mapping changes nothing. Mappings are
never removed.
-/

namespace EmotionEngine.Memory

/-- Bytes of the store that are not handed out yet. -/
def available (m : Memory) : Nat := (m.frames - m.used) * pageSize

/-- Refuse a region that is not made of whole pages inside physical space, or that meets a mapping. -/
def checkRegion (m : Memory) (base size : Nat) : Except MemError Unit :=
  if size = 0 ∨ base % pageSize ≠ 0 ∨ size % pageSize ≠ 0 ∨ physSpace < base + size then
    .error (.badRegion base size)
  else if m.regions.any (·.meets (base / pageSize) (size / pageSize)) ||
      m.devices.any (·.overlaps base size) then
    .error (.overlap base size)
  else .ok ()

/-- Map a region on the next free frames; gives the first of them. -/
def mapFrames (m : Memory) (base size : Nat) (readOnly : Bool) : Except MemError (Nat × Memory) :=
  match m.checkRegion base size with
  | .error e => .error e
  | .ok () =>
    let count := size / pageSize
    if m.frames < m.used + count then .error (.outOfBacking size m.available)
    else
      let region := { first := base / pageSize, count, frame := m.used, readOnly : Region }
      .ok (m.used, { m with used := m.used + count, regions := region :: m.regions })

def mapRam (m : Memory) (base size : Nat) : Except MemError Memory :=
  (m.mapFrames base size false).map Prod.snd

/-- The size of the mapping for an image: whole pages, at least one. -/
def romSize (image : List Byte) : Nat :=
  (max image.length 1 + (pageSize - 1)) / pageSize * pageSize

/-- Map a read-only image, padded with zeros to whole pages. -/
def mapRom (m : Memory) (base : Nat) (image : List Byte) : Except MemError Memory :=
  match m.mapFrames base (romSize image) true with
  | .error e => .error e
  | .ok (frame, m) => .ok (m.storeBytes (frame * pageSize) image)

def mapDevice (m : Memory) (base size : Nat) (device : Device) : Except MemError Memory :=
  if size = 0 ∨ physSpace < base + size then .error (.badRegion base size)
  else
    -- A device may share no page with RAM or ROM, though it need not fill its pages.
    let first := base / pageSize
    let count := (base + size - 1) / pageSize + 1 - first
    if m.regions.any (·.meets first count) || m.devices.any (·.overlaps base size) then
      .error (.overlap base size)
    else .ok { m with devices := { base, size, device } :: m.devices }

/-- Guest memory as a machine is configured. -/
structure Config where
  ramBase : Nat := 0
  ramSize : Nat := 32 * 1024 * 1024
  /-- Store reserved for ROM images. -/
  romReserve : Nat := 4 * 1024 * 1024
  deriving DecidableEq

def ofConfig (c : Config) (board : Board := .probes) : Except MemError Memory :=
  (empty (c.ramSize + c.romReserve) board).mapRam c.ramBase c.ramSize

end EmotionEngine.Memory
