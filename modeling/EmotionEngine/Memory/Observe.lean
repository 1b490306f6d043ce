import EmotionEngine.Memory.Access

/-!
Observers of code pages. Whoever holds translated code registers an observer, which is called during a write
for each page of code that the write hits. An observer whose owner has dropped it is not called any more; it
is forgotten when the next one registers.

`Observed` is a memory with its observers. It is written as a memory alone is, with the calls of the
observers where they are made, and whatever they do to memory then.
-/

namespace EmotionEngine

/-- A call of an observer: the page it is told of, and what it finds memory to be. -/
structure Notice where
  observer : String
  page : Nat
  seen : Memory

/-- The observers that were called for a page, in order. -/
def Notice.about (notices : List Notice) (page : Nat) : List String :=
  (notices.filter (·.page = page)).map (·.observer)

/-- What an observer makes of memory when it is called for a page, after the calls of observers before. -/
abbrev Callback := List Notice → Nat → Memory → Memory

/-- A registered observer. -/
structure Observer where
  name : String
  run : Callback
  /-- Whether its owner still has it. -/
  alive : Bool := true

/-- Registering and dropping observers. -/
inductive Enrolment where
  | register (name : String) (run : Callback)
  | drop (name : String)

namespace Observer

def register (observers : List Observer) (name : String) (run : Callback) : List Observer :=
  observers.filter (·.alive) ++ [({ name, run } : Observer)]

def drop (observers : List Observer) (name : String) : List Observer :=
  observers.map fun r => if r.name = name then { r with alive := false } else r

def enrol (observers : List Observer) : Enrolment → List Observer
  | .register name run => register observers name run
  | .drop name => drop observers name

def callees (observers : List Observer) : List String := (observers.filter (·.alive)).map (·.name)

end Observer

/-- A memory with its observers, in the order in which they registered, and their calls so far. -/
structure Observed where
  mem : Memory
  observers : List Observer := []
  notices : List Notice := []

namespace Observed

/-- Call an observer, unless it was dropped. -/
def tell (page : Nat) (o : Observed) (r : Observer) : Observed :=
  if r.alive then
    { o with
      mem := r.run o.notices page o.mem
      notices := o.notices ++ [{ observer := r.name, page, seen := o.mem }] }
  else o

/-- Take the mark off a page that was written and raise its version, then call the observers. -/
def invalidateCode (o : Observed) (page : Nat) : Observed :=
  o.observers.foldl (tell page) { o with mem := o.mem.invalidateCode page }

/-- Write bytes that all lie in a page of RAM or ROM, at entry `e`. -/
def writePage (o : Observed) (e : PageEntry) (vaddr : Word) (data : List Byte) :
    Except MemError WriteEffect × Observed :=
  if e.readOnly then (.error (.readOnly vaddr), o)
  else
    let paddr := virtToPhys vaddr
    let page := pageOf paddr
    let stored := { o with mem := o.mem.storeBytes (e.position (pageOffset paddr)) data }
    if o.mem.isCodePage page then (.ok (.codeInvalidated page page), stored.invalidateCode page)
    else (.ok .plain, stored)

/-! ## Devices -/

def deposit (o : Observed) (d : Deposit) : Observed :=
  match o.mem.page? d.page with
  | some e => (o.writePage e d.vaddr d.data).2
  | none => o

/-- Call a device. Observers are called for what it stores, too. -/
def call (o : Observed) (c : Call) : Quad × Observed :=
  ((o.mem.reply c).value, (o.mem.reply c).stores.foldl deposit { o with mem := o.mem.called c })

def writeDevice (o : Observed) (vaddr : Word) (size : Nat) (v : Quad) :
    Except MemError WriteEffect × Observed :=
  let paddr := virtToPhys vaddr
  match o.mem.device? paddr with
  | some r => (.ok .plain, (o.call (.write r.device (paddr - r.base) size v)).2)
  | none => (.error (.invalidAddress vaddr), o)

def writeDeviceBytes (o : Observed) (vaddr : Word) : List Byte → Except MemError WriteEffect × Observed
  | [] => (.ok .plain, o)
  | b :: rest =>
    match o.writeDevice vaddr 1 (b.setWidth 128) with
    | (.error e, o) => (.error e, o)
    | (.ok _, o) => o.writeDeviceBytes (vaddr + 1) rest

/-! ## Writing -/

def writeInPage (o : Observed) (vaddr : Word) (data : List Byte) : Except MemError WriteEffect × Observed :=
  match o.mem.page? (pageOf (virtToPhys vaddr)) with
  | none => o.writeDeviceBytes vaddr data
  | some e => o.writePage e vaddr data

/-- Write a byte range page by page, up to the first page that cannot be written. -/
def writeBytes (o : Observed) (vaddr : Word) (data : List Byte) : Except MemError WriteEffect × Observed :=
  if _h : data = [] then (.ok .plain, o)
  else
    let n := Memory.roomInPage vaddr
    match o.writeInPage vaddr (data.take n) with
    | (.error e, o) => (.error e, o)
    | (.ok effect, o) =>
      match o.writeBytes (vaddr + BitVec.ofNat 32 n) (data.drop n) with
      | (.error e, o) => (.error e, o)
      | (.ok rest, o) => (.ok (effect.merge rest), o)
termination_by data.length
decreasing_by
  have hn := Memory.roomInPage_pos vaddr
  have hd : 0 < data.length := List.length_pos_iff.2 _h
  simp only [List.length_drop]
  omega

def write (o : Observed) (w : Width) (vaddr : Word) (v : Quad) : Except MemError WriteEffect × Observed :=
  let paddr := virtToPhys vaddr
  let bytes := leBytes w.size v.toNat
  if Memory.inPage paddr w.size then
    match o.mem.page? (pageOf paddr) with
    | some _ => o.writeInPage vaddr bytes
    -- The device at the first byte gets the whole access.
    | none => o.writeDevice vaddr w.size (w.truncate v)
  else o.writeBytes vaddr bytes

end Observed

end EmotionEngine
