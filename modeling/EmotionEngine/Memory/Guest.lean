import EmotionEngine.Cpu.Basic
import EmotionEngine.Memory.Access

/-!
Guest loads and stores: memory accesses with the processor's rules. Accesses must be aligned to their
width, except that quadword accesses ignore the low four bits of the address. A failing access records
an exception in the processor. A store that invalidates code on a page of the running block says so,
so that the block can stop.
-/

namespace EmotionEngine

/-- A processor and the memory it works on. -/
structure Guest where
  cpu : Cpu
  mem : Memory

/-- How a guest store ended. -/
inductive StoreStatus where
  | ok
  /-- An exception was recorded. -/
  | fault
  /-- The store succeeded and invalidated the running block. -/
  | codeModified
  deriving DecidableEq

namespace StoreStatus

/-- The number that a store helper returns. -/
def toNat : StoreStatus → Nat
  | ok => 0
  | fault => 1
  | codeModified => 2

def name : StoreStatus → String
  | ok => "Ok"
  | fault => "Fault"
  | codeModified => "CodeModified"

end StoreStatus

namespace Guest

/-- The address of an access: quadwords drop the low four bits. -/
def accessAddr (w : Width) (vaddr : Word) : Word :=
  if w = .quad then vaddr &&& ~~~0xF#32 else vaddr

/-- Whether an address is a multiple of the width. -/
def aligned (w : Width) (addr : Word) : Bool := addr.toNat % w.size == 0

/-- Record an exception that reports `vaddr`. -/
def fault (g : Guest) (code : ExcCode) (vaddr : Word) : Guest :=
  { g with cpu := g.cpu.raiseFault code (some vaddr) }

/-- Load a value; `none` after recording an exception. -/
def load (g : Guest) (w : Width) (vaddr : Word) : Option Quad × Guest :=
  let addr := accessAddr w vaddr
  if aligned w addr then
    match g.mem.read w addr with
    | (.ok v, mem) => (some v, { g with mem })
    | (.error _, mem) => (none, { g with mem }.fault .dataBus vaddr)
  else (none, g.fault .addressLoad vaddr)

def store (g : Guest) (w : Width) (vaddr : Word) (v : Quad) : StoreStatus × Guest :=
  let addr := accessAddr w vaddr
  if aligned w addr then
    match g.mem.write w addr v with
    | (.ok effect, mem) =>
      (if effect.hits g.cpu.blockFirst g.cpu.blockLast then .codeModified else .ok, { g with mem })
    | (.error _, mem) => (.fault, { g with mem }.fault .dataBus vaddr)
  else (.fault, g.fault .addressStore vaddr)

end Guest

end EmotionEngine
