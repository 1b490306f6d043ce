import EmotionEngine.Text.Number
import EmotionEngine.Word

/-!
Host code as bytes. All of it is known when a block is translated but for the addresses of the helpers
that it calls, which differ from process to process; a byte of such an address stands as what it is.
-/

namespace EmotionEngine.Host

/-- What compiled code calls: memory accesses, division, and work on the coprocessors. -/
inductive Helper where
  | load (w : Width)
  | store (w : Width)
  | div
  | divu
  | mfc0
  | mtc0
  | eret
  | setEie
  | fpuArith
  | fpuCompare
  | mmi
  deriving DecidableEq

namespace Helper

def widthName : Width → String
  | .byte => "u8"
  | .half => "u16"
  | .word => "u32"
  | .dword => "u64"
  | .quad => "quad"

def name : Helper → String
  | load w => "load_" ++ widthName w
  | store w => "store_" ++ widthName w
  | div => "div"
  | divu => "divu"
  | mfc0 => "mfc0"
  | mtc0 => "mtc0"
  | eret => "eret"
  | setEie => "set_eie"
  | fpuArith => "fpu_arith"
  | fpuCompare => "fpu_compare"
  | mmi => "mmi"

end Helper

/-- A byte of host code. -/
inductive CodeByte where
  | lit (b : Byte)
  /-- Byte `k` of the address of a helper. -/
  | addr (h : Helper) (k : Fin 8)
  deriving DecidableEq

instance : Inhabited CodeByte := ⟨.lit 0⟩

namespace CodeByte

def value? : CodeByte → Option Byte
  | lit b => some b
  | addr .. => none

/-- Two digits, or the name of a helper in place of its address. -/
def text : CodeByte → String
  | lit b => Text.hexPad 2 b.toNat
  | addr h 0 => "<" ++ h.name ++ ">"
  | addr _ _ => ""

def hex (code : List CodeByte) : String := String.join (code.map text)

def ofBytes (bs : List Byte) : List CodeByte := bs.map lit

def ofWord (w : Word) : List CodeByte := ofBytes (leBytes 4 w.toNat)

/-- All eight bytes of the address of a helper. -/
def ofHelper (h : Helper) : List CodeByte :=
  [addr h 0, addr h 1, addr h 2, addr h 3, addr h 4, addr h 5, addr h 6, addr h 7]

/-- Replace the word at an offset; `none` unless all of it lies inside the code. -/
def patchWord? (code : List CodeByte) (pos : Nat) (w : Word) : Option (List CodeByte) :=
  if pos + 4 ≤ code.length then some (code.take pos ++ ofWord w ++ code.drop (pos + 4)) else none

/-- The word at an offset; `none` unless all of it lies inside the code and is known. -/
def readWord? (code : List CodeByte) (pos : Nat) : Option Word :=
  if pos + 4 ≤ code.length then
    (((code.drop pos).take 4).mapM value?).map (fun bs => BitVec.ofNat 32 (ofLeBytes bs))
  else none

@[simp] theorem length_ofBytes (bs : List Byte) : (ofBytes bs).length = bs.length := by
  simp [ofBytes]

@[simp] theorem length_ofWord (w : Word) : (ofWord w).length = 4 := by simp [ofWord]

@[simp] theorem length_ofHelper (h : Helper) : (ofHelper h).length = 8 := rfl

end CodeByte

end EmotionEngine.Host
