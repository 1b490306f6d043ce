/-!
Machine words. The guest works on bytes, halfwords, 32-bit words, 64-bit doublewords and 128-bit
quadwords; each is a bit vector of its width. This module names them, gives the two sign extensions
that most scalar instructions end in, the two halves of a quadword, files of registers, the little-endian
form in which every value lies in memory, and the widths in which memory is accessed. Sizes of fields and
ends of ranges are powers of two.

Main statements: writing a value as `n` bytes and reading the bytes back gives the value modulo
`2 ^ (8 * n)` (`ofLeBytes_leBytes`), and the halves of a quadword determine it (`joinHalves_halves`).
-/

namespace EmotionEngine

/-! ## Powers of two -/

abbrev twoPow (n : Nat) : Nat := Nat.pow 2 n

theorem twoPow_succ (n : Nat) : twoPow (n + 1) = 2 * twoPow n := by
  rw [Nat.mul_comm]
  rfl

theorem twoPow_add (m n : Nat) : twoPow (m + n) = twoPow m * twoPow n := by
  induction n with
  | zero => exact (Nat.mul_one _).symm
  | succ n ih => rw [Nat.add_succ, twoPow_succ, ih, twoPow_succ, Nat.mul_left_comm]

/-! ## Words -/

abbrev Byte := BitVec 8
abbrev Half := BitVec 16
abbrev Word := BitVec 32
abbrev Dword := BitVec 64
abbrev Quad := BitVec 128

/-- The number of a general purpose or floating point register. -/
abbrev RegNum := Fin 32

/-- A numeral may stand for a register number. -/
instance regNum_neZero : @NeZero Nat Zero.ofOfNat0 32 := ⟨by decide⟩

/-! ## Register files -/

/-- A register file with one register changed. -/
def setAt {α : Type} {n : Nat} (v : Vector α n) (i : Fin n) (x : α) : Vector α n := v.set i.val x i.isLt

theorem get_setAt {α : Type} {n : Nat} (v : Vector α n) (i j : Fin n) (x : α) :
    (setAt v i x).get j = if j = i then x else v.get j := by
  show (v.set i.val x i.isLt)[j.val] = _
  rw [Vector.getElem_set]
  by_cases h : j = i
  · simp [h]
  · have hne : i.val ≠ j.val := fun e => h (Fin.ext e.symm)
    rw [if_neg hne, if_neg h]
    rfl

theorem get_ofFn {α : Type} {n : Nat} (f : Fin n → α) (i : Fin n) : (Vector.ofFn f).get i = f i := by
  show (Vector.ofFn f)[i.val] = f i
  simp

/-! ## Extensions -/

/-- A word as a signed doubleword: how every 32-bit result reaches a 64-bit register. -/
def sextWord (w : Word) : Dword := w.signExtend 64

/-- The low 32 bits of `v`, sign-extended. -/
def sext32 (v : Dword) : Dword := sextWord (v.setWidth 32)

def simm (i : Half) : Dword := i.signExtend 64

/-- A truth value as the number one or zero. -/
def flag (b : Bool) : Dword := if b then 1 else 0

/-! ## Halves of a quadword -/

/-- The low 64 bits: all that scalar instructions see. -/
def lowHalf (q : Quad) : Dword := q.setWidth 64

def highHalf (q : Quad) : Dword := q.extractLsb' 64 64

def joinHalves (high low : Dword) : Quad := high.setWidth 128 <<< 64 ||| low.setWidth 128

@[simp] theorem lowHalf_joinHalves (h l : Dword) : lowHalf (joinHalves h l) = l := by
  apply BitVec.eq_of_getLsbD_eq
  intro i hi
  simp [lowHalf, joinHalves, hi]

@[simp] theorem highHalf_joinHalves (h l : Dword) : highHalf (joinHalves h l) = h := by
  apply BitVec.eq_of_getLsbD_eq
  intro i hi
  simp [highHalf, joinHalves, hi, show 64 + i < 128 by omega]

@[simp] theorem joinHalves_halves (q : Quad) : joinHalves (highHalf q) (lowHalf q) = q := by
  apply BitVec.eq_of_getLsbD_eq
  intro i hi
  by_cases h : i < 64
  · simp [highHalf, lowHalf, joinHalves, h, hi]
  · have h' : i - 64 < 64 := by omega
    simp [highHalf, lowHalf, joinHalves, h, hi, h', Nat.add_sub_cancel' (Nat.le_of_not_lt h)]

/-! ## Little-endian bytes -/

/-- The `n` low bytes of `v`, least significant first. -/
def leBytes : Nat → Nat → List Byte
  | 0, _ => []
  | n + 1, v => BitVec.ofNat 8 v :: leBytes n (v / 256)

/-- The number whose bytes are given, least significant first. -/
def ofLeBytes : List Byte → Nat
  | [] => 0
  | b :: rest => b.toNat + 256 * ofLeBytes rest

@[simp] theorem length_leBytes (n v : Nat) : (leBytes n v).length = n := by
  induction n generalizing v with
  | zero => rfl
  | succ n ih => simp [leBytes, ih]

theorem ofLeBytes_leBytes (n v : Nat) : ofLeBytes (leBytes n v) = v % twoPow (8 * n) := by
  induction n generalizing v with
  | zero => simp [leBytes, ofLeBytes, Nat.mod_one]
  | succ n ih =>
    have byte : (BitVec.ofNat 8 v).toNat = v % 256 := by simp
    have grow : twoPow (8 * (n + 1)) = 256 * twoPow (8 * n) := by
      rw [Nat.mul_succ, twoPow_add, Nat.mul_comm]
    rw [leBytes, ofLeBytes, ih, byte, grow, Nat.mod_mul]

/-! ## Widths -/

/-- Access widths. -/
inductive Width where
  | byte | half | word | dword | quad
  deriving DecidableEq

namespace Width

def size : Width → Nat
  | byte => 1
  | half => 2
  | word => 4
  | dword => 8
  | quad => 16

theorem size_pos (w : Width) : 0 < w.size := by cases w <;> decide

def ofSize? : Nat → Option Width
  | 1 => some byte
  | 2 => some half
  | 4 => some word
  | 8 => some dword
  | 16 => some quad
  | _ => none

/-- The part of a value that the width holds. -/
def truncate (w : Width) (v : Quad) : Quad := BitVec.ofNat 128 (v.toNat % twoPow (8 * w.size))

end Width

/-! ## Addresses -/

def pageSize : Nat := 4096

/-- The physical address space is 512 MiB. -/
def physSpace : Nat := twoPow 29

/-- The physical address behind a virtual one: every segment maps to the low 512 MiB. -/
def virtToPhys (vaddr : Word) : Nat := vaddr.toNat % physSpace

def pageOf (addr : Nat) : Nat := addr / pageSize

/-- The position of an address inside its page. -/
def pageOffset (addr : Nat) : Nat := addr % pageSize

end EmotionEngine
