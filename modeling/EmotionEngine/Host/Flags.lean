import EmotionEngine.Host.Insn

/-!
Flags: what arithmetic leaves behind for conditions. `ArithOp.eval` gives the result of an operation on
operands of any width together with its flags, and `Cond.holds` reads them.

Main statements: after a comparison the conditions are the orders on numbers (`holds_e_cmp`,
`holds_b_cmp`, `holds_l_cmp`), and opposite conditions never agree (`holds_invert`).
-/

namespace EmotionEngine.Host

/-- The flags that conditions read. -/
structure Flags where
  carry : Bool
  zero : Bool
  sign : Bool
  overflow : Bool
  /-- Whether the low byte of the result has an even number of ones. -/
  parity : Bool
  deriving DecidableEq

namespace Flags

/-- How many of the low eight bits are ones. -/
def onesInByte {n : Nat} (r : BitVec n) : Nat := ((List.range 8).filter (fun i => r.getLsbD i)).length

/-- The flags of a result, with the carry and overflow that led to it. -/
def ofResult {n : Nat} (r : BitVec n) (carry overflow : Bool) : Flags :=
  { carry, overflow, zero := r == 0, sign := r.msb, parity := onesInByte r % 2 == 0 }

end Flags

/-- Whether the flags meet a condition. -/
def Cond.holds (c : Cond) (f : Flags) : Bool :=
  match c with
  | o => f.overflow
  | no => !f.overflow
  | b => f.carry
  | ae => !f.carry
  | e => f.zero
  | ne => !f.zero
  | be => f.carry || f.zero
  | a => !(f.carry || f.zero)
  | s => f.sign
  | ns => !f.sign
  | p => f.parity
  | np => !f.parity
  | l => f.sign != f.overflow
  | ge => !(f.sign != f.overflow)
  | le => f.zero || f.sign != f.overflow
  | g => !(f.zero || f.sign != f.overflow)

@[simp] theorem Cond.holds_invert (c : Cond) (f : Flags) : c.invert.holds f = !c.holds f := by
  cases c <;> simp [invert, holds]

/-! ## Arithmetic -/

def addFlags {n : Nat} (a b : BitVec n) (carry : Bool) : BitVec n × Flags :=
  let r := a + b + BitVec.ofNat n carry.toNat
  (r, .ofResult r (twoPow n ≤ a.toNat + b.toNat + carry.toNat) (a.msb == b.msb && r.msb != a.msb))

def subFlags {n : Nat} (a b : BitVec n) (borrow : Bool) : BitVec n × Flags :=
  let r := a - b - BitVec.ofNat n borrow.toNat
  (r, .ofResult r (a.toNat < b.toNat + borrow.toNat) (a.msb != b.msb && r.msb != a.msb))

/-- A bitwise result, which never carries. -/
def bitFlags {n : Nat} (r : BitVec n) : BitVec n × Flags := (r, .ofResult r false false)

namespace ArithOp

/-- Whether the operation takes the carry flag as an operand. -/
def usesCarry : ArithOp → Bool
  | adc | sbb => true
  | _ => false

/-- Whether the operation keeps its result. A comparison keeps only the flags. -/
def keeps : ArithOp → Bool
  | cmp => false
  | _ => true

/-- The result and the flags of an operation; `carry` counts where the operation uses it. -/
def eval {n : Nat} (op : ArithOp) (carry : Bool) (a b : BitVec n) : BitVec n × Flags :=
  match op with
  | add => addFlags a b false
  | adc => addFlags a b carry
  | sub | cmp => subFlags a b false
  | sbb => subFlags a b carry
  | and => bitFlags (a &&& b)
  | or => bitFlags (a ||| b)
  | xor => bitFlags (a ^^^ b)

/-- The operation on 64-bit operands, or on their low halves with a zero-extended result. -/
def apply (op : ArithOp) (wide carry : Bool) (a b : Dword) : Dword × Flags :=
  if wide then op.eval carry a b
  else
    let (r, f) := op.eval carry (a.setWidth 32 : Word) (b.setWidth 32)
    (r.setWidth 64, f)

end ArithOp

/-- The operands of a comparison are equal. -/
theorem holds_e_cmp {n : Nat} (a b : BitVec n) :
    Cond.e.holds (ArithOp.cmp.eval false a b).2 = (a == b) := by
  have zero : (a - b = 0#n) ↔ a = b := by
    constructor
    · intro h
      have e := congrArg (· + b) h
      simpa [BitVec.sub_add_cancel] using e
    · rintro rfl
      exact BitVec.sub_self a
  simp only [Cond.holds, ArithOp.eval, subFlags, Flags.ofResult, Bool.toNat_false]
  rw [Bool.eq_iff_iff]
  simp [zero]

/-- The first operand of a comparison is smaller as an unsigned number. -/
theorem holds_b_cmp {n : Nat} (a b : BitVec n) :
    Cond.b.holds (ArithOp.cmp.eval false a b).2 = a.ult b := by
  simp [Cond.holds, ArithOp.eval, subFlags, Flags.ofResult, BitVec.ult_eq_decide]

/-- The first operand of a comparison is smaller as a signed number: the sign of the difference tells,
unless it overflowed. -/
theorem holds_l_cmp {n : Nat} (a b : BitVec n) :
    Cond.l.holds (ArithOp.cmp.eval false a b).2 = a.slt b := by
  have ha := a.isLt
  have hb := b.isLt
  simp only [Cond.holds, ArithOp.eval, subFlags, Flags.ofResult, Bool.toNat_false, BitVec.ofNat_eq_ofNat,
    BitVec.sub_zero]
  cases n with
  | zero => simp [BitVec.msb, BitVec.eq_nil a, BitVec.eq_nil b]
  | succ n =>
    have half : 2 ^ (n + 1) = 2 * 2 ^ n := by rw [Nat.pow_succ, Nat.mul_comm]
    simp only [BitVec.msb_eq_decide, BitVec.slt_eq_decide, BitVec.toInt_eq_toNat_cond, BitVec.toNat_sub,
      Nat.add_sub_cancel, half] at *
    have wrap : (2 * 2 ^ n - b.toNat + a.toNat) % (2 * 2 ^ n) =
        if b.toNat ≤ a.toNat then a.toNat - b.toNat else 2 * 2 ^ n - b.toNat + a.toNat := by
      split
      · next h =>
        rw [show 2 * 2 ^ n - b.toNat + a.toNat = (a.toNat - b.toNat) + 2 * 2 ^ n by omega,
          Nat.add_mod_right, Nat.mod_eq_of_lt (by omega)]
      · next h => exact Nat.mod_eq_of_lt (by omega)
    rw [wrap]
    by_cases c1 : 2 ^ n ≤ a.toNat <;> by_cases c2 : 2 ^ n ≤ b.toNat <;>
      by_cases c3 : b.toNat ≤ a.toNat <;> simp [c1, c2, c3] <;> grind

/-! ## Shifts -/

namespace ShiftOp

/-- The operation by `k` places. -/
def eval {n : Nat} (op : ShiftOp) (a : BitVec n) (k : Nat) : BitVec n :=
  match op with
  | rol => a.rotateLeft k
  | ror => a.rotateRight k
  | shl => a <<< k
  | shr => a >>> k
  | sar => a.sshiftRight k

/-- How many places an amount stands for: it counts modulo the operand size. -/
def places (wide : Bool) (amount : Byte) : Nat := amount.toNat % (if wide then 64 else 32)

/-- The operation on a 64-bit operand, or on its low half with a zero-extended result. -/
def apply (op : ShiftOp) (wide : Bool) (a : Dword) (k : Nat) : Dword :=
  if wide then op.eval a k else (op.eval (a.setWidth 32 : Word) k).setWidth 64

end ShiftOp

end EmotionEngine.Host
