import EmotionEngine.Float.Dyadic

/-!
Single-precision numbers of a unit without infinities, NaNs or denormals. A pattern with the largest
exponent reads as the largest finite number and one with exponent zero reads as a signed zero.

Results are rounded toward zero. They are computed in double precision, where overflow and underflow are
decided; for sums, what rounding to double precision has lost is taken into account where what is left is itself
a single-precision number.
-/

namespace EmotionEngine.Single

def signBit : Word := 0x80000000#32

/-- The largest finite pattern, positive. -/
def posMax : Word := 0x7F7FFFFF#32

def exponent (b : Word) : Nat := b.toNat / twoPow 23 % 256

/-- The fraction below the hidden bit. -/
def fraction (b : Word) : Nat := b.toNat % twoPow 23

def isZero (b : Word) : Bool := exponent b == 0

/-- The pattern with the number that `b` is read as. -/
def normalize (b : Word) : Word :=
  if exponent b = 255 then (b &&& signBit) ||| posMax
  else if exponent b = 0 then b &&& signBit
  else b

/-- The number that a pattern is read as. -/
def value (b : Word) : Dyadic :=
  let n := normalize b
  { neg := n.msb
    mant := if exponent n = 0 then 0 else twoPow 23 + fraction n
    exp := (exponent n : Int) - 150 }

/-- The same number as a double-precision pattern. -/
def doubleBits (b : Word) : Dword :=
  let n := normalize b
  let magnitude := if exponent n = 0 then 0 else (exponent n + 896) * twoPow 52 + fraction n * twoPow 29
  BitVec.ofNat 64 ((if n.msb then twoPow 63 else 0) + magnitude)

def zero (neg : Bool) : Word := if neg then signBit else 0

/-- The largest magnitude, `(2 ^ 24 - 1) * 2 ^ 104`. -/
def maxValue : Dyadic := { neg := false, mant := twoPow 24 - 1, exp := 104 }

/-- The smallest magnitude that is not zero, `2 ^ (-126)`. -/
def minValue : Dyadic := { neg := false, mant := 1, exp := -126 }

/-- A result: a pattern, or the sign of a number out of range. -/
inductive Rounded where
  | value (bits : Word)
  | overflow (neg : Bool)
  | underflow (neg : Bool)
  deriving DecidableEq

/-- The pattern of the magnitude of a number that has at most 24 bits and is in range. -/
def magnitudeBits (x : Dyadic) : Nat :=
  let len := bitLength x.mant
  -- The mantissa with its leading bit in the place of the hidden bit.
  let m := if 24 ≤ len then x.mant / twoPow (len - 24) else x.mant * twoPow (24 - len)
  (x.exp + len + 126).toNat * twoPow 23 + (m - twoPow 23)

def ofDyadic (x : Dyadic) : Word :=
  zero x.neg ||| BitVec.ofNat 32 (if x.isZero then 0 else magnitudeBits x)

/-- The pattern of the next number toward zero. -/
def towardZero (b : Word) : Word := if b &&& ~~~signBit = 0 then b else b - 1

/-- Round `hi + lo` toward zero, where `lo` is what `hi` has lost in a sum, and zero for other results. -/
def truncate (hi lo : Dyadic) : Rounded :=
  if hi.cmpMag maxValue = .gt then .overflow hi.neg
  else if hi.isZero = false ∧ hi.cmpMag minValue = .lt then .underflow hi.neg
  else
    let f := hi.round 24
    let b := ofDyadic f
    if f.cmpMag hi = .gt then .value (towardZero b)
    else if f.cmpMag hi = .eq ∧ lo.isZero = false ∧ lo.neg ≠ hi.neg then
      -- The exact number starts with other bits than `hi`: those of the number before it.
      let b := towardZero b
      if exponent b = 0 ∧ fraction b ≠ 0 then .underflow hi.neg else .value b
    else .value b

/-- The result of an operation that loses nothing that is looked at later. -/
def ofDouble (x : Dyadic) : Rounded := truncate x { neg := false, mant := 0, exp := 0 }

def add (x y : Dyadic) : Rounded :=
  let (hi, lo) := Double.twoSum x y
  truncate hi lo

def sub (x y : Dyadic) : Rounded := add x y.negate

def mul (x y : Dyadic) : Rounded := ofDouble (Double.mul x y)

def div (x y : Dyadic) : Rounded := ofDouble (Double.div x y)

/-- The square root of the magnitude, rounded. -/
def sqrt (x : Dyadic) : Rounded := ofDouble (Double.sqrt x)

def ofInt (i : Int) : Rounded := ofDouble (Dyadic.ofInt i)

/-- The pattern of a result that is known to be in range. -/
def Rounded.bitsOrZero : Rounded → Word
  | .value b => b
  | .overflow _ | .underflow _ => 0

/-- The integer part as a signed word; numbers outside its range give the nearest end. -/
def toWord (b : Word) : Word :=
  if exponent b ≤ 157 then BitVec.ofInt 32 (value b).trunc
  else if b.msb then 0x80000000#32 else 0x7FFFFFFF#32

end EmotionEngine.Single
