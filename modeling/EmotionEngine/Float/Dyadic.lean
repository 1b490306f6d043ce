import EmotionEngine.Word

/-!
Dyadic numbers: a sign, a natural mantissa and a power of two. Sums, products and comparisons of
dyadics are exact. Quotients and square roots are not dyadic in general; they are represented by more
bits than any later rounding keeps, with a lowest bit that records whether something was cut off, so
that rounding to the nearest still decides every case by the exact value.

Rounding keeps a number of leading bits, to the nearest with ties to even. Double-precision arithmetic, as a
host has it, is the exact result of an operation rounded to 53 bits. Exponents have no bounds here, because
what single-precision numbers give in one or two operations is far from the ends of the range of doubles.
-/

namespace EmotionEngine

/-- The number `± mant * 2 ^ exp`. Zero keeps its sign. -/
structure Dyadic where
  neg : Bool
  mant : Nat
  exp : Int
  deriving DecidableEq

/-- The number of bits of `n`; zero has none. -/
def bitLength (n : Nat) : Nat := if n = 0 then 0 else n.log2 + 1

/-- `n / 2 ^ drop` to the nearest integer; a tie goes to the even neighbour. -/
def roundHalfEven (n drop : Nat) : Nat :=
  let q := n / twoPow drop
  let r := n % twoPow drop
  if twoPow drop < 2 * r ∨ (2 * r = twoPow drop ∧ q % 2 = 1) then q + 1 else q

/-- The largest `r` with `r * r ≤ n` among those below `2 ^ bits` above `r₀`, bit by bit. -/
def sqrtBits (n : Nat) : Nat → Nat → Nat
  | 0, r => r
  | bits + 1, r =>
    let r' := r + twoPow bits
    if r' * r' ≤ n then sqrtBits n bits r' else sqrtBits n bits r

def natSqrt (n : Nat) : Nat := sqrtBits n (bitLength n) 0

/-- An even number when `exact`, else the odd number above it: the last bit tells whether a value that
was cut to `n` halves lost something. -/
def sticky (n : Nat) (exact : Bool) : Nat := if exact then 2 * n else 2 * n + 1

namespace Dyadic

def isZero (x : Dyadic) : Bool := x.mant == 0

/-- The mantissa of `x` scaled so that its exponent is `e`, for `e` not above `x.exp`. -/
def scaled (x : Dyadic) (e : Int) : Nat := x.mant * twoPow (x.exp - e).toNat

def signedScaled (x : Dyadic) (e : Int) : Int := if x.neg then -(x.scaled e : Int) else x.scaled e

/-- How two numbers compare. Both zeros are equal. -/
def cmp (x y : Dyadic) : Ordering :=
  let e := min x.exp y.exp
  compare (x.signedScaled e) (y.signedScaled e)

def cmpMag (x y : Dyadic) : Ordering :=
  let e := min x.exp y.exp
  compare (x.scaled e) (y.scaled e)

def negate (x : Dyadic) : Dyadic := { x with neg := !x.neg }

def abs (x : Dyadic) : Dyadic := { x with neg := false }

/-- The exact sum. A zero sum is negative only when both terms are negative zeros. -/
def add (x y : Dyadic) : Dyadic :=
  let e := min x.exp y.exp
  let s := x.signedScaled e + y.signedScaled e
  { neg := if s = 0 then x.neg && y.neg else decide (s < 0), mant := s.natAbs, exp := e }

def mul (x y : Dyadic) : Dyadic :=
  { neg := x.neg != y.neg, mant := x.mant * y.mant, exp := x.exp + y.exp }

/-- The quotient of numbers with mantissas below `2 ^ 24`, to 60 bits or more with a sticky bit. -/
def div (x y : Dyadic) : Dyadic :=
  let n := x.mant * twoPow 60
  { neg := x.neg != y.neg
    mant := sticky (n / y.mant) (n % y.mant == 0)
    exp := x.exp - y.exp - 61 }

/-- The square root of the magnitude, for a mantissa below `2 ^ 24`, to 60 bits or more with a sticky
bit. -/
def sqrt (x : Dyadic) : Dyadic :=
  -- With an even exponent the root of the power of two is one too.
  let shift := 100 + (x.exp % 2).toNat
  let n := x.mant * twoPow shift
  let r := natSqrt n
  { neg := false, mant := sticky r (r * r == n), exp := (x.exp - shift) / 2 - 1 }

/-- The nearest number with at most `bits` bits, ties to even. -/
def round (bits : Nat) (x : Dyadic) : Dyadic :=
  let drop := bitLength x.mant - bits
  { x with mant := roundHalfEven x.mant drop, exp := x.exp + drop }

/-- The integer part, toward zero. -/
def trunc (x : Dyadic) : Int :=
  let m := if 0 ≤ x.exp then x.mant * twoPow x.exp.toNat else x.mant / twoPow (-x.exp).toNat
  if x.neg then -m else m

/-- The number of a signed integer. -/
def ofInt (i : Int) : Dyadic := { neg := decide (i < 0), mant := i.natAbs, exp := 0 }

end Dyadic

/-! ## Double precision -/

namespace Double

/-- The number of bits of a mantissa. -/
def precision : Nat := 53

def add (x y : Dyadic) : Dyadic := (x.add y).round precision

def sub (x y : Dyadic) : Dyadic := add x y.negate

def mul (x y : Dyadic) : Dyadic := (x.mul y).round precision

/-- A quotient, of numbers with mantissas below `2 ^ 24`. -/
def div (x y : Dyadic) : Dyadic := (x.div y).round precision

/-- The square root of a magnitude, for a mantissa below `2 ^ 24`. -/
def sqrt (x : Dyadic) : Dyadic := x.sqrt.round precision

/-- A sum, and what rounding it has lost: the second term is recovered from the sum, and then what of either
term is not in it. -/
def twoSum (x y : Dyadic) : Dyadic × Dyadic :=
  let sum := add x y
  let second := sub sum x
  (sum, add (sub x (sub sum second)) (sub y second))

end Double

end EmotionEngine
