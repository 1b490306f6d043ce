import EmotionEngine.Cpu.Basic
import EmotionEngine.Float.Single
import EmotionEngine.Insn.Basic

/-!
The floating point unit: its register operations, comparisons and control registers. Each operation
sets or clears its own cause bits in the control and status register and may set sticky bits, which
nothing but a control move clears.
-/

namespace EmotionEngine.Cpu

/-- Clear some bits of the control and status register, then set others. -/
def setFcr (s : Cpu) (clear set : Word) : Cpu := { s with fcr31 := (s.fcr31 &&& ~~~clear) ||| set }

/-- Store a rounded result. An overflow stores the largest magnitude, an underflow a signed zero, and
each sets its cause and sticky bits. -/
def commitFloat (s : Cpu) (fd : RegNum) (r : Single.Rounded) : Cpu :=
  let both := Fcr31.o ||| Fcr31.u
  match r with
  | .value b => (s.setFcr both 0).setFreg fd b
  | .overflow neg =>
    (s.setFcr both (Fcr31.o ||| Fcr31.so)).setFreg fd (Single.zero neg ||| Single.posMax)
  | .underflow neg => (s.setFcr both (Fcr31.u ||| Fcr31.su)).setFreg fd (Single.zero neg)

/-- A division. A zero divisor gives the largest magnitude with the sign of the quotient, and marks an
invalid operation if the dividend is zero too, else a division by zero. -/
def fpuDiv (s : Cpu) (fd : RegNum) (n d : Word) : Cpu :=
  let both := Fcr31.d ||| Fcr31.i
  if Single.isZero d then
    let mark := if Single.isZero n then Fcr31.i ||| Fcr31.si else Fcr31.d ||| Fcr31.sd
    (s.setFcr both mark).setFreg fd (((n ^^^ d) &&& Single.signBit) ||| Single.posMax)
  else (s.setFcr both 0).commitFloat fd (Single.div (Single.value n) (Single.value d))

/-- A square root, of the magnitude; a negative operand marks an invalid operation. -/
def fpuSqrt (s : Cpu) (fd : RegNum) (t : Word) : Cpu :=
  let both := Fcr31.d ||| Fcr31.i
  if Single.isZero t then (s.setFcr both 0).setFreg fd (t &&& Single.signBit)
  else
    let mark := if t.msb then Fcr31.i ||| Fcr31.si else 0
    (s.setFcr both mark).setFreg fd (Single.sqrt (Single.value t)).bitsOrZero

/-- A register operation. One-operand operations read `fs`, the square root reads `ft`. -/
def fpuArith (s : Cpu) (op : FpuOp) (fd fs ft : RegNum) : Cpu :=
  let a := s.freg fs
  let b := s.freg ft
  match op with
  | .add => s.commitFloat fd (Single.add (Single.value a) (Single.value b))
  | .sub => s.commitFloat fd (Single.sub (Single.value a) (Single.value b))
  | .mul => s.commitFloat fd (Single.mul (Single.value a) (Single.value b))
  | .div => s.fpuDiv fd a b
  | .sqrt => s.fpuSqrt fd b
  | .abs => (s.setFcr (Fcr31.o ||| Fcr31.u) 0).setFreg fd (a &&& ~~~Single.signBit)
  | .neg => (s.setFcr (Fcr31.o ||| Fcr31.u) 0).setFreg fd (a ^^^ Single.signBit)
  | .mov => s.setFreg fd a
  | .cvtWS => s.setFreg fd (Single.toWord a)
  | .cvtSW => s.setFreg fd (Single.ofInt a.toInt).bitsOrZero

def fpuHolds (cond : FpuCond) (a b : Word) : Bool :=
  let o := (Single.value a).cmp (Single.value b)
  match cond with
  | .f => false
  | .eq => o == .eq
  | .lt => o == .lt
  | .le => o != .gt

/-- Set or clear the condition bit. -/
def fpuCompare (s : Cpu) (cond : FpuCond) (fs ft : RegNum) : Cpu :=
  if fpuHolds cond (s.freg fs) (s.freg ft) then s.setFcr 0 Fcr31.c else s.setFcr Fcr31.c 0

def fpuCondition (s : Cpu) : Bool := (s.fcr31 &&& Fcr31.c) != 0

/-- Control register number `n`; only 0 and 31 exist, the rest read as zero. -/
def fpuControl (s : Cpu) (n : Nat) : Word :=
  if n = 0 then fcr0Value else if n = 31 then s.fcr31 else 0

/-- Write control register number `n`; only 31 can be written, and only its writable bits. -/
def setFpuControl (s : Cpu) (n : Nat) (v : Word) : Cpu :=
  if n = 31 then { s with fcr31 := v &&& Fcr31.writable } else s

end EmotionEngine.Cpu
