import EmotionEngine.Cpu.Float
import EmotionEngine.Proofs.Float.Operations

/-!
What the floating point unit computes.

1. `FpuOp.exact` is the exact real result of an operation. An operation that rounds stores what `Single.Rounds` says of
   that result (`fpuArith_rounds`): the result rounded toward zero, and never a pattern that is read as the number of
   another one (`fpuArith_truncates`).
2. Overflow and underflow are bits of the control and status register. Each operation sets and clears its own
   (`commitFloat_flags`), so that they tell whether the exact result is out of range (`fpuArith_flags`). Only for a sum
   or a difference just above the largest magnitude no overflow is set (`sum_overflow_unset`).
-/

namespace EmotionEngine

open Single

/-! ## Exact results -/

/-- The exact result of an operation on two patterns. -/
noncomputable def FpuOp.exact (op : FpuOp) (a b : Word) : ℝ :=
  match op with
  | .add => (val a : ℚ) + (val b : ℚ)
  | .sub => (val a : ℚ) - (val b : ℚ)
  | .mul => (val a : ℚ) * (val b : ℚ)
  | .div => (val a : ℚ) / (val b : ℚ)
  | .sqrt => √|((val b : ℚ) : ℝ)|
  | .abs => |((val a : ℚ) : ℝ)|
  | .neg => -((val a : ℚ) : ℝ)
  | .mov | .cvtWS => (val a : ℚ)
  | .cvtSW => a.toInt

/-- Whether an operation rounds its result to single precision. -/
def FpuOp.rounds : FpuOp → Bool
  | .add | .sub | .mul | .div | .sqrt | .cvtSW => true
  | .abs | .neg | .mov | .cvtWS => false

namespace Cpu

variable (s : Cpu) (fd fs ft : RegNum)

theorem freg_setFreg_self (v : Word) : (s.setFreg fd v).freg fd = v := (freg_setFreg s fd fd v).trans (if_pos rfl)

theorem freg_commitFloat (r : Rounded) : (s.commitFloat fd r).freg fd = r.stored := by
  cases r <;> exact freg_setFreg_self _ fd _

variable {s ft} in
/-- An operation that rounds stores its rounded exact result. -/
theorem fpuArith_rounds {op : FpuOp} (rounding : op.rounds = true) (nonzero : op = .div → val (s.freg ft) ≠ 0) :
    ∃ o, Rounds (op.exact (s.freg fs) (s.freg ft)) o ∧ (s.fpuArith op fd fs ft).freg fd = o.stored := by
  cases op with
  | add => exact ⟨_, rounds_add _ _, freg_commitFloat s fd _⟩
  | sub => exact ⟨_, rounds_sub _ _, freg_commitFloat s fd _⟩
  | mul => exact ⟨_, (separated_mul _ _).rounds, freg_commitFloat s fd _⟩
  | div =>
    have divisor := nonzero rfl
    refine ⟨_, (separated_div _ divisor).rounds, ?_⟩
    rw [fpuArith, fpuDiv, if_neg (mt (isZero_pattern _).1 divisor)]
    exact freg_commitFloat _ fd _
  | sqrt =>
    by_cases none : val (s.freg ft) = 0
    · refine ⟨.value (zero (s.freg ft).msb), ?_, ?_⟩
      · rw [FpuOp.exact, none, Rat.cast_zero, abs_zero, Real.sqrt_zero]
        exact rounds_zero _
      · rw [fpuArith, fpuSqrt, if_pos ((isZero_pattern _).2 none), freg_setFreg_self, and_signBit]
        rfl
    · refine ⟨_, rounds_sqrt none, ?_⟩
      rw [fpuArith, fpuSqrt, if_neg (mt (isZero_pattern _).1 none), freg_setFreg_self, sqrt_stored none]
  | cvtSW =>
    refine ⟨_, rounds_ofInt _, ?_⟩
    rw [fpuArith, freg_setFreg_self, ofInt_stored]
  | abs | neg | mov | cvtWS => exact absurd rounding Bool.false_ne_true

theorem freg_fpuDiv_zero {n d : Word} (zero : isZero d = true) :
    (s.fpuDiv fd n d).freg fd = signed (n ^^^ d).msb (255 * 2 ^ 23 - 1) := by
  rw [fpuDiv, if_pos zero, freg_setFreg_self, and_signBit, zero_or_posMax]

/-- Results are exact results truncated toward zero. -/
theorem fpuArith_truncates :
    (∀ op : FpuOp, op.rounds = true →
      Ordinary ((s.fpuArith op fd fs ft).freg fd) ∧
        ((op = .div → val (s.freg ft) ≠ 0) → op.exact (s.freg fs) (s.freg ft) ≠ 0 →
          Truncates (op.exact (s.freg fs) (s.freg ft)) ((s.fpuArith op fd fs ft).freg fd))) ∧
      ((s.fpuArith .cvtWS fd fs ft).freg fd).toInt =
        max (-2 ^ 31) (min (2 ^ 31 - 1) (integerPart (val (s.freg fs)))) := by
  refine ⟨fun op rounding => ?_, ?_⟩
  · by_cases nonzero : op = .div → val (s.freg ft) ≠ 0
    · obtain ⟨o, rounds, stored⟩ := fpuArith_rounds fd fs rounding nonzero
      rw [stored]
      exact ⟨rounds.ordinary, fun _ some => rounds.truncates some⟩
    · obtain ⟨rfl, zero⟩ := Classical.not_imp.1 nonzero
      have divisor := (isZero_pattern _).2 (not_not.1 zero)
      refine ⟨?_, fun divides => absurd divides nonzero⟩
      rw [fpuArith, freg_fpuDiv_zero s fd divisor]
      exact ordinary_signed normal_max
  · rw [fpuArith, freg_setFreg_self]
    exact toInt_toWord _

theorem val_one : val 0x3F800000#32 = 1 := by
  rw [val_eq, abs_val, show exponent 0x3F800000#32 = 127 by decide, show fraction 0x3F800000#32 = 0 by decide,
    if_neg (by decide)]
  norm_num

theorem val_three : val 0x40400000#32 = 3 := by
  rw [val_eq, abs_val, show exponent 0x40400000#32 = 128 by decide, show fraction 0x40400000#32 = 2 ^ 22 by decide,
    if_neg (by decide)]
  norm_num

/-- A processor with two operands, of a quotient or a sum. -/
def withOperands (a b : Word) : Cpu := (new.setFreg 1 a).setFreg 2 b

theorem fpuArith_truncates_third : Truncates (1 / 3) 0x3EAAAAAA#32 := by
  have exact : FpuOp.exact .div 0x3F800000#32 0x40400000#32 = 1 / 3 := by
    rw [FpuOp.exact, val_one, val_three, Rat.cast_one, Rat.cast_ofNat]
  have third : ((withOperands 0x3F800000#32 0x40400000#32).fpuArith .div 0 1 2).freg 0 = 0x3EAAAAAA#32 := by decide
  have divisor : val 0x40400000#32 ≠ 0 := by
    rw [val_three]
    norm_num
  rw [← exact, ← third]
  refine ((fpuArith_truncates (withOperands 0x3F800000#32 0x40400000#32) 0 1 2).1 .div rfl).2 (fun _ => divisor) ?_
  show FpuOp.exact .div 0x3F800000#32 0x40400000#32 ≠ 0
  rw [exact]
  norm_num

/-! ## Overflow and underflow -/

/-- Whether a bit of the control and status register is set. -/
def flag (mask : Word) : Bool := (s.fcr31 &&& mask) != 0

/-- A bit after a write to the register: it is set, or was and is not cleared. -/
theorem flag_setFcr {clear set mask : Word} {i : Nat} (bit : mask = BitVec.twoPow 32 i) (inside : i < 32) :
    (s.setFcr clear set).flag mask = (s.flag mask && !clear.getLsbD i || set.getLsbD i) := by
  have read (v : Word) : ((v &&& mask) != 0) = v.getLsbD i := by
    rw [bit, BitVec.and_twoPow]
    cases v.getLsbD i with
    | false => rfl
    | true => exact bne_iff_ne.2 fun none => by simpa [inside] using congrArg (BitVec.getLsbD · i) none
  unfold flag
  rw [read, read]
  show (s.fcr31 &&& ~~~clear ||| set).getLsbD i = _
  rw [BitVec.getLsbD_or, BitVec.getLsbD_and, BitVec.getLsbD_not, decide_eq_true inside, Bool.true_and]

/-- The bits that tell about the range of results. -/
def rangeBits : Word := Fcr31.o ||| Fcr31.u ||| Fcr31.so ||| Fcr31.su

theorem setFcr_and {clear set mask : Word} (unset : set &&& mask = 0) :
    (s.setFcr clear set).fcr31 &&& mask = s.fcr31 &&& (~~~clear &&& mask) := by
  show (s.fcr31 &&& ~~~clear ||| set) &&& mask = _
  rw [BitVec.and_or_distrib_right, BitVec.and_assoc, unset]
  exact BitVec.or_zero

/-- How an operation changes the control and status register, from `s` to `t`: the cause bits say whether its result is
too large or too small, the sticky bits keep that, and of the other bits only those in `cleared` change, which are. -/
structure RangeFlags (s t : Cpu) (cleared : Word) (large small : Prop) : Prop where
  o : t.flag Fcr31.o = true ↔ large
  u : t.flag Fcr31.u = true ↔ small
  so : t.flag Fcr31.so = true ↔ s.flag Fcr31.so = true ∨ large
  su : t.flag Fcr31.su = true ↔ s.flag Fcr31.su = true ∨ small
  rest : t.fcr31 &&& ~~~rangeBits = s.fcr31 &&& (~~~cleared &&& ~~~rangeBits)

/-- The bits that are set for a result out of range. -/
def mark (large small : Bool) : Word :=
  (if large then Fcr31.o ||| Fcr31.so else 0) ||| if small then Fcr31.u ||| Fcr31.su else 0

theorem setFcr_flags (large small : Bool) :
    RangeFlags s (s.setFcr (Fcr31.o ||| Fcr31.u) (mark large small)) 0 (large = true) (small = true) := by
  have inside : mark large small &&& ~~~rangeBits = 0 := by
    revert large small
    decide
  refine ⟨?_, ?_, ?_, ?_, setFcr_and s inside⟩
  · rw [flag_setFcr s (i := 15) (by decide) (by decide)]
    generalize s.flag Fcr31.o = before
    revert before large small
    decide
  · rw [flag_setFcr s (i := 14) (by decide) (by decide)]
    generalize s.flag Fcr31.u = before
    revert before large small
    decide
  · rw [flag_setFcr s (i := 4) (by decide) (by decide)]
    generalize s.flag Fcr31.so = before
    revert before large small
    decide
  · rw [flag_setFcr s (i := 3) (by decide) (by decide)]
    generalize s.flag Fcr31.su = before
    revert before large small
    decide

theorem fcr31_commitFloat (r : Rounded) :
    (s.commitFloat fd r).fcr31 = (s.setFcr (Fcr31.o ||| Fcr31.u) (mark r.overflows r.underflows)).fcr31 := by
  cases r with
  | value b => exact congrArg (fun set => (s.setFcr _ set).fcr31) (by decide : 0 = mark false false)
  | overflow neg =>
    exact congrArg (fun set => (s.setFcr _ set).fcr31) (by decide : Fcr31.o ||| Fcr31.so = mark true false)
  | underflow neg =>
    exact congrArg (fun set => (s.setFcr _ set).fcr31) (by decide : Fcr31.u ||| Fcr31.su = mark false true)

/-- Storing a result marks its range. -/
theorem commitFloat_flags (r : Rounded) :
    RangeFlags s (s.commitFloat fd r) 0 (r.overflows = true) (r.underflows = true) := by
  obtain ⟨o, u, so, su, rest⟩ := setFcr_flags s r.overflows r.underflows
  simp only [flag, ← fcr31_commitFloat s fd r] at o u so su rest
  exact ⟨o, u, so, su, rest⟩

theorem RangeFlags.of_setFcr {s t : Cpu} {clear : Word} {large small : Prop} (so : clear.getLsbD 4 = false)
    (su : clear.getLsbD 3 = false) (flags : RangeFlags (s.setFcr clear 0) t 0 large small) :
    RangeFlags s t clear large small where
  o := flags.o
  u := flags.u
  so := by
    rw [flags.so, flag_setFcr s (i := 4) (by decide) (by decide), so]
    simp
  su := by
    rw [flags.su, flag_setFcr s (i := 3) (by decide) (by decide), su]
    simp
  rest := by
    have unset : (0 : Word) &&& ~~~rangeBits = 0 := BitVec.zero_and
    rw [flags.rest, ← setFcr_and s unset, show ~~~(0 : Word) &&& ~~~rangeBits = ~~~rangeBits by decide]

theorem RangeFlags.congr {s t : Cpu} {cleared : Word} {large small large' small' : Prop}
    (flags : RangeFlags s t cleared large small) (o : large ↔ large') (u : small ↔ small') :
    RangeFlags s t cleared large' small' :=
  ⟨flags.o.trans o, flags.u.trans u, flags.so.trans (or_congr_right o), flags.su.trans (or_congr_right u), flags.rest⟩

/-- The largest magnitude for which an operation does not report an overflow. -/
def overflowLimit : FpuOp → ℚ
  | .add | .sub => maxMagnitude + 2 ^ 74
  | _ => maxMagnitude

def divisionBits : Word := Fcr31.d ||| Fcr31.i

/-- Sums, products and quotients mark underflows exactly, and overflows up to the rounding of their 53 bits. -/
theorem fpuArith_flags (op : FpuOp) (ranged : op ∈ [FpuOp.add, .sub, .mul, .div])
    (nonzero : op = .div → val (s.freg ft) ≠ 0) :
    RangeFlags s (s.fpuArith op fd fs ft) (if op = .div then divisionBits else 0)
      ((overflowLimit op : ℚ) < |op.exact (s.freg fs) (s.freg ft)|)
      (op.exact (s.freg fs) (s.freg ft) ≠ 0 ∧ |op.exact (s.freg fs) (s.freg ft)| < (minMagnitude : ℚ)) := by
  have sum {r : ℝ} {o : Rounded} (rounds : Rounds r o) : o.overflows = true ↔ (overflowLimit .add : ℚ) < |r| := by
    rw [rounds.overflow_iff, overflowLimit]
    push_cast
    rfl
  simp only [List.mem_cons, List.not_mem_nil, or_false] at ranged
  rcases ranged with rfl | rfl | rfl | rfl
  · have rounds := rounds_add (s.freg fs) (s.freg ft)
    exact (commitFloat_flags s fd _).congr (sum rounds) rounds.underflow_iff
  · have rounds := rounds_sub (s.freg fs) (s.freg ft)
    exact (commitFloat_flags s fd _).congr (sum rounds) rounds.underflow_iff
  · have separated := separated_mul (s.freg fs) (s.freg ft)
    exact (commitFloat_flags s fd _).congr separated.overflow_iff separated.rounds.underflow_iff
  · have divisor := nonzero rfl
    have separated := separated_div (s.freg fs) divisor
    rw [fpuArith, fpuDiv, if_neg (mt (isZero_pattern _).1 divisor)]
    refine .of_setFcr (by decide) (by decide) ?_
    exact (commitFloat_flags _ fd _).congr separated.overflow_iff separated.rounds.underflow_iff

theorem fpuArith_flags_least :
    ((withOperands 0x00800000#32 0x40400000#32).fpuArith .div 0 1 2).flag Fcr31.u = true := by
  have least : val 0x00800000#32 = minMagnitude := by
    rw [val_eq, abs_val, show exponent 0x00800000#32 = 1 by decide, show fraction 0x00800000#32 = 0 by decide,
      if_neg (by decide), minMagnitude]
    norm_num
  have exact : FpuOp.exact .div 0x00800000#32 0x40400000#32 = (minMagnitude : ℚ) / 3 := by
    rw [FpuOp.exact, least, val_three, Rat.cast_ofNat]
  have divisor : val 0x40400000#32 ≠ 0 := by
    rw [val_three]
    norm_num
  have flags := fpuArith_flags (withOperands 0x00800000#32 0x40400000#32) 0 1 2 .div (by decide) fun _ => divisor
  refine flags.u.2 ?_
  show FpuOp.exact .div 0x00800000#32 0x40400000#32 ≠ 0 ∧ |FpuOp.exact .div 0x00800000#32 0x40400000#32| < _
  rw [exact, minMagnitude]
  norm_num

/-- The largest magnitude and one have a sum that is too large, but its 53 bits are not, and no overflow is set. -/
theorem sum_overflow_unset :
    (maxMagnitude : ℚ) < |FpuOp.exact .add 0x7F7FFFFF#32 0x3F800000#32| ∧
      ((withOperands 0x7F7FFFFF#32 0x3F800000#32).fpuArith .add 0 1 2).flag Fcr31.o = false := by
  have largest : val 0x7F7FFFFF#32 = maxMagnitude := by
    rw [val_eq, abs_val, show exponent 0x7F7FFFFF#32 = 254 by decide,
      show fraction 0x7F7FFFFF#32 = 2 ^ 23 - 1 by decide, if_neg (by decide), maxMagnitude]
    norm_num
  refine ⟨?_, by decide⟩
  rw [FpuOp.exact, largest, val_one, maxMagnitude]
  norm_num

end Cpu

end EmotionEngine
