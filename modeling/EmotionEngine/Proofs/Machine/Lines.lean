import EmotionEngine.Machine.Basic
import EmotionEngine.Proofs.Cpu.System
import Mathlib.Data.BitVec

/-!
Interrupt lines and the timer. Lines 2 to 7 are raised and cleared from outside at any time and copied into
Cause when they are latched. Line 7 has its bit in common with the timer, which requests an interrupt when
Count comes to Compare; that request is withdrawn only by a write to Compare, so a latch has to keep it, and
nothing in Cause tells it from a line 7 that was raised at an earlier latch.

What a history of such signals amounts to is said without Cause: whether a line is raised (`Signal.raised`),
whether Count has come to Compare since Compare was written (`Signal.timed`), and whether line 7 was raised
at a latch since then (`Signal.held`).

Main statements: `Core.latched_iff`, what each bit is after a latch; and `Core.line_seven_stuck`, that line 7,
unlike the others, is not let go when it is cleared.
-/

namespace EmotionEngine

/-! ## Count and Compare -/

/-- The distance from Count to Compare tells whether one of the next `n` instructions brings Count there. At
distance zero that takes a whole round. -/
theorem distance_lt_iff (count compare n : Word) :
    compare - count - 1 < n ↔ ∃ j, 1 ≤ j ∧ j ≤ n.toNat ∧ count + BitVec.ofNat 32 j = compare := by
  have back : count + BitVec.ofNat 32 ((compare - count - 1).toNat + 1) = compare := by
    rw [BitVec.ofNat_add, BitVec.ofNat_toNat, BitVec.setWidth_eq]
    show count + (compare - count - 1#32 + 1#32) = compare
    rw [BitVec.sub_add_cancel, BitVec.add_comm, BitVec.sub_add_cancel]
  rw [BitVec.lt_def]
  constructor
  · intro near
    exact ⟨(compare - count - 1).toNat + 1, by omega, by omega, back⟩
  · rintro ⟨j, positive, within, rfl⟩
    have bounded := n.isLt
    have distance : (count + BitVec.ofNat 32 j - count - 1).toNat = j - 1 := by
      rw [BitVec.add_comm count, BitVec.add_sub_cancel, BitVec.toNat_sub, BitVec.toNat_ofNat]
      show (4294967296 - 1 + j % 4294967296) % 4294967296 = j - 1
      omega
    omega

namespace Core

/-! ## Signals -/

/-- The interrupt lines that have a bit in Cause. -/
structure Line where
  number : Nat
  least : 2 ≤ number
  most : number ≤ 7
  deriving DecidableEq

namespace Line

/-- The line that has its bit in common with the timer. -/
def seven : Line := ⟨7, by decide, by decide⟩

def place (l : Line) : Nat := 8 + l.number

def bit (l : Line) : Word := (lineBit? l.number).getD 0

theorem place_lt (l : Line) : l.place < 32 := by
  have := l.most
  unfold place
  omega

theorem place_inj {l l' : Line} : l.place = l'.place ↔ l = l' := by
  cases l
  cases l'
  simp only [place, mk.injEq]
  omega

theorem getLsbD_ipMask (l : Line) : Cause.ipMask.getLsbD l.place = true := by
  have each : ∀ n, n < 8 → 2 ≤ n → Cause.ipMask.getLsbD (8 + n) = true := by decide
  exact each l.number (Nat.lt_succ_of_le l.most) l.least

theorem getLsbD_ipTimer (l : Line) : Cause.ipTimer.getLsbD l.place = decide (l = seven) := by
  have timer : Cause.ipTimer = BitVec.twoPow 32 seven.place := by decide
  rw [timer, BitVec.getLsbD_twoPow, decide_eq_true seven.place_lt, Bool.true_and]
  exact decide_eq_decide.2 (place_inj.trans eq_comm)

theorem getLsbD_bit (l l' : Line) : l.bit.getLsbD l'.place = decide (l' = l) := by
  have range : l.number < 24 := by
    have := l.most
    omega
  have one : (1#32 <<< (8 + l.number)) = BitVec.twoPow 32 l.place := (BitVec.twoPow_eq 32 l.place).symm
  unfold bit lineBit?
  rw [if_pos range, one, Option.getD_some, BitVec.getLsbD_and, getLsbD_ipMask, Bool.and_true,
    BitVec.getLsbD_twoPow, decide_eq_true l.place_lt, Bool.true_and]
  exact decide_eq_decide.2 (place_inj.trans eq_comm)

end Line

/-- What can happen to the interrupt requests of a core. -/
inductive Signal where
  | raise (l : Line)
  | clear (l : Line)
  | writeCompare (v : Word)
  | writeCause (v : Word)
  /-- So many instructions are counted. -/
  | advance (insns : Word)
  /-- The lines are copied into Cause. -/
  | latch

def signal (c : Core) : Signal → Core
  | .raise l => c.raiseLine l.bit
  | .clear l => c.clearLine l.bit
  | .writeCompare v => { c with cpu := (c.cpu.mtc0 Cop0.compare v).2 }
  | .writeCause v => { c with cpu := (c.cpu.mtc0 Cop0.cause v).2 }
  | .advance insns => { c with cpu := c.cpu.advanceCount insns }
  | .latch => { c with cpu := c.cpu.latchInterrupts c.lines }

/-- A core after a history of signals, the latest first. -/
def signals (c : Core) : List Signal → Core
  | [] => c
  | σ :: before => (c.signals before).signal σ

/-! ## What a history amounts to -/

namespace Signal

/-- Whether a line is raised, if those of `lines` were at first. -/
def raised (lines : Word) (l : Line) : List Signal → Bool
  | [] => lines.getLsbD l.place
  | raise l' :: before => l = l' || raised lines l before
  | clear l' :: before => l ≠ l' && raised lines l before
  | _ :: before => raised lines l before

def count : List Signal → Word
  | [] => 0
  | advance insns :: before => count before + insns
  | _ :: before => count before

def compare : List Signal → Word
  | [] => 0
  | writeCompare v :: _ => v
  | _ :: before => compare before

/-- Count has come to Compare since Compare was last written. -/
def timed : List Signal → Prop
  | [] => False
  | writeCompare _ :: _ => False
  | advance insns :: before => timed before ∨
    ∃ j, 1 ≤ j ∧ j ≤ insns.toNat ∧ count before + BitVec.ofNat 32 j = compare before
  | _ :: before => timed before

/-- Line 7 was raised at a latch since Compare was last written. -/
def held (lines : Word) : List Signal → Prop
  | [] => False
  | writeCompare _ :: _ => False
  | latch :: before => held lines before ∨ raised lines .seven before = true
  | _ :: before => held lines before

end Signal

/-! ## What a core makes of it -/

open Signal (raised count compare timed held)

/-- A core that has followed a history since its reset. -/
structure Follows (lines : Word) (history : List Signal) (c : Core) : Prop where
  line : ∀ l : Line, c.lines.getLsbD l.place = raised lines l history
  count : c.cpu.creg Cop0.count = count history
  compare : c.cpu.creg Cop0.compare = compare history
  timer : (c.cpu.creg Cop0.cause).getLsbD Line.seven.place = true ↔ timed history ∨ held lines history
  /-- The core is in kernel mode, so what it writes is written. -/
  usable : c.cpu.cop0Usable = true

theorem follows_reset (c : Core) (s : Shared) : Follows c.lines [] (c.reset s).1 where
  line _ := rfl
  count := rfl
  compare := rfl
  timer := by
    rw [show (c.reset s).1.cpu.creg Cop0.cause = 0 from rfl]
    simp [timed, held]
  usable := by
    have status : (c.reset s).1.cpu.status = Status.erl ||| Status.bev := rfl
    unfold Cpu.cop0Usable Cpu.inKernelMode
    rw [status]
    decide

/-- The timer's bit after a latch, and the bits of the other lines. -/
theorem latch_bit (c : Core) (l : Line) :
    ((c.signal .latch).cpu.creg Cop0.cause).getLsbD l.place =
      (c.lines.getLsbD l.place || (l = .seven && (c.cpu.creg Cop0.cause).getLsbD l.place)) := by
  show ((c.cpu.setCreg Cop0.cause _).creg Cop0.cause).getLsbD l.place = _
  rw [Cpu.creg_setCreg_self]
  simp only [BitVec.getLsbD_or, BitVec.getLsbD_and, BitVec.getLsbD_not, Line.getLsbD_ipMask,
    Line.getLsbD_ipTimer, Bool.not_true, Bool.and_false, Bool.false_or, Bool.and_true]
  rw [Bool.and_comm (decide _)]

section
variable {lines : Word} {history : List Signal} {c : Core} (h : Follows lines history c)
include h

theorem Follows.raise (l : Line) : Follows lines (.raise l :: history) (c.signal (.raise l)) where
  line l' := by
    show (c.lines ||| l.bit).getLsbD l'.place = (l' = l || raised lines l' history)
    rw [BitVec.getLsbD_or, h.line, Line.getLsbD_bit, Bool.or_comm]
  count := h.count
  compare := h.compare
  timer := h.timer
  usable := h.usable

theorem Follows.clear (l : Line) : Follows lines (.clear l :: history) (c.signal (.clear l)) where
  line l' := by
    show (c.lines &&& ~~~l.bit).getLsbD l'.place = (l' ≠ l && raised lines l' history)
    rw [BitVec.getLsbD_and, h.line, BitVec.getLsbD_not, Line.getLsbD_bit, decide_eq_true l'.place_lt,
      Bool.true_and, Bool.and_comm, decide_not]
  count := h.count
  compare := h.compare
  timer := h.timer
  usable := h.usable

/-- A permitted write to Compare withdraws what the timer requests. -/
theorem Follows.writeCompare (v : Word) :
    Follows lines (.writeCompare v :: history) (c.signal (.writeCompare v)) := by
  have written : (c.signal (.writeCompare v)).cpu =
      (c.cpu.setCreg Cop0.compare v).setCreg Cop0.cause
        ((c.cpu.setCreg Cop0.compare v).creg Cop0.cause &&& ~~~Cause.ipTimer) := by
    show (c.cpu.mtc0 Cop0.compare v).2 = _
    rw [c.cpu.mtc0_usable h.usable]
    rfl
  constructor
  case line => exact h.line
  all_goals rw [written]
  case count =>
    rw [Cpu.creg_setCreg_ne _ (by decide), Cpu.creg_setCreg_ne _ (by decide)]
    exact h.count
  case compare =>
    rw [Cpu.creg_setCreg_ne _ (by decide), Cpu.creg_setCreg_self]
    rfl
  case timer =>
    rw [Cpu.creg_setCreg_self, BitVec.getLsbD_and, BitVec.getLsbD_not, Line.getLsbD_ipTimer]
    simp [timed, held]
  case usable =>
    rw [Cpu.cop0Usable_setCreg _ (by decide), Cpu.cop0Usable_setCreg _ (by decide)]
    exact h.usable

/-- A permitted write to Cause reaches only the requests of software. -/
theorem Follows.writeCause (v : Word) :
    Follows lines (.writeCause v :: history) (c.signal (.writeCause v)) := by
  have written : (c.signal (.writeCause v)).cpu =
      c.cpu.setCreg Cop0.cause
        ((c.cpu.creg Cop0.cause &&& ~~~Cause.softwareMask) ||| (v &&& Cause.softwareMask)) := by
    show (c.cpu.mtc0 Cop0.cause v).2 = _
    rw [c.cpu.mtc0_usable h.usable]
    rfl
  have apart : Cause.softwareMask.getLsbD Line.seven.place = false := by decide
  constructor
  case line => exact h.line
  all_goals rw [written]
  case count =>
    rw [Cpu.creg_setCreg_ne _ (by decide)]
    exact h.count
  case compare =>
    rw [Cpu.creg_setCreg_ne _ (by decide)]
    exact h.compare
  case timer =>
    rw [Cpu.creg_setCreg_self, BitVec.getLsbD_or, BitVec.getLsbD_and, BitVec.getLsbD_and,
      BitVec.getLsbD_not, apart, decide_eq_true Line.seven.place_lt]
    simp only [Bool.not_false, Bool.and_true, Bool.and_false, Bool.or_false]
    exact h.timer
  case usable =>
    rw [Cpu.cop0Usable_setCreg _ (by decide)]
    exact h.usable

/-- Where Count comes to Compare, the timer requests an interrupt. -/
theorem Follows.advance (insns : Word) :
    Follows lines (.advance insns :: history) (c.signal (.advance insns)) := by
  have near := distance_lt_iff (Signal.count history) (Signal.compare history) insns
  constructor
  case line => exact h.line
  case compare => exact (c.cpu.creg_advanceCount insns (by decide) (by decide)).trans h.compare
  case count =>
    rw [Signal.count, ← h.count]
    exact c.cpu.count_advanceCount insns
  case timer =>
    show ((c.cpu.advanceCount insns).creg Cop0.cause).getLsbD Line.seven.place = true ↔ _
    rw [Cpu.cause_advanceCount, h.count, h.compare]
    have old := h.timer
    split
    · next near' =>
      rw [BitVec.getLsbD_or, Line.getLsbD_ipTimer]
      simp only [timed, ← near, near', decide_true, Bool.or_true, or_true, true_or]
    · next far =>
      simp only [timed, held, ← near, far, or_false]
      exact old
  case usable =>
    exact (Cpu.cop0Usable_congr (c.cpu.creg_advanceCount insns (by decide) (by decide))).trans h.usable

theorem Follows.latch : Follows lines (.latch :: history) (c.signal .latch) where
  line := h.line
  count := (c.cpu.creg_latchInterrupts _ (by decide)).trans h.count
  compare := (c.cpu.creg_latchInterrupts _ (by decide)).trans h.compare
  timer := by
    rw [latch_bit, Bool.or_eq_true, h.line, decide_eq_true rfl, Bool.true_and, h.timer]
    simp only [timed, held]
    tauto
  usable := (c.cpu.cop0Usable_setCreg (by decide) _).trans h.usable

theorem Follows.signal (σ : Signal) : Follows lines (σ :: history) (c.signal σ) := by
  cases σ with
  | raise l => exact h.raise l
  | clear l => exact h.clear l
  | writeCompare v => exact h.writeCompare v
  | writeCause v => exact h.writeCause v
  | advance insns => exact h.advance insns
  | latch => exact h.latch

end

theorem follows_signals (c : Core) (s : Shared) (history : List Signal) :
    Follows c.lines history ((c.reset s).1.signals history) := by
  induction history with
  | nil => exact c.follows_reset s
  | cons σ before ih => exact ih.signal σ

/-- After a latch, the bit of a line is set exactly if the line is raised, or, for line 7, if Count has come
to Compare, or line 7 was raised at an earlier latch, since Compare was last written. -/
theorem latched_iff (c : Core) (s : Shared) (history : List Signal) (l : Line) :
    (((c.reset s).1.signals (.latch :: history)).cpu.creg Cop0.cause).getLsbD l.place = true ↔
      raised c.lines l history = true ∨
        (l = .seven ∧ (timed history ∨ held c.lines history)) := by
  have follows := follows_signals c s history
  show (((((c.reset s).1.signals history).signal .latch)).cpu.creg Cop0.cause).getLsbD l.place = true ↔ _
  rw [latch_bit, Bool.or_eq_true, Bool.and_eq_true, decide_eq_true_iff, follows.line]
  refine or_congr_right (and_congr_right ?_)
  rintro rfl
  exact follows.timer

/-- Raised, latched, cleared and latched again: line 7 is still in Cause, though it is not raised any more and
nothing has been counted. -/
theorem line_seven_stuck :
    let c := ofConfig {}
    let before : List Signal := [.clear .seven, .latch, .raise .seven]
    let after := (c.reset (Shared.ofMemory (Memory.empty 0) {})).1.signals (.latch :: before)
    (after.cpu.creg Cop0.cause).getLsbD Line.seven.place = true ∧ raised c.lines .seven before = false ∧
      ¬ timed before := by
  refine ⟨?_, rfl, ?_⟩
  · decide +kernel
  · simp [timed]

end Core

end EmotionEngine
