import EmotionEngine.Insn.Basic

/-!
Lane operations on 128-bit registers. A register is cut into four words or eight halfwords; each result
lane depends only on the lanes at the same place, and no carry passes between lanes. Saturating
operations clamp to the range of the lane.
-/

namespace EmotionEngine

def lane (w : Nat) (q : Quad) (i : Nat) : BitVec w := q.extractLsb' (w * i) w

/-- The quadword whose first lanes of width `w` are given, lowest lane first. -/
def joinLanes {w : Nat} : List (BitVec w) → Quad
  | [] => 0
  | x :: rest => x.setWidth 128 ||| (joinLanes rest <<< w)

/-- Apply `f` lane by lane to the `128 / w` lanes of width `w`. -/
def mapLanes (w : Nat) (f : BitVec w → BitVec w → BitVec w) (a b : Quad) : Quad :=
  joinLanes ((List.range (128 / w)).map (fun i => f (lane w a i) (lane w b i)))

/-- The nearest value of a signed lane. -/
def clampSigned (w : Nat) (x : Int) : BitVec w :=
  BitVec.ofInt w (max (-(twoPow (w - 1) : Int)) (min ((twoPow (w - 1) : Int) - 1) x))

/-- A sum that stops at the ends of the signed range. -/
def addSat {w : Nat} (a b : BitVec w) : BitVec w := clampSigned w (a.toInt + b.toInt)

/-- A difference that stops at the ends of the signed range. -/
def subSat {w : Nat} (a b : BitVec w) : BitVec w := clampSigned w (a.toInt - b.toInt)

/-- A sum that stops at the largest unsigned value. -/
def addSatU {w : Nat} (a b : BitVec w) : BitVec w :=
  BitVec.ofNat w (min (twoPow w - 1) (a.toNat + b.toNat))

/-- A difference that stops at zero. -/
def subSatU {w : Nat} (a b : BitVec w) : BitVec w := BitVec.ofNat w (a.toNat - b.toNat)

/-- The result of a lane operation on whole registers. -/
def MmiOp.eval (op : MmiOp) (rs rt : Quad) : Quad :=
  match op with
  | .paddw => mapLanes 32 (· + ·) rs rt
  | .psubw => mapLanes 32 (· - ·) rs rt
  | .paddh => mapLanes 16 (· + ·) rs rt
  | .psubh => mapLanes 16 (· - ·) rs rt
  | .paddsw => mapLanes 32 addSat rs rt
  | .psubsw => mapLanes 32 subSat rs rt
  | .paddsh => mapLanes 16 addSat rs rt
  | .psubsh => mapLanes 16 subSat rs rt
  | .padduw => mapLanes 32 addSatU rs rt
  | .psubuw => mapLanes 32 subSatU rs rt
  | .pand => rs &&& rt
  | .pxor => rs ^^^ rt
  | .por => rs ||| rt
  | .pnor => ~~~(rs ||| rt)

end EmotionEngine
