import EmotionEngine.Insn.Basic

/-!
Multiplication and division of the low words of two registers. Every operation gives a pair for LO and
HI, each a sign-extended word. Division never traps: dividing by zero gives quotient -1 or 1 by the
sign of the dividend and the dividend as remainder, and the one quotient that does not fit wraps.
-/

namespace EmotionEngine

/-- The two result registers of a multiplication or division. -/
structure HiLo where
  lo : Dword
  hi : Dword
  deriving DecidableEq

namespace HiLo

/-- The two words of a 64-bit product. -/
def ofProduct (p : Dword) : HiLo := ⟨sext32 p, sext32 (p >>> 32)⟩

/-- Both results in one doubleword, LO in its low half. -/
def pack (r : HiLo) : Dword :=
  (r.lo.setWidth 32).setWidth 64 ||| ((r.hi.setWidth 32).setWidth 64 <<< 32)

end HiLo

namespace MulDivOp

/-- Signed division of words, rounding toward zero. -/
def signedDiv (n d : Word) : HiLo :=
  if d = 0 then ⟨if n.msb then 1 else -1, sextWord n⟩
  else ⟨sextWord (n.sdiv d), sextWord (n.srem d)⟩

def unsignedDiv (n d : Word) : HiLo :=
  if d = 0 then ⟨-1, sextWord n⟩ else ⟨sextWord (n / d), sextWord (n % d)⟩

def eval (op : MulDivOp) (rs rt : Dword) : HiLo :=
  let a : Word := rs.setWidth 32
  let b : Word := rt.setWidth 32
  match op with
  | .mult => .ofProduct (sextWord a * sextWord b)
  | .multu => .ofProduct (a.setWidth 64 * b.setWidth 64)
  | .div => signedDiv a b
  | .divu => unsignedDiv a b

end MulDivOp

end EmotionEngine
