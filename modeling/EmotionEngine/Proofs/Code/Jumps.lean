import EmotionEngine.Code.OfBlock

/-!
Where the jumps of a block are. The code of an instruction leaves the block in three ways, for an exception, past a
delay slot and after a store into the block; all of them are pieces that lead out of the body along a path. There is
no other jump: neither among the moves of a plan, nor in the code of any instruction, nor on a path, which ends with
a return.

Main statement: `Code.direct_body`, for every block and every plan.
-/

namespace EmotionEngine

open Host (Cond Reg Helper)

namespace Host.Insn

def isJump : Insn → Bool
  | jcc .. | jmp .. => true
  | _ => false

@[simp] theorem isJump_of_ne {i : Insn} (jcc : ∀ c rel, i ≠ .jcc c rel) (jmp : ∀ rel, i ≠ .jmp rel) :
    i.isJump = false := by
  cases i with
  | jcc c rel => exact absurd rfl (jcc c rel)
  | jmp rel => exact absurd rfl (jmp rel)
  | _ => rfl

@[simp] theorem isJump_movImm (wide : Bool) (dst : Reg) (v : Dword) : (movImm wide dst v).isJump = false := by
  unfold movImm
  split
  · rfl
  · split
    · rfl
    · split <;> rfl

end Host.Insn

namespace Code

def straight (is : List Host.Insn) : Bool := is.all fun i => !i.isJump

/-- The piece has no jump but for the one that leads out, along a path without a jump to a return. -/
def Item.direct : Item → Bool
  | .insn i => !i.isJump
  | .leave _ path => straight path && path.contains .ret

def direct (is : List Item) : Bool := is.all Item.direct

/-! ## Instructions and pieces in sequence -/

@[simp] theorem straight_nil : straight [] = true := rfl

@[simp] theorem straight_cons (i : Host.Insn) (is : List Host.Insn) :
    straight (i :: is) = (!i.isJump && straight is) := rfl

@[simp] theorem straight_append (is is' : List Host.Insn) :
    straight (is ++ is') = (straight is && straight is') :=
  List.all_append

@[simp] theorem direct_nil : direct [] = true := rfl

@[simp] theorem direct_insn (i : Host.Insn) : (Item.insn i).direct = !i.isJump := rfl

@[simp] theorem direct_cons (i : Item) (is : List Item) : direct (i :: is) = (i.direct && direct is) := rfl

@[simp] theorem direct_append (is is' : List Item) : direct (is ++ is') = (direct is && direct is') :=
  List.all_append

@[simp] theorem direct_items (is : List Host.Insn) : direct (items is) = straight is := by
  rw [items, direct, List.all_map]
  rfl

@[simp] theorem straight_ofMoves {ρ : Type} [Host.Names ρ] (ms : List (Move ρ)) : straight (ofMoves ms) = true := by
  unfold straight ofMoves
  rw [List.all_flatMap, List.all_eq_true]
  intro m _
  cases m <;> rfl

@[simp] theorem straight_call (h : Helper) : straight (call h) = true := rfl

@[simp] theorem straight_truth (c : Cond) : straight (truth c) = true := rfl

@[simp] theorem straight_splitHiLo : straight splitHiLo = true := rfl

theorem straight_ending (b : Block) : straight (ending b) = true := by
  unfold ending
  split
  · rfl
  · split <;> rfl

/-! ## Instructions of the guest -/

namespace Site

variable {ρ : Type} [Host.Names ρ] (s : Site ρ)

@[simp] theorem isJump_read (dst : Reg) (g : GuestReg) : (s.read dst g).isJump = false := by
  unfold read
  split <;> rfl

@[simp] theorem straight_write (g : GuestReg) (src : Reg) : straight (s.write g src) = true := by
  unfold write
  split <;> rfl

@[simp] theorem straight_writeImm (r : RegNum) (v : Dword) : straight (s.writeImm r v) = true := by
  unfold writeImm
  split
  · rfl
  · simp

@[simp] theorem straight_effectiveAddr (base : RegNum) (off : Half) :
    straight (s.effectiveAddr base off) = true := by
  unfold effectiveAddr
  split <;> simp

@[simp] theorem direct_fault (cond : Option Cond) (code : Option ExcCode) : (s.fault cond code).direct = true := by
  cases code <;> simp [fault, Item.direct, exit, setPc, setState]

@[simp] theorem direct_skipSlot (cond : Cond) : (s.skipSlot cond).direct = true := by
  simp [skipSlot, Item.direct, exit, setPc, setState]

@[simp] theorem direct_modified (cond : Cond) : (s.modified cond).direct = true := by
  cases slot : s.insn.inDelaySlot <;> simp [modified, Item.direct, exit, setPc, setState, slot]

@[simp] theorem direct_trapIf (traps : Bool) : direct (s.trapIf traps) = true := by
  unfold trapIf
  split <;> simp

@[simp] theorem direct_checkFault : direct s.checkFault = true := by
  simp [checkFault]

@[simp] theorem direct_checkDone : direct s.checkDone = true := by
  simp [checkDone]

@[simp] theorem direct_checkStore : direct s.checkStore = true := by
  simp [checkStore]

theorem direct_alu (op : AluOp) : direct (s.alu op) = true := by
  cases op <;> simp [alu, signExtend]

theorem direct_aluImm (op : AluImmOp) (imm : Half) : direct (s.aluImm op imm) = true := by
  cases op <;> simp [aluImm, signExtend]

theorem direct_outcome (cond : Cond) (target : Word) (likely : Bool) :
    direct (s.outcome cond target likely) = true := by
  unfold outcome
  split <;> simp [setPc, setState]

theorem straight_mulDiv (op : MulDivOp) (rd rs rt : RegNum) : straight (s.mulDiv op rd rs rt) = true := by
  cases op <;> simp [mulDiv, multiply, divide]

theorem straight_fpuMove (op : FpuMoveOp) (rt fs : RegNum) : straight (s.fpuMove op rt fs) = true := by
  cases op with
  | mfc1 | mtc1 => simp [fpuMove]
  | cfc1 =>
    unfold fpuMove
    dsimp only
    split
    · simp
    · split <;> simp
  | ctc1 =>
    unfold fpuMove
    dsimp only
    split <;> simp

theorem direct_load (op : LoadOp) (rt base : RegNum) (off : Half) : direct (s.load op rt base off) = true := by
  have extend : straight (extendLoad op) = true := by cases op <;> rfl
  unfold load
  dsimp only
  split <;> simp [envArg, numArg, extend]

theorem direct_store (op : StoreOp) (rt base : RegNum) (off : Half) : direct (s.store op rt base off) = true := by
  unfold store
  dsimp only
  split <;> simp [envArg, numArg]

/-- The code of an instruction has no jumps but those that leave the block. -/
theorem direct_code : direct s.code = true := by
  unfold code
  cases s.insn.insn with
  | alu op => simp [direct_alu]
  | aluImm op => simp [direct_aluImm]
  | shift op rd rt sa =>
    dsimp only
    split <;> split <;> simp [signExtend]
  | shiftVar op rd rt sa =>
    dsimp only
    split <;> simp [signExtend]
  | mulDiv op rd rs rt => simp [straight_mulDiv]
  | hiLo op r => cases op <;> simp
  | load op rt base off => exact s.direct_load op rt base off
  | store op rt base off => exact s.direct_store op rt base off
  | branch cond rs rt off likely link => cases link <;> simp [direct_outcome]
  | fpuBranch onTrue likely target => simp [direct_outcome]
  | jump index link => cases link <;> simp [setPc, setState]
  | jumpReg rs link => cases link <;> simp
  | cop0Move op rt rd => cases op <;> simp [envArg, numArg, signExtend]
  | fpuMove op rt fs => simp [straight_fpuMove]
  | _ => simp [envArg, numArg]

theorem direct_body : direct s.body = true := by
  simp [body, s.direct_code]

end Site

/-- A block has no jumps but those that leave it. -/
theorem direct_body {ρ : Type} [Host.Names ρ] (b : Block) (p : Plan ρ) : direct (body b p) = true := by
  have each : direct ((sites b p).flatMap Site.body) = true := by
    rw [direct, List.all_flatMap, List.all_eq_true]
    exact fun s _ => s.direct_body
  simp [body, each, straight_ending]

end Code

end EmotionEngine
