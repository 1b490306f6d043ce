import EmotionEngine.Cpu.Layout
import EmotionEngine.Insn.Uses

/-!
The fields of the processor state in host memory. Compiled code loads and stores whole fields; `Field`
names them, and `ofOffset?` finds the field that starts at an offset.

Main statement: a field is found at its own offset (`ofOffset?_offset`), so no two fields start at the
same place.
-/

namespace EmotionEngine

/-- A field of the processor state. -/
inductive Field where
  /-- The low half of a general register. -/
  | gpr (r : RegNum)
  /-- The high half of a general register. -/
  | gprHigh (r : RegNum)
  | hi
  | lo
  | pc
  | fcr31
  | fpr (r : RegNum)
  | cop0 (r : RegNum)
  /-- The spill slot with a given index. -/
  | spill (k : Fin GuestReg.count)
  | excCode
  | excDelaySlot
  | faultPending
  deriving DecidableEq

namespace Field

def offset : Field → Nat
  | gpr r => Layout.gpr r.val
  | gprHigh r => Layout.gpr r.val + 8
  | hi => Layout.hi
  | lo => Layout.lo
  | pc => Layout.pc
  | fcr31 => Layout.fcr31
  | fpr r => Layout.fpr r.val
  | cop0 r => Layout.cop0 r.val
  | spill k => Layout.spill k.val
  | excCode => Layout.excCode
  | excDelaySlot => Layout.excDelaySlot
  | faultPending => Layout.faultPending

/-- Whether the field has 64 bits; the others have 32. -/
def wide : Field → Bool
  | gpr _ | gprHigh _ | hi | lo | spill _ => true
  | _ => false

def member? {n : Nat} (field : Fin n → Field) (k : Nat) : Option Field :=
  if h : k < n then some (field ⟨k, h⟩) else none

/-- The field that starts at an offset. -/
def ofOffset? (n : Nat) : Option Field :=
  if n < Layout.hi then
    if n % 16 = 0 then member? gpr (n / 16)
    else if n % 16 = 8 then member? gprHigh (n / 16)
    else none
  else if n = Layout.hi then some hi
  else if n = Layout.lo then some lo
  else if n = Layout.pc then some pc
  else if n = Layout.fcr31 then some fcr31
  else if n < Layout.fprBase then none
  else if n < Layout.cop0Base then
    if n % 4 = 0 then member? fpr ((n - Layout.fprBase) / 4) else none
  else if n < Layout.spillBase then
    if n % 4 = 0 then member? cop0 ((n - Layout.cop0Base) / 4) else none
  else if n < Layout.excCode then
    if n % 8 = 0 then member? spill ((n - Layout.spillBase) / 8) else none
  else if n = Layout.excCode then some excCode
  else if n = Layout.excDelaySlot then some excDelaySlot
  else if n = Layout.faultPending then some faultPending
  else none

@[simp] theorem ofOffset?_offset (f : Field) : ofOffset? f.offset = some f := by
  cases f with
  | gpr r => revert r; decide
  | gprHigh r => revert r; decide
  | hi => rfl
  | lo => rfl
  | pc => rfl
  | fcr31 => rfl
  | fpr r => revert r; decide
  | cop0 r => revert r; decide
  | spill k => revert k; decide
  | excCode => rfl
  | excDelaySlot => rfl
  | faultPending => rfl

theorem offset_injective {f g : Field} (h : f.offset = g.offset) : f = g := by
  have e : ofOffset? f.offset = ofOffset? g.offset := congrArg ofOffset? h
  simpa using e

theorem offset_lt (f : Field) : f.offset < 1076 := by
  cases f with
  | gpr r => have := r.isLt; simp only [offset, Layout.gpr, Layout.gprBase]; omega
  | gprHigh r => have := r.isLt; simp only [offset, Layout.gpr, Layout.gprBase]; omega
  | hi => decide
  | lo => decide
  | pc => decide
  | fcr31 => decide
  | fpr r => have := r.isLt; simp only [offset, Layout.fpr, Layout.fprBase]; omega
  | cop0 r => have := r.isLt; simp only [offset, Layout.cop0, Layout.cop0Base]; omega
  | spill k =>
    have := k.isLt
    simp only [offset, Layout.spill, Layout.spillBase, GuestReg.count] at *
    omega
  | excCode => decide
  | excDelaySlot => decide
  | faultPending => decide

end Field

/-- The field of a guest value in the register file. -/
def GuestReg.homeField : GuestReg → Field
  | gpr r => .gpr r
  | hi => .hi
  | lo => .lo

@[simp] theorem GuestReg.offset_homeField (g : GuestReg) : g.homeField.offset = g.home := by
  cases g <;> rfl

/-- The field of a guest value's spill slot. -/
def GuestReg.spillField (g : GuestReg) : Field := .spill ⟨g.index, g.index_lt⟩

@[simp] theorem GuestReg.offset_spillField (g : GuestReg) : g.spillField.offset = g.spill := rfl

end EmotionEngine
