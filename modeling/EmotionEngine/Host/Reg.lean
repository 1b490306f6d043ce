/-!
Host registers and the part each plays in compiled code. The processor state is reached through one
base register. Five registers hold guest values; helpers preserve all five. Three more are scratch
inside the code of one instruction, and arguments are passed in the order of the calling convention.
-/

namespace EmotionEngine.Host

/-- The general registers of the host, by encoding. -/
inductive Reg where
  | rax | rcx | rdx | rbx | rsp | rbp | rsi | rdi
  | r8 | r9 | r10 | r11 | r12 | r13 | r14 | r15
  deriving DecidableEq

namespace Reg

def all : List Reg :=
  [rax, rcx, rdx, rbx, rsp, rbp, rsi, rdi, r8, r9, r10, r11, r12, r13, r14, r15]

def index : Reg → Nat
  | rax => 0 | rcx => 1 | rdx => 2 | rbx => 3 | rsp => 4 | rbp => 5 | rsi => 6 | rdi => 7
  | r8 => 8 | r9 => 9 | r10 => 10 | r11 => 11 | r12 => 12 | r13 => 13 | r14 => 14 | r15 => 15

theorem index_lt (r : Reg) : r.index < 16 := by cases r <;> decide

/-- The encoding as a place in a register file. -/
def place (r : Reg) : Fin 16 := ⟨r.index, r.index_lt⟩

/-- The register with a given encoding. -/
def ofIndex? (i : Nat) : Option Reg := all[i]?

@[simp] theorem ofIndex?_index (r : Reg) : ofIndex? r.index = some r := by
  cases r <;> rfl

theorem index_injective {a b : Reg} (h : a.index = b.index) : a = b := by
  have e : ofIndex? a.index = ofIndex? b.index := congrArg ofIndex? h
  simpa using e

theorem place_injective {a b : Reg} (h : a.place = b.place) : a = b :=
  index_injective (congrArg Fin.val h)

/-- The three bits of the encoding that stand in an operand byte. -/
def low3 (r : Reg) : Nat := r.index % 8

/-- Whether the fourth bit is set, which stands in a prefix of its own. -/
def needsRex (r : Reg) : Bool := 8 ≤ r.index

def name : Reg → String
  | rax => "rax" | rcx => "rcx" | rdx => "rdx" | rbx => "rbx"
  | rsp => "rsp" | rbp => "rbp" | rsi => "rsi" | rdi => "rdi"
  | r8 => "r8" | r9 => "r9" | r10 => "r10" | r11 => "r11"
  | r12 => "r12" | r13 => "r13" | r14 => "r14" | r15 => "r15"

def ofName? (s : String) : Option Reg := all.find? (fun r => r.name == s)

/-- Holds the address of the processor state while a block runs. -/
def env : Reg := rbp

/-- The first scratch register, in which calls return. -/
def scratch0 : Reg := rax

def scratch1 : Reg := rcx

def scratch2 : Reg := rdx

/-- The registers that a call preserves, in the order in which they are saved. -/
def calleeSaved : List Reg := [rbp, rbx, r12, r13, r14, r15]

end Reg

/-- A numeral may stand for the position of an argument. -/
instance five_neZero : @NeZero Nat Zero.ofOfNat0 5 := ⟨by decide⟩

/-- Call arguments by position; a call takes at most five. -/
def arg : Fin 5 → Reg
  | 0 => .rdi
  | 1 => .rsi
  | 2 => .rdx
  | 3 => .rcx
  | 4 => .r8

/-- The host registers that hold guest values, numbered in the order in which they are handed out. -/
abbrev Slot := Fin 5

namespace Slot

def reg : Slot → Reg
  | 0 => .rbx
  | 1 => .r12
  | 2 => .r13
  | 3 => .r14
  | 4 => .r15

def all : List Slot := [0, 1, 2, 3, 4]

theorem reg_injective {a b : Slot} (h : reg a = reg b) : a = b := by
  revert a b; decide

/-- A call preserves every register that holds a guest value. -/
theorem reg_mem_calleeSaved (s : Slot) : reg s ∈ Reg.calleeSaved := by
  revert s; decide

end Slot

/-- What a plan names host registers by: slots, or registers themselves. -/
class Names (ρ : Type) where
  reg : ρ → Reg

instance : Names Slot := ⟨Slot.reg⟩

instance : Names Reg := ⟨id⟩

end EmotionEngine.Host
