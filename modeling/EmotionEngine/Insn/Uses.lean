import EmotionEngine.Cpu.Layout
import EmotionEngine.Insn.Basic

/-!
Register traffic. A `GuestReg` is a guest value that compiled code can hold in a host register: the low
half of a general register, HI or LO. `Insn.uses` lists, for each instruction, which of them it reads
and writes directly, and which a helper reads and writes through the register file in memory.

Lists of registers never hold register 0, which is constant, and hold no register twice. A `RegSet` is
a set of guest registers as a bitmap, used to report what a block may change.
-/

namespace EmotionEngine

/-- A guest value that can live in a host register. -/
inductive GuestReg where
  | gpr (n : RegNum)
  | hi
  | lo
  deriving DecidableEq

/-- The names of the general registers by number. -/
def gprNames : Vector String 32 :=
  #v["zero", "at", "v0", "v1", "a0", "a1", "a2", "a3", "t0", "t1", "t2", "t3", "t4", "t5", "t6", "t7",
     "s0", "s1", "s2", "s3", "s4", "s5", "s6", "s7", "t8", "t9", "k0", "k1", "gp", "sp", "fp", "ra"]

def gprName (r : RegNum) : String := gprNames.get r

namespace GuestReg

/-- How many indices guest registers take. -/
def count : Nat := 34

/-- General registers are numbered as they are, HI is 32 and LO is 33. -/
def index : GuestReg → Nat
  | gpr n => n.val
  | hi => 32
  | lo => 33

theorem index_lt (g : GuestReg) : g.index < count := by
  cases g with
  | gpr n => exact Nat.lt_trans n.isLt (by decide)
  | hi => decide
  | lo => decide

theorem index_injective {a b : GuestReg} (h : a.index = b.index) : a = b := by
  cases a with
  | gpr n =>
    have hn := n.isLt
    cases b with
    | gpr m => exact congrArg gpr (Fin.ext h)
    | hi => simp only [index] at h; omega
    | lo => simp only [index] at h; omega
  | hi =>
    cases b with
    | gpr m => have hm := m.isLt; simp only [index] at h; omega
    | hi => rfl
    | lo => simp [index] at h
  | lo =>
    cases b with
    | gpr m => have hm := m.isLt; simp only [index] at h; omega
    | hi => simp [index] at h
    | lo => rfl

/-- The register with a given index. Register 0 is no guest value: it is constant. -/
def ofIndex? (i : Nat) : Option GuestReg :=
  if h : 0 < i ∧ i < 32 then some (gpr ⟨i, h.2⟩)
  else if i = 32 then some hi
  else if i = 33 then some lo
  else none

/-- Every guest register but register 0, by index. -/
def all : List GuestReg := (List.range count).filterMap ofIndex?

def name : GuestReg → String
  | gpr n => gprName n
  | hi => "hi"
  | lo => "lo"

/-- Where the value lives in the register file. -/
def home : GuestReg → Nat
  | gpr n => Layout.gpr n.val
  | hi => Layout.hi
  | lo => Layout.lo

/-- The offset of the value's own spill slot. -/
def spill (g : GuestReg) : Nat := Layout.spill g.index

end GuestReg

/-! ## Lists of registers -/

/-- `r` at the end of the list, unless it is register 0 or already there. -/
def addReg (rs : List GuestReg) (r : GuestReg) : List GuestReg :=
  if r = .gpr 0 ∨ r ∈ rs then rs else rs ++ [r]

/-- The list of the given registers, in order, without register 0 and without repetition. -/
def regList (rs : List GuestReg) : List GuestReg := rs.foldl addReg []

/-- No instruction names more than this many registers in one role. -/
def regListLimit : Nat := 4

/-- `addReg` where the list may not outgrow its limit. -/
def addReg? (rs : List GuestReg) (r : GuestReg) : Option (List GuestReg) :=
  let rs' := addReg rs r
  if rs'.length ≤ regListLimit then some rs' else none

theorem mem_addReg {rs : List GuestReg} {r x : GuestReg} :
    x ∈ addReg rs r ↔ x ∈ rs ∨ (x = r ∧ r ≠ .gpr 0) := by
  unfold addReg
  split
  · next h =>
    constructor
    · exact Or.inl
    · rintro (hx | ⟨rfl, hr⟩)
      · exact hx
      · rcases h with h | h
        · exact absurd h hr
        · exact h
  · next h =>
    have hr : r ≠ .gpr 0 := fun e => h (Or.inl e)
    simp [hr]

/-! ## Sets of registers -/

/-- A set of guest registers; bit `i` stands for the register with index `i`. -/
structure RegSet where
  bits : BitVec 34
  deriving DecidableEq

namespace RegSet

def empty : RegSet := ⟨0⟩

def insert (s : RegSet) (r : GuestReg) : RegSet := ⟨s.bits ||| (1#34 <<< r.index)⟩

def contains (s : RegSet) (r : GuestReg) : Bool := s.bits.getLsbD r.index

def count (s : RegSet) : Nat := ((List.range GuestReg.count).filter s.bits.getLsbD).length

/-- The members in index order. Bit 0 stands for no register. -/
def toList (s : RegSet) : List GuestReg :=
  (List.range GuestReg.count).filterMap
    (fun i => if s.bits.getLsbD i then GuestReg.ofIndex? i else none)

def ofList (rs : List GuestReg) : RegSet := rs.foldl insert empty

end RegSet

/-! ## Uses -/

/-- The registers an instruction touches. `reads` and `writes` are held in host registers while it
runs. `envReads` and `envWrites` are accessed in the register file by a helper: their copy there must be
current before the instruction, and any other copy is stale after it. -/
structure Uses where
  reads : List GuestReg := []
  writes : List GuestReg := []
  envReads : List GuestReg := []
  envWrites : List GuestReg := []
  deriving DecidableEq

/-- Every register named in any role, in the order of the roles. -/
def Uses.all (u : Uses) : List GuestReg := u.reads ++ u.writes ++ u.envReads ++ u.envWrites

/-- Registers an instruction may change in any way. -/
def Uses.changes (u : Uses) : List GuestReg := u.writes ++ u.envWrites

/-- The registers that an instruction reads and writes. -/
def Insn.uses : Insn → Uses
  | .nop | .syscall _ | .breakpoint _ | .sync | .eret | .ei | .di => {}
  | .fpuArith .. | .fpuCompare .. | .fpuBranch .. | .reserved _ => {}
  | .alu _ rd rs rt => { reads := regList [.gpr rs, .gpr rt], writes := regList [.gpr rd] }
  | .aluImm _ rt rs _ => { reads := regList [.gpr rs], writes := regList [.gpr rt] }
  | .lui rt _ => { writes := regList [.gpr rt] }
  | .shift _ rd rt _ => { reads := regList [.gpr rt], writes := regList [.gpr rd] }
  | .shiftVar _ rd rt rs => { reads := regList [.gpr rt, .gpr rs], writes := regList [.gpr rd] }
  | .mulDiv op rd rs rt =>
    { reads := regList [.gpr rs, .gpr rt]
      writes := regList (if op.isMul then [.gpr rd, .hi, .lo] else [.hi, .lo]) }
  | .hiLo .mfhi r => { reads := [.hi], writes := regList [.gpr r] }
  | .hiLo .mflo r => { reads := [.lo], writes := regList [.gpr r] }
  | .hiLo .mthi r => { reads := regList [.gpr r], writes := [.hi] }
  | .hiLo .mtlo r => { reads := regList [.gpr r], writes := [.lo] }
  | .condMove _ rd rs rt =>
    { reads := regList [.gpr rs, .gpr rt, .gpr rd], writes := regList [.gpr rd] }
  | .load .lq rt base _ => { reads := regList [.gpr base], envWrites := regList [.gpr rt] }
  | .load _ rt base _ => { reads := regList [.gpr base], writes := regList [.gpr rt] }
  | .store .sq rt base _ => { reads := regList [.gpr base], envReads := regList [.gpr rt] }
  | .store _ rt base _ => { reads := regList [.gpr base, .gpr rt] }
  | .branch cond rs rt _ _ link =>
    { reads := regList (if cond.usesRt then [.gpr rs, .gpr rt] else [.gpr rs])
      writes := if link then [.gpr 31] else [] }
  | .jump _ link => { writes := if link then [.gpr 31] else [] }
  | .jumpReg rs link =>
    { reads := regList [.gpr rs]
      writes := match link with
        | some rd => regList [.gpr rd]
        | none => [] }
  | .cop0Move .mfc0 rt _ => { writes := regList [.gpr rt] }
  | .cop0Move .mtc0 rt _ => { reads := regList [.gpr rt] }
  | .fpuMove .mfc1 rt _ => { writes := regList [.gpr rt] }
  | .fpuMove .cfc1 rt _ => { writes := regList [.gpr rt] }
  | .fpuMove .mtc1 rt _ => { reads := regList [.gpr rt] }
  | .fpuMove .ctc1 rt _ => { reads := regList [.gpr rt] }
  | .fpuLoad _ base _ => { reads := regList [.gpr base] }
  | .fpuStore _ base _ => { reads := regList [.gpr base] }
  | .mmi _ rd rs rt => { envReads := regList [.gpr rs, .gpr rt], envWrites := regList [.gpr rd] }

end EmotionEngine
