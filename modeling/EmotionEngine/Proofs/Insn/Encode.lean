import EmotionEngine.Insn.Encode
import Mathlib.Data.List.Pairwise

/-!
The words that the encoder gives. Values that fit their fields can be packed into a word and read back from it,
as long as the fields do not overlap (`BitField.carried_pack`); the bits of the word are those of the values
(`BitField.testBit_pack`). The fields of an instruction fit and do not overlap (`Insn.placed_fields`), so its word
has them (`Insn.carried_encode`).
-/

namespace EmotionEngine

namespace BitField

/-- The fields have no bit in common. -/
def Apart (f g : BitField) : Prop := f.pos + f.width ≤ g.pos ∨ g.pos + g.width ≤ f.pos

instance (f g : BitField) : Decidable (f.Apart g) := inferInstanceAs (Decidable (_ ∨ _))

instance : Std.Symm fun p q : BitField × Nat => p.1.Apart q.1 := ⟨fun _ _ => Or.symm⟩

/-- The values fit into their fields, and these do not overlap. -/
structure Placed (fields : List (BitField × Nat)) : Prop where
  inside : ∀ p ∈ fields, p.1.pos + p.1.width ≤ 32
  fits : ∀ p ∈ fields, p.2 < twoPow p.1.width
  apart : fields.Pairwise fun p q => p.1.Apart q.1

@[simp] theorem placed_nil : Placed [] := ⟨List.forall_mem_nil _, List.forall_mem_nil _, .nil⟩

/-- One field more: it is inside, its value fits, and it is apart from the others. -/
@[simp] theorem placed_cons {f : BitField} {v : Nat} {rest : List (BitField × Nat)} :
    Placed ((f, v) :: rest) ↔
      (f.pos + f.width ≤ 32 ∧ v < twoPow f.width ∧ ∀ q ∈ rest, f.Apart q.1) ∧ Placed rest := by
  constructor
  · rintro ⟨inside, fits, apart⟩
    obtain ⟨inside, inside'⟩ := List.forall_mem_cons.1 inside
    obtain ⟨fits, fits'⟩ := List.forall_mem_cons.1 fits
    obtain ⟨apart, apart'⟩ := List.pairwise_cons.1 apart
    exact ⟨⟨inside, fits, apart⟩, inside', fits', apart'⟩
  · rintro ⟨⟨inside, fits, apart⟩, inside', fits', apart'⟩
    exact ⟨List.forall_mem_cons.2 ⟨inside, inside'⟩, List.forall_mem_cons.2 ⟨fits, fits'⟩,
      List.pairwise_cons.2 ⟨apart, apart'⟩⟩

theorem testBit_put (f : BitField) (v i : Nat) :
    (f.put v).toNat.testBit i = true ↔ i < 32 ∧ f.pos ≤ i ∧ v.testBit (i - f.pos) = true := by
  rw [BitVec.testBit_toNat, put, BitVec.getLsbD_shiftLeft, BitVec.getLsbD_ofNat]
  simp only [Bool.and_eq_true, decide_eq_true_eq, Bool.not_eq_true', decide_eq_false_iff_not, Nat.not_lt, and_assoc]
  exact ⟨fun ⟨word, above, _, set⟩ => ⟨word, above, set⟩, fun ⟨word, above, set⟩ => ⟨word, above, by omega, set⟩⟩

theorem Placed.bit {fields : List (BitField × Nat)} (placed : Placed fields) {p : BitField × Nat} (own : p ∈ fields)
    {j : Nat} (set : p.2.testBit j = true) : j < p.1.width := by
  by_contra beyond
  have small : p.2 < 2 ^ j :=
    Nat.lt_of_lt_of_le (placed.fits p own) (Nat.pow_le_pow_right (by decide) (Nat.le_of_not_lt beyond))
  rw [Nat.testBit_lt_two_pow small] at set
  cases set

/-- The bits of a packed word are those of the values in their places. -/
theorem testBit_pack (fields : List (BitField × Nat)) (i : Nat) :
    (pack fields).toNat.testBit i = true ↔
      i < 32 ∧ ∃ p ∈ fields, p.1.pos ≤ i ∧ p.2.testBit (i - p.1.pos) = true := by
  induction fields with
  | nil => simp [pack]
  | cons p rest ih =>
    show (p.1.put p.2 ||| pack rest).toNat.testBit i = true ↔ _
    rw [BitVec.toNat_or, Nat.testBit_or, Bool.or_eq_true, ih, testBit_put, ← and_or_left]
    simp only [List.mem_cons, exists_eq_or_imp]

/-- A packed word has every value in its field. -/
theorem carried_pack {fields : List (BitField × Nat)} (placed : Placed fields) : Carried fields (pack fields) := by
  intro p own
  refine Nat.eq_of_testBit_eq fun j => Bool.eq_iff_iff.2 ?_
  show (_ / 2 ^ _ % 2 ^ _ : Nat).testBit j = true ↔ _
  rw [Nat.testBit_mod_two_pow, Nat.testBit_div_two_pow, Bool.and_eq_true, decide_eq_true_eq, testBit_pack]
  constructor
  · rintro ⟨inside, -, q, other, above, set⟩
    by_cases same : p = q
    · rwa [← same, Nat.add_sub_cancel] at set
    · -- The bit would be in the field of the other value, too.
      have within := placed.bit other set
      rcases placed.apart.forall own other same with below | below <;> omega
  · intro set
    have within := placed.bit own set
    have word := placed.inside p own
    exact ⟨within, by omega, p, own, by omega, by rwa [Nat.add_sub_cancel]⟩

end BitField

namespace Insn

/-- The fields of an instruction fit into a word, and do not overlap. -/
theorem placed_fields (i : Insn) : BitField.Placed i.fields := by
  cases i with
  | nop | sync | eret | ei | di => exact ⟨by decide, by decide, by decide⟩
  | reserved w =>
    have word : w.toNat < 4294967296 := w.isLt
    simpa [fields, selectors, operandFields, BitField.whole] using word
  | alu _ _ _ _ | shift _ _ _ _ | shiftVar _ _ _ _ | condMove _ _ _ _ | mmi _ _ _ _ | cop0Move _ _ _
  | fpuMove _ _ _ | fpuArith _ _ _ _ | fpuCompare _ _ _ =>
    simp [fields, selectors, operandFields, BitField.Apart, BitField.opcode, BitField.funct, BitField.rd, BitField.rs,
      BitField.rt, BitField.sa]
  | mulDiv op _ _ _ =>
    cases op <;> simp [fields, selectors, operandFields, MulDivOp.isMul, BitField.Apart, BitField.opcode,
      BitField.funct, BitField.rd, BitField.rs, BitField.rt]
  | hiLo op _ =>
    cases op <;> simp [fields, selectors, operandFields, BitField.Apart, BitField.opcode, BitField.funct, BitField.rd,
      BitField.rs]
  | jumpReg _ link =>
    cases link <;> simp [fields, selectors, operandFields, BitField.Apart, BitField.opcode, BitField.funct, BitField.rd,
      BitField.rs]
  | aluImm _ _ _ v | lui _ v | load _ _ _ v | store _ _ _ v | fpuLoad _ _ v | fpuStore _ _ v | syscall v
  | breakpoint v =>
    have value := v.isLt
    simp [fields, selectors, operandFields, BitField.Apart, BitField.opcode, BitField.funct, BitField.rs, BitField.rt,
      BitField.imm, BitField.code, value]
  | jump index link =>
    have target : index.toNat < 67108864 := index.isLt
    have row := link.toNat_lt
    simp [fields, selectors, operandFields, BitField.Apart, BitField.opcode, BitField.index]
    omega
  | fpuBranch onTrue likely offset =>
    have distance : offset.toNat < 65536 := offset.isLt
    have row := onTrue.toNat_lt
    have row' := likely.toNat_lt
    simp [fields, selectors, operandFields, BitField.Apart, BitField.opcode, BitField.rs, BitField.rt, BitField.imm]
    omega
  | branch cond _ _ offset likely link =>
    have distance : offset.toNat < 65536 := offset.isLt
    have row := likely.toNat_lt
    have row' := link.toNat_lt
    cases cond <;> simp [fields, selectors, operandFields, BranchCond.selectors, BranchCond.usesRt, BitField.Apart,
      BitField.opcode, BitField.rs, BitField.rt, BitField.imm]
    all_goals omega

/-- The word of an instruction has its fields. -/
theorem carried_encode (i : Insn) : BitField.Carried i.fields i.encode := by
  unfold encode
  split
  · next same =>
    rw [same]
    decide
  · rw [List.append_nil]
    exact BitField.carried_pack i.placed_fields

end Insn

end EmotionEngine
