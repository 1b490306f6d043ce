import EmotionEngine.Insn.Decode
import EmotionEngine.Proofs.Insn.Encode

/-!
The decoder recognises the instruction table and nothing else.

1. A word that has the selectors of an instruction decodes to that instruction, with the operands that the word
   has (`decode_of_selected`). There is a lemma for each family of a nested table, because a family is what the
   decoder's rows share.
2. What a word decodes to is in the table, and the word has its fields (`decode_sound`): a case for each row of
   each table. Only reserved words and hints are left over.
3. The encoder gives a word with the fields of an instruction, so both apply to it.

Main statement: `decode_exact`.
-/

namespace EmotionEngine.Insn

/-! ## Fields of a word -/

section
variable (w : Word)

@[simp] theorem get_opcode : BitField.opcode.get w = opcodeOf w := by
  show w.toNat / 67108864 % 64 = w.toNat / 67108864
  omega

@[simp] theorem get_funct : BitField.funct.get w = functOf w := by
  show w.toNat / 1 % 64 = w.toNat % 64
  rw [Nat.div_one]

@[simp] theorem get_rs : BitField.rs.get w = rsOf w := rfl

@[simp] theorem get_rt : BitField.rt.get w = rtOf w := rfl

@[simp] theorem get_rd : BitField.rd.get w = rdOf w := rfl

@[simp] theorem get_sa : BitField.sa.get w = saOf w := rfl

@[simp] theorem get_imm : BitField.imm.get w = (immOf w).toNat := by
  show w.toNat / 1 % 65536 = (w.setWidth 16).toNat
  rw [Nat.div_one, BitVec.toNat_setWidth]

@[simp] theorem get_index : BitField.index.get w = (w.setWidth 26).toNat := by
  show w.toNat / 1 % 67108864 = _
  rw [Nat.div_one, BitVec.toNat_setWidth]

@[simp] theorem get_code : BitField.code.get w = (codeOf w).toNat := by
  show w.toNat / 64 % 1048576 = (w.extractLsb' 6 20).toNat
  rw [BitVec.extractLsb'_toNat, Nat.shiftRight_eq_div_pow]

@[simp] theorem get_whole : BitField.whole.get w = w.toNat := by
  show w.toNat / 1 % 4294967296 = _
  rw [Nat.div_one, Nat.mod_eq_of_lt w.isLt]

end

/-- The instruction with the operands that a word has in their fields. -/
def refill (w : Word) : Insn → Insn
  | alu op _ _ _ => alu op (rdOf w) (rsOf w) (rtOf w)
  | aluImm op _ _ _ => aluImm op (rtOf w) (rsOf w) (immOf w)
  | lui _ _ => lui (rtOf w) (immOf w)
  | shift op _ _ _ => shift op (rdOf w) (rtOf w) (saOf w)
  | shiftVar op _ _ _ => shiftVar op (rdOf w) (rtOf w) (rsOf w)
  | mulDiv op _ _ _ => mulDiv op (if op.isMul then rdOf w else 0) (rsOf w) (rtOf w)
  | hiLo .mfhi _ => hiLo .mfhi (rdOf w)
  | hiLo .mthi _ => hiLo .mthi (rsOf w)
  | hiLo .mflo _ => hiLo .mflo (rdOf w)
  | hiLo .mtlo _ => hiLo .mtlo (rsOf w)
  | condMove op _ _ _ => condMove op (rdOf w) (rsOf w) (rtOf w)
  | load op _ _ _ => load op (rtOf w) (rsOf w) (immOf w)
  | store op _ _ _ => store op (rtOf w) (rsOf w) (immOf w)
  | branch cond _ _ _ likely link =>
    branch cond (rsOf w) (if cond.usesRt then rtOf w else 0) (immOf w) likely link
  | jump _ link => jump (w.setWidth 26) link
  | jumpReg _ none => jumpReg (rsOf w) none
  | jumpReg _ (some _) => jumpReg (rsOf w) (some (rdOf w))
  | syscall _ => syscall (codeOf w)
  | breakpoint _ => breakpoint (codeOf w)
  | cop0Move op _ _ => cop0Move op (rtOf w) (rdOf w)
  | fpuMove op _ _ => fpuMove op (rtOf w) (rdOf w)
  | fpuLoad _ _ _ => fpuLoad (rtOf w) (rsOf w) (immOf w)
  | fpuStore _ _ _ => fpuStore (rtOf w) (rsOf w) (immOf w)
  | fpuArith op _ _ _ => fpuArith op (saOf w) (rdOf w) (rtOf w)
  | fpuCompare cond _ _ => fpuCompare cond (rdOf w) (rtOf w)
  | fpuBranch onTrue likely _ => fpuBranch onTrue likely (immOf w)
  | mmi op _ _ _ => mmi op (rdOf w) (rsOf w) (rtOf w)
  | nop => nop
  | sync => sync
  | eret => eret
  | ei => ei
  | di => di
  | reserved _ => reserved w

@[simp] theorem carried_cons {f : BitField} {v : Nat} {rest : List (BitField × Nat)} {w : Word} :
    BitField.Carried ((f, v) :: rest) w ↔ f.get w = v ∧ BitField.Carried rest w := List.forall_mem_cons

@[simp] theorem carried_nil (w : Word) : BitField.Carried [] w := nofun

/-- A word that has the operands of an instruction changes none of them. -/
theorem refill_of_carried {i : Insn} {w : Word} (listed : i.listed = true)
    (carried : BitField.Carried i.operandFields w) :
    i.refill w = i := by
  cases i with
  | nop | sync | eret | ei | di => rfl
  | reserved w => cases listed
  | mulDiv op rd rs rt => cases op <;> simp_all [operandFields, refill, MulDivOp.isMul, Insn.listed, Fin.val_inj]
  | branch cond rs rt offset likely link =>
    cases cond <;> simp_all [operandFields, refill, BranchCond.usesRt, Insn.listed, Fin.val_inj, BitVec.toNat_inj]
  | hiLo op r => cases op <;> simpa [operandFields, refill, Fin.val_inj] using carried
  | jumpReg rs link => cases link <;> simpa [operandFields, refill, Fin.val_inj] using carried
  | jump index link =>
    have target : w.setWidth 26 = index := BitVec.eq_of_toNat_eq ((get_index w).symm.trans (carried_cons.1 carried).1)
    rw [refill, target]
  | alu | aluImm | lui | shift | shiftVar | condMove | load | store | syscall | breakpoint | cop0Move | fpuMove
  | fpuLoad | fpuStore | fpuArith | fpuCompare | fpuBranch | mmi =>
    simpa [operandFields, refill, Fin.val_inj, BitVec.toNat_inj, and_assoc, and_comm, and_left_comm] using carried

/-! ## From the table to the decoder -/

section
variable {w : Word}

theorem decode_special (nonzero : w ≠ 0) (opcode : opcodeOf w = 0x00) : decode w = decodeSpecial w := by
  rw [decode, if_neg nonzero, opcode]
  rfl

theorem decode_regImm (nonzero : w ≠ 0) (opcode : opcodeOf w = 0x01) : decode w = decodeRegImm w := by
  rw [decode, if_neg nonzero, opcode]
  rfl

theorem decode_cop0 (nonzero : w ≠ 0) (opcode : opcodeOf w = 0x10) : decode w = decodeCop0 w := by
  rw [decode, if_neg nonzero, opcode]
  rfl

theorem decode_cop1 (nonzero : w ≠ 0) (opcode : opcodeOf w = 0x11) : decode w = decodeCop1 w := by
  rw [decode, if_neg nonzero, opcode]
  rfl

theorem decode_mmi (nonzero : w ≠ 0) (opcode : opcodeOf w = 0x1C) : decode w = decodeMmi w := by
  rw [decode, if_neg nonzero, opcode]
  rfl

/-- Branches have rows in the table of opcodes and in a nested one. -/
theorem decode_branch {cond : BranchCond} {rs rt : RegNum} {offset : Half} {likely link : Bool} (nonzero : w ≠ 0)
    (listed : (branch cond rs rt offset likely link).listed = true)
    (selected : BitField.Carried (cond.selectors likely link) w) :
    decode w = branch cond (rsOf w) (if cond.usesRt then rtOf w else 0) (immOf w) likely link := by
  cases cond with
  | eq | ne | lez | gtz =>
    obtain rfl : link = false := by simp_all [Insn.listed, BranchCond.links, BranchCond.usesRt]
    obtain ⟨opcode, -⟩ := carried_cons.1 selected
    rw [get_opcode] at opcode
    rw [decode, if_neg nonzero, opcode]
    cases likely <;> rfl
  | ltz | gez =>
    obtain ⟨opcode, row⟩ := carried_cons.1 selected
    obtain ⟨row, -⟩ := carried_cons.1 row
    rw [get_opcode] at opcode
    rw [get_rt] at row
    rw [decode_regImm nonzero opcode, decodeRegImm, row]
    cases likely <;> cases link <;> rfl

/-- A word that has the selectors of an instruction of the table is that instruction, with operands of its own. -/
theorem decode_of_selected {i : Insn} (nonzero : w ≠ 0) (listed : i.listed = true)
    (selected : BitField.Carried i.selectors w) : decode w = i.refill w := by
  cases i with
  | nop =>
    have zero : w.toNat = 0 := (get_whole w).symm.trans (carried_cons.1 selected).1
    exact absurd (BitVec.eq_of_toNat_eq zero) nonzero
  | reserved w => cases listed
  | branch => exact decode_branch nonzero listed selected
  | alu op | shift op | shiftVar op | mulDiv op | hiLo op | condMove op =>
    simp only [selectors, carried_cons, get_opcode, get_funct, carried_nil, and_true] at selected
    obtain ⟨opcode, row⟩ := selected
    rw [decode_special nonzero opcode, decodeSpecial, row]
    cases op <;> rfl
  | jumpReg rs link =>
    simp only [selectors, carried_cons, get_opcode, get_funct, carried_nil, and_true] at selected
    obtain ⟨opcode, row⟩ := selected
    rw [decode_special nonzero opcode, decodeSpecial, row]
    cases link <;> rfl
  | syscall | breakpoint | sync =>
    simp only [selectors, carried_cons, get_opcode, get_funct, carried_nil, and_true] at selected
    obtain ⟨opcode, row⟩ := selected
    rw [decode_special nonzero opcode, decodeSpecial, row]
    rfl
  | cop0Move op =>
    simp only [selectors, carried_cons, get_opcode, get_rs, carried_nil, and_true] at selected
    obtain ⟨opcode, row⟩ := selected
    rw [decode_cop0 nonzero opcode, decodeCop0, row]
    cases op <;> rfl
  | eret | ei | di =>
    simp only [selectors, carried_cons, get_opcode, get_rs, get_funct, carried_nil, and_true] at selected
    obtain ⟨opcode, row, funct⟩ := selected
    rw [decode_cop0 nonzero opcode, decodeCop0, row, funct]
    rfl
  | fpuMove op =>
    simp only [selectors, carried_cons, get_opcode, get_rs, carried_nil, and_true] at selected
    obtain ⟨opcode, row⟩ := selected
    rw [decode_cop1 nonzero opcode, decodeCop1, row]
    cases op <;> rfl
  | fpuBranch onTrue likely =>
    simp only [selectors, carried_cons, get_opcode, get_rs, get_rt, carried_nil, and_true] at selected
    obtain ⟨opcode, row, kind⟩ := selected
    rw [decode_cop1 nonzero opcode, decodeCop1, row, kind]
    cases onTrue <;> cases likely <;> rfl
  | fpuArith op =>
    simp only [selectors, carried_cons, get_opcode, get_rs, get_funct, carried_nil, and_true] at selected
    obtain ⟨opcode, row, funct⟩ := selected
    rw [decode_cop1 nonzero opcode, decodeCop1, row, decodeSingle, funct]
    cases op <;> rfl
  | fpuCompare cond =>
    simp only [selectors, carried_cons, get_opcode, get_rs, get_funct, carried_nil, and_true] at selected
    obtain ⟨opcode, row, funct⟩ := selected
    rw [decode_cop1 nonzero opcode, decodeCop1, row, decodeSingle, funct]
    cases cond <;> rfl
  | mmi op =>
    simp only [selectors, carried_cons, get_opcode, get_funct, get_sa, carried_nil, and_true] at selected
    obtain ⟨opcode, funct, row⟩ := selected
    rw [decode_mmi nonzero opcode, decodeMmi, funct, row]
    cases op <;> rfl
  | aluImm op | load op | store op =>
    simp only [selectors, carried_cons, get_opcode, carried_nil, and_true] at selected
    rw [decode, if_neg nonzero, selected]
    cases op <;> rfl
  | jump index link =>
    simp only [selectors, carried_cons, get_opcode, carried_nil, and_true] at selected
    rw [decode, if_neg nonzero, selected]
    cases link <;> rfl
  | lui | fpuLoad | fpuStore =>
    simp only [selectors, carried_cons, get_opcode, carried_nil, and_true] at selected
    rw [decode, if_neg nonzero, selected]
    rfl

/-! ## From the decoder to the table -/

/-- A word is reserved, or what it is said to be is in the table and has its fields in the word. -/
def Sound (w : Word) (i : Insn) : Prop := i = reserved w ∨ i.listed = true ∧ BitField.Carried i.fields w

theorem decodeSpecial_sound (opcode : opcodeOf w = 0x00) : Sound w (decodeSpecial w) := by
  unfold decodeSpecial
  dsimp only
  split
  all_goals first
    | exact .inl rfl
    | next row =>
      refine .inr ⟨rfl, ?_⟩
      simp [fields, selectors, operandFields, opcode, row, AluOp.funct, ShiftOp.funct, ShiftVarOp.funct, MulDivOp.funct,
        MulDivOp.isMul, HiLoOp.funct, CondMoveOp.funct]

theorem decodeRegImm_sound (opcode : opcodeOf w = 0x01) : Sound w (decodeRegImm w) := by
  unfold decodeRegImm
  dsimp only
  split
  all_goals first
    | exact .inl rfl
    | next row =>
      refine .inr ⟨rfl, ?_⟩
      simp [fields, selectors, BranchCond.selectors, operandFields, BranchCond.usesRt, opcode, row]

theorem decodeCop0_sound (opcode : opcodeOf w = 0x10) : Sound w (decodeCop0 w) := by
  unfold decodeCop0
  split
  · next row => exact .inr ⟨rfl, by simp [fields, selectors, operandFields, Cop0Op.row, opcode, row]⟩
  · next row => exact .inr ⟨rfl, by simp [fields, selectors, operandFields, Cop0Op.row, opcode, row]⟩
  · next row =>
    split
    all_goals first
      | exact .inl rfl
      | next funct => exact .inr ⟨rfl, by simp [fields, selectors, operandFields, opcode, row, funct]⟩
  · exact .inl rfl

theorem decodeSingle_sound (opcode : opcodeOf w = 0x11) (format : (rsOf w).val = 0x10) : Sound w (decodeSingle w) := by
  unfold decodeSingle
  dsimp only
  split
  all_goals first
    | exact .inl rfl
    | next funct =>
      refine .inr ⟨rfl, ?_⟩
      simp [fields, selectors, operandFields, FpuOp.format, FpuOp.funct, FpuCond.funct, opcode, format, funct]

theorem decodeCop1_sound (opcode : opcodeOf w = 0x11) : Sound w (decodeCop1 w) := by
  unfold decodeCop1
  dsimp only
  split
  · next row => exact .inr ⟨rfl, by simp [fields, selectors, operandFields, FpuMoveOp.row, opcode, row]⟩
  · next row => exact .inr ⟨rfl, by simp [fields, selectors, operandFields, FpuMoveOp.row, opcode, row]⟩
  · next row => exact .inr ⟨rfl, by simp [fields, selectors, operandFields, FpuMoveOp.row, opcode, row]⟩
  · next row => exact .inr ⟨rfl, by simp [fields, selectors, operandFields, FpuMoveOp.row, opcode, row]⟩
  · next row =>
    split
    all_goals first
      | exact .inl rfl
      | next kind => exact .inr ⟨rfl, by simp [fields, selectors, operandFields, opcode, row, kind]⟩
  · next format => exact decodeSingle_sound opcode format
  · next format =>
    split
    · next funct =>
      exact .inr ⟨rfl, by simp [fields, selectors, operandFields, FpuOp.format, FpuOp.funct, opcode, format, funct]⟩
    · exact .inl rfl
  · exact .inl rfl

theorem decodeMmi_sound (opcode : opcodeOf w = 0x1C) : Sound w (decodeMmi w) := by
  unfold decodeMmi
  dsimp only
  split
  all_goals first
    | exact .inl rfl
    | next funct row =>
      refine .inr ⟨rfl, ?_⟩
      simp [fields, selectors, operandFields, MmiOp.funct, MmiOp.row, opcode, funct, row]

theorem decode_hint (hint : isHint w) : decode w = nop := by
  have nonzero : w ≠ 0 := by
    rintro rfl
    rcases hint with opcode | opcode <;> cases opcode
  rcases hint with opcode | opcode <;> rw [get_opcode] at opcode <;> rw [decode, if_neg nonzero, opcode] <;> rfl

/-- A row of the table of opcodes is an instruction of its own, or it opens another table. -/
theorem decode_sound (other : ¬ isHint w) : Sound w (decode w) := by
  have cache : opcodeOf w ≠ 0x2F := fun opcode => other (.inl ((get_opcode w).trans opcode))
  have prefetch : opcodeOf w ≠ 0x33 := fun opcode => other (.inr ((get_opcode w).trans opcode))
  unfold decode
  dsimp only
  split
  · next zero =>
    rw [zero]
    exact .inr ⟨rfl, by decide⟩
  · split
    all_goals first
      | exact decodeSpecial_sound ‹_›
      | exact decodeRegImm_sound ‹_›
      | exact decodeCop0_sound ‹_›
      | exact decodeCop1_sound ‹_›
      | exact decodeMmi_sound ‹_›
      | exact absurd ‹_› cache
      | exact absurd ‹_› prefetch
      | exact .inl rfl
      | next opcode =>
        refine .inr ⟨rfl, ?_⟩
        simp [fields, selectors, BranchCond.selectors, operandFields, BranchCond.usesRt, AluImmOp.opcode, LoadOp.opcode,
          StoreOp.opcode, opcode]

/-- No instruction but `nop` and the shift of register 0 by zero has zeros in all of its fields. -/
theorem eq_of_zeros {i : Insn} (listed : i.listed = true) (zeros : ∀ p ∈ i.fields, p.2 = 0) :
    i = nop ∨ i = shift .sll 0 0 0 := by
  cases i with
  | nop => exact .inl rfl
  | reserved => cases listed
  | shift op =>
    cases op with
    | sll => exact .inr (by simpa [fields, selectors, operandFields, ShiftOp.funct] using zeros)
    | _ => simp [fields, selectors, ShiftOp.funct] at zeros
  | alu op | aluImm op | shiftVar op | mulDiv op | hiLo op | condMove op | load op | store op =>
    cases op <;> simp [fields, selectors, AluOp.funct, AluImmOp.opcode, ShiftVarOp.funct, MulDivOp.funct, HiLoOp.funct,
      CondMoveOp.funct, LoadOp.opcode, StoreOp.opcode] at zeros
  | branch cond => cases cond <;> simp [fields, selectors, BranchCond.selectors] at zeros
  | _ => simp [fields, selectors] at zeros

theorem encode_ne_zero {i : Insn} (listed : i.listed = true) (other : i ≠ nop) : i.encode ≠ 0 := by
  intro zero
  have carried := i.carried_encode
  rw [zero] at carried
  have zeros : ∀ p ∈ i.fields, p.2 = 0 := fun p own => by simp [← carried p own, BitField.get]
  rw [(eq_of_zeros listed zeros).resolve_left other] at zero
  cases zero

theorem decode_of_carried {i : Insn} (listed : i.listed = true) (nonzero : w ≠ 0)
    (carried : BitField.Carried i.fields w) :
    decode w = i := by
  obtain ⟨selected, fill⟩ := List.forall_mem_append.1 carried
  rw [decode_of_selected nonzero listed selected, refill_of_carried listed fill]

theorem decode_encode {i : Insn} (listed : i.listed = true) : decode i.encode = i := by
  by_cases zero : i = nop
  · rw [zero]
    rfl
  · exact decode_of_carried listed (encode_ne_zero listed zero) i.carried_encode

/-- The words that are not reserved are those that have the selectors of an instruction of the table. -/
theorem decode_reserved_iff :
    decode w = reserved w ↔ ¬ isHint w ∧ ∀ i : Insn, i.listed = true → ¬ BitField.Carried i.selectors w := by
  constructor
  · intro reserved
    refine ⟨fun hint => ?_, fun i listed selected => ?_⟩
    · rw [decode_hint hint] at reserved
      cases reserved
    · by_cases zero : w = 0
      · rw [zero] at reserved
        cases reserved
      · -- A refilled instruction is of the same kind, which is not reserved.
        rw [decode_of_selected zero listed selected] at reserved
        cases i with
        | reserved => cases listed
        | hiLo op => cases op <;> cases reserved
        | jumpReg _ link => cases link <;> cases reserved
        | _ => cases reserved
  · rintro ⟨other, unlisted⟩
    exact (decode_sound other).resolve_right fun ⟨listed, carried⟩ =>
      unlisted _ listed (List.forall_mem_append.1 carried).1

end

/-- The decoder recognises the instruction table and nothing else. Every instruction of the table is what its
word decodes to, and any other word but zero that has its fields. A word is reserved if it has the selectors of
no instruction and is no hint; any other decodes to an instruction of the table whose word decodes to the same
and, unless it is a hint, has all fields that the instruction uses as they are in the word. Every operand is in
the range of its field: register numbers and shift amounts are of 5 bits, indices of 26 and codes of 20. -/
theorem decode_exact :
    (∀ i : Insn, i.listed = true → decode i.encode = i ∧ ∀ w, w ≠ 0 → BitField.Carried i.fields w → decode w = i) ∧
      decode 0 = nop ∧
      (∀ w, decode w = reserved w ↔ ¬ isHint w ∧ ∀ i : Insn, i.listed = true → ¬ BitField.Carried i.selectors w) ∧
      (∀ w, isHint w → decode w = nop) ∧
      (∀ w, decode w ≠ reserved w → (decode w).listed = true ∧ decode (decode w).encode = decode w ∧
        (¬ isHint w → ∀ p ∈ (decode w).fields, p.1.get (decode w).encode = p.1.get w)) ∧
      ∀ w, ∀ p ∈ (decode w).operandFields, p.2 < twoPow p.1.width := by
  refine ⟨fun i listed => ⟨decode_encode listed, fun w nonzero => decode_of_carried listed nonzero⟩, rfl,
    fun w => decode_reserved_iff, fun w => decode_hint, fun w known => ?_, fun w p own => ?_⟩
  · by_cases hint : isHint w
    · rw [decode_hint hint]
      exact ⟨rfl, rfl, fun other => absurd hint other⟩
    · obtain ⟨listed, carried⟩ := (decode_sound hint).resolve_left known
      exact ⟨listed, decode_encode listed, fun _ p own => ((decode w).carried_encode p own).trans (carried p own).symm⟩
  · exact (decode w).placed_fields.fits p (List.mem_append_right _ own)

/-- An addition, with and without bits that it does not use; a word that is reserved; and a prefetch. -/
theorem decode_exact_addu :
    encode (alu .addu 2 4 5) = 0x00851021 ∧ decode (encode (alu .addu 2 4 5)) = alu .addu 2 4 5 ∧
      decode 0x008510E1 = alu .addu 2 4 5 ∧
      (∀ p ∈ (decode 0x008510E1).fields, p.1.get (decode 0x008510E1).encode = p.1.get 0x008510E1) ∧
      decode 0x00000001 = reserved 0x00000001 ∧
      (∀ i : Insn, i.listed = true → ¬ BitField.Carried i.selectors 0x00000001) ∧
      decode 0xCC850000 = nop := by
  obtain ⟨encoded, -, reserves, hints, known, -⟩ := decode_exact
  have row : decode 0x00000001 = reserved 0x00000001 := by decide
  exact ⟨by decide, (encoded (alu .addu 2 4 5) rfl).1, (encoded _ rfl).2 _ (by decide) (by decide),
    (known 0x008510E1 (by decide)).2.2 (by unfold isHint; decide), row, ((reserves _).1 row).2,
    hints 0xCC850000 (.inr (by decide))⟩

end EmotionEngine.Insn
