import EmotionEngine.Host.Assembly
import EmotionEngine.Proofs.Host.Decode
import EmotionEngine.Proofs.Host.Perform
import Mathlib.Data.List.Forall2

/-!
What is emitted is what was asked for. The emitter appends the bytes of one instruction per request; the
reader is that of `Host.Assembly`, which goes by the opcode tables of the processor. `Reads` carries the
argument as in `Proofs.Host.Decode`: the prefixes and the opcode (`reads_head`), the operand byte
(`reads_operandByte`, `reads_memByte`), then each operand at its place, so that an instruction is read
when its table entry and its operands are.

Main statements: the bytes of an instruction read as the instruction that it is meant to be
(`reads_assembly`), a constant is in its register after the one instruction that is emitted for it
(`movImm_leaves`), and of any number of requests in a row the bytes appended read as the instructions
that were asked for, in their order (`requests_listed`).
-/

namespace EmotionEngine.Host.Assembly

open CodeReader
open CodeByte (ofBytes)

variable {p : Prefixes} {n : Nat} {o : Option OperandByte}

/-! ## Operand byte -/

theorem reads_operandByte {ext low : Nat} (he : ext < 8) (hl : low < 8) :
    Reads (OperandByte.read p) (ofBytes [operandByte 0xC0#8 ext low]) { field := ext, rm := .reg low } := by
  obtain ⟨h1, h2, h3⟩ := operandByte_fields (m := 3) (by decide) he hl
  change (operandByte 0xC0#8 ext low).toNat / 64 = 3 at h1
  change (operandByte 0xC0#8 ext low).toNat / 8 % 8 = ext at h2
  change (operandByte 0xC0#8 ext low).toNat % 8 = low at h3
  refine Reads.bind_last (Reads.byte _) ?_
  dsimp only
  rw [h1, h2, h3]
  exact Reads.of_true rfl (Reads.pure _)

theorem baseOr_reg {none : Base} {mode : Nat} (base : Reg) (hb : p.rm = decide (8 ≤ base.index))
    (hm : ¬(mode = 0 ∧ base.low3 = 5)) : baseOr none p mode base.low3 = some (.reg base) := by
  rw [baseOr, if_neg hm, hb, regOf_low3]
  rfl

/-- The address behind an operand byte. For one base register in eight a byte follows that says: this
base, and no index. -/
theorem reads_address {mode : Nat} {base : Reg} {disp : Word} {bs : List CodeByte}
    (hb : p.rm = decide (8 ≤ base.index)) (hx : p.index = false) (hm : ¬(mode = 0 ∧ base.low3 = 5))
    (hd : Reads (displacement mode base.low3) bs disp) :
    Reads (address p mode base.low3) (ofBytes (if base.low3 = 4 then [0x24#8] else []) ++ bs)
      (.at base disp) := by
  by_cases h : base.low3 = 4
  · rw [if_pos h]
    refine Reads.of_true h (Reads.bind (Reads.byte _) ?_)
    have low : (0x24#8).toNat % 8 = base.low3 := h.symm
    have index : indexOf p 0x24#8 = some none := if_pos ⟨rfl, hx⟩
    rw [low]
    exact Reads.bind_last hd (Reads.bind_nil (Reads.ofOption (baseOr_reg base hb hm))
      (Reads.bind_nil (Reads.ofOption index) (Reads.pure _)))
  · rw [if_neg h]
    exact Reads.of_false h (Reads.bind_last hd
      (Reads.bind_nil (Reads.ofOption (baseOr_reg base hb hm)) (Reads.pure _)))

theorem reads_memMode {m ext : Nat} {base : Reg} {disp : Word} {bs : List CodeByte} (hm : m < 3)
    (he : ext < 8) (hb : p.rm = decide (8 ≤ base.index)) (hx : p.index = false)
    (hz : ¬(m = 0 ∧ base.low3 = 5)) (hd : Reads (displacement m base.low3) bs disp) :
    Reads (OperandByte.read p)
      (.lit (operandByte (BitVec.ofNat 8 (64 * m)) ext base.low3) ::
        (ofBytes (if base.low3 = 4 then [0x24#8] else []) ++ bs))
      { field := ext, rm := .mem (.at base disp) } := by
  obtain ⟨h1, h2, h3⟩ := operandByte_fields (m := m) (by omega) he base.low3_lt
  refine Reads.bind (Reads.byte _) ?_
  dsimp only
  rw [h1, h2, h3]
  exact Reads.of_false (by omega) (Reads.bind_last (reads_address hb hx hz hd) (Reads.pure _))

/-- The bytes of a memory operand, whichever length its displacement takes. -/
theorem reads_memByte {ext : Nat} (base : Reg) (disp : Word) (he : ext < 8)
    (hb : p.rm = decide (8 ≤ base.index)) (hx : p.index = false) :
    Reads (OperandByte.read p) (ofBytes (memOperand ext base disp))
      { field := ext, rm := .mem (.at base disp) } := by
  unfold memOperand
  dsimp only
  by_cases h0 : disp = 0 ∧ base.low3 ≠ 5
  · rw [if_pos h0, h0.1]
    have hd : Reads (displacement 0 base.low3) [] 0 :=
      Reads.of_false (by decide) (Reads.of_false (by simpa using h0.2) (Reads.pure _))
    have := reads_memMode (m := 0) (by decide) he hb hx (fun h => h0.2 h.2) hd
    rwa [List.append_nil] at this
  rw [if_neg h0]
  by_cases h1 : fitsByte disp
  · rw [if_pos h1]
    have hd : Reads (displacement 1 base.low3) [.lit (disp.setWidth 8)] disp :=
      Reads.of_true rfl (Reads.shortWord h1)
    have := reads_memMode (m := 1) (by decide) he hb hx (fun h => absurd h.1 (by decide)) hd
    simpa [ofBytes] using this
  · rw [if_neg h1]
    have hd : Reads (displacement 2 base.low3) (ofBytes (leBytes 4 disp.toNat)) disp :=
      Reads.of_false (by decide) (Reads.of_true (Or.inl rfl) (Reads.word disp))
    have := reads_memMode (m := 2) (by decide) he hb hx (fun h => absurd h.1 (by decide)) hd
    simpa [ofBytes] using this

/-! ## Operands -/

theorem reads_none : Reads (operandsAt p n o []) [] [] := Reads.pure _

theorem reads_cons {place : Place} {places : List Place} {bs bs' : List CodeByte} {x : Operand}
    {xs : List Operand} (h : Reads (operand p n o place) bs x) (h' : Reads (operandsAt p n o places) bs' xs) :
    Reads (operandsAt p n o (place :: places)) (bs ++ bs') (x :: xs) :=
  Reads.bind h (Reads.bind_last h' (Reads.pure _))

theorem reads_last {place : Place} {bs : List CodeByte} {x : Operand} (h : Reads (operand p n o place) bs x) :
    Reads (operandsAt p n o [place]) bs [x] := by
  have := reads_cons h reads_none
  rwa [List.append_nil] at this

/-- Two operands that are in the operand byte or the opcode. -/
theorem reads_pair {place place' : Place} {x y : Operand} (h : Reads (operand p n o place) [] x)
    (h' : Reads (operand p n o place') [] y) : Reads (operandsAt p n o [place, place']) [] [x, y] :=
  reads_cons h (reads_last h')

/-- A number names the low part of its register, but for four bytes without a REX prefix. -/
theorem register_low3 {w : Width} (r : Reg) (h : w ≠ .byte ∨ p.rex = true ∨ r.low3 < 4) :
    p.register w (decide (8 ≤ r.index)) r.low3 = some (.reg w r) := by
  have not_high : ¬(w = .byte ∧ p.rex = false ∧ 4 ≤ r.low3) := by
    rintro ⟨byte, without, high⟩
    rcases h with h | h | h
    · exact h byte
    · rw [without] at h
      cases h
    · omega
  rw [Prefixes.register, if_neg not_high, regOf_low3]
  rfl

theorem reads_rm {s : Size} {w : Width} {field : Nat} {r : Reg} (hw : p.width s = w)
    (hb : p.rm = decide (8 ≤ r.index)) (h : w ≠ .byte ∨ p.rex = true ∨ r.low3 < 4) :
    Reads (operand p n (some { field, rm := .reg r.low3 }) (.rm s)) [] (.reg w r) := by
  refine Reads.ofOption ?_
  rw [hw, hb, register_low3 r h]

theorem reads_mem {s : Size} {w : Width} {field : Nat} {a : Address} (hw : p.width s = w) :
    Reads (operand p n (some { field, rm := .mem a }) (.rm s)) [] (.mem w a) := by
  rw [← hw]
  exact Reads.pure _

theorem reads_field {s : Size} {w : Width} {rm : Rm} {r : Reg} (hw : p.width s = w)
    (hr : p.reg = decide (8 ≤ r.index)) (h : w ≠ .byte) :
    Reads (operand p n (some { field := r.low3, rm }) (.field s)) [] (.reg w r) := by
  refine Reads.ofOption ?_
  rw [hw, hr, register_low3 r (Or.inl h)]

theorem reads_short {s : Size} {w : Width} {r : Reg} (hn : n % 8 = r.low3) (hw : p.width s = w)
    (hb : p.rm = decide (8 ≤ r.index)) (h : w ≠ .byte) :
    Reads (operand p n o (.short s)) [] (.reg w r) := by
  refine Reads.ofOption ?_
  rw [hn, hw, hb, register_low3 r (Or.inl h)]

theorem reads_imm8 {w : Word} (h : fitsByte w = true) :
    Reads (operand p n o .imm8) (ofBytes [w.setWidth 8]) (.imm (sextWord w)) :=
  Reads.bind_last (Reads.shortWord h) (Reads.pure _)

theorem reads_immediate (h : p.half = false) (w : Word) :
    Reads (immediate p) (ofBytes (leBytes 4 w.toNat)) (.imm (sextWord w)) := by
  have not_half : p.width .operand ≠ .half := by
    unfold Prefixes.width
    cases p.wide <;> simp [h]
  exact Reads.of_false not_half (Reads.bind_last (Reads.word w) (Reads.pure _))

theorem reads_imm (h : p.half = false) (w : Word) :
    Reads (operand p n o .imm) (ofBytes (leBytes 4 w.toNat)) (.imm (sextWord w)) := reads_immediate h w

theorem reads_immFull (h : p.wide = true) (v : Dword) :
    Reads (operand p n o .immFull) (ofBytes (leBytes 8 v.toNat)) (.imm v) :=
  Reads.of_true h (Reads.bind_last (Reads.dword v) (Reads.pure _))

theorem reads_immFull_word (h : p.half = false) (hw : p.wide = false) (w : Word) :
    Reads (operand p n o .immFull) (ofBytes (leBytes 4 w.toNat)) (.imm (sextWord w)) :=
  Reads.of_false (by simp [hw]) (reads_immediate h w)

theorem reads_count (b : Byte) : Reads (operand p n o .count) (ofBytes [b]) (.imm (b.setWidth 64)) :=
  Reads.bind_last (Reads.byte b) (Reads.pure _)

theorem reads_rel32 (w : Word) :
    Reads (operand p n o .rel32) (ofBytes (leBytes 4 w.toNat)) (.rel (sextWord w)) :=
  Reads.bind_last (Reads.word w) (Reads.pure _)

/-! ## Prefixes and opcode -/

/-- The prefixes of an emitted opcode as the reader sees them. -/
def prefixesOf (op : Opcode) (r rm : Nat) : Prefixes :=
  let rex := op.rexOf r rm
  { rex := rex.present, wide := rex.wide, reg := rex.reg, rm := rex.rm }

section
variable (op : Opcode) (r rm : Nat)

@[simp] theorem prefixesOf_half : (prefixesOf op r rm).half = false := rfl

@[simp] theorem prefixesOf_wide : (prefixesOf op r rm).wide = op.wide := op.rexOf_wide r rm

@[simp] theorem prefixesOf_reg : (prefixesOf op r rm).reg = decide (8 ≤ r) := op.rexOf_reg r rm

@[simp] theorem prefixesOf_rm : (prefixesOf op r rm).rm = decide (8 ≤ rm) := op.rexOf_rm r rm

theorem prefixesOf_operand : (prefixesOf op r rm).width .operand = Insn.width op.wide := by
  simp [Prefixes.width, Insn.width]

end

/-- What the tables say about an emitted opcode. -/
def entryOf (op : Opcode) : Option Entry :=
  if op.escape then Entry.escaped? op.byte.toNat else Entry.plain? op.byte.toNat

/-- The width of the operation has no part in the entry of an opcode. -/
theorem entryOf_op {k : Nat} {e : Entry} (wide : Bool) (h : Entry.plain? (BitVec.ofNat 8 k).toNat = some e) :
    entryOf (Insn.op k wide) = some e := h

theorem entryOf_op0F {k : Nat} {e : Entry} (wide : Bool)
    (h : Entry.escaped? (BitVec.ofNat 8 k).toNat = some e) : entryOf (Insn.op0F k wide) = some e := h

/-- No opcode starts with a byte that is a prefix or the escape byte. -/
theorem first_of_plain? {b : Byte} {e : Entry} (h : Entry.plain? b.toNat = some e) :
    b ≠ 0x0F#8 ∧ b ≠ 0x66#8 ∧ b >>> 4 ≠ 4#8 := by
  refine ⟨?_, ?_, fun rex => ?_⟩
  · rintro rfl
    cases h
  · rintro rfl
    cases h
  · have unknown : ∀ k : Fin 16, (Entry.plain? (0x40 + k.val)).isNone = true := by decide
    have number : b.toNat / 16 = 4 := by
      have := congrArg BitVec.toNat rex
      simpa [Nat.shiftRight_eq_div_pow] using this
    have := unknown ⟨b.toNat % 16, Nat.mod_lt _ (by decide)⟩
    rw [show 0x40 + b.toNat % 16 = b.toNat by omega, h] at this
    cases this

theorem reads_rex {b : Byte} {bs : List CodeByte} {i : Instr} (half : b ≠ 0x66#8)
    (rex : Prefixes.withRex? {} b = some p) (h : Reads (unprefixed p) bs i) :
    Reads decode (.lit b :: bs) i := by
  intro rest
  have noHalf : Prefixes.withHalf? {} b = none := if_neg half
  simp only [decode, Bind.bind, andThen, Prefixes.more, List.cons_append, noHalf, rex]
  exact h rest

theorem reads_no_rex {b : Byte} {bs : List CodeByte} {i : Instr} (half : b ≠ 0x66#8) (rex : b >>> 4 ≠ 4#8)
    (h : Reads (unprefixed {}) (.lit b :: bs) i) : Reads decode (.lit b :: bs) i := by
  intro rest
  have noHalf : Prefixes.withHalf? {} b = none := if_neg half
  have noRex : Prefixes.withRex? {} b = none := if_neg rex
  simp only [decode, Bind.bind, andThen, Prefixes.more, List.cons_append, noHalf, noRex]
  exact h rest

theorem reads_entry {op : Opcode} {e : Entry} (he : entryOf op = some e) :
    Reads Entry.read (ofBytes ((if op.escape then [0x0F#8] else []) ++ [op.byte])) (op.byte.toNat, e) := by
  unfold entryOf at he
  cases h : op.escape with
  | true =>
    rw [h, if_pos rfl] at he
    refine Reads.bind (Reads.byte 0x0F#8) (Reads.of_true rfl (Reads.bind_last (Reads.byte op.byte) ?_))
    exact Reads.bind_nil (Reads.ofOption he) (Reads.pure _)
  | false =>
    rw [h, if_neg Bool.false_ne_true] at he
    refine Reads.bind_last (Reads.byte op.byte) (Reads.of_false (first_of_plain? he).1 ?_)
    exact Reads.bind_nil (Reads.ofOption he) (Reads.pure _)

theorem withRex?_prefixesOf {op : Opcode} {r rm : Nat}
    (h : rexBits op.wide r rm ≠ 0 ∨ op.forcesRex r rm = true) :
    0x40#8 ||| rexBits op.wide r rm ≠ 0x66#8 ∧
      Prefixes.withRex? {} (0x40#8 ||| rexBits op.wide r rm) = some (prefixesOf op r rm) := by
  have fields : prefixesOf op r rm =
      { rex := true, wide := op.wide, reg := decide (8 ≤ r), rm := decide (8 ≤ rm) } := by
    rw [prefixesOf, Opcode.rexOf, if_pos h]
  rw [fields]
  unfold rexBits
  cases op.wide <;> by_cases h : 8 ≤ r <;> by_cases h' : 8 ≤ rm <;> simp [h, h'] <;> rfl

/-- Prefixes and opcode, when what follows is read as the tables say. -/
theorem reads_head {op : Opcode} {r rm : Nat} {e : Entry} {bs : List CodeByte} {i : Instr}
    (h16 : op.data16 = false) (he : entryOf op = some e)
    (h : Reads (e.instr (prefixesOf op r rm) op.byte.toNat) bs i) :
    Reads decode (ofBytes (op.encode r rm) ++ bs) i := by
  have code : Reads (unprefixed (prefixesOf op r rm)) _ i := Reads.bind (reads_entry he) h
  unfold Opcode.encode Opcode.rex
  dsimp only
  rw [h16]
  by_cases hr : rexBits op.wide r rm ≠ 0 ∨ op.forcesRex r rm
  · rw [if_pos hr]
    obtain ⟨half, rex⟩ := withRex?_prefixesOf hr
    have := reads_rex half rex code
    simpa [ofBytes] using this
  · have plain : prefixesOf op r rm = {} := by rw [prefixesOf, Opcode.rexOf, if_neg hr]
    rw [if_neg hr]
    rw [plain] at code
    -- Without a prefix the first byte is the escape byte or the opcode.
    cases escape : op.escape with
    | true =>
      rw [escape] at code
      exact reads_no_rex (by decide) (by decide) code
    | false =>
      rw [escape] at code
      rw [entryOf, escape, if_neg Bool.false_ne_true] at he
      obtain ⟨-, half, rex⟩ := first_of_plain? he
      exact reads_no_rex half rex code

/-! ## Forms -/

section
variable {op : Opcode} {m : Mnemonic} {places : List Place} {xs : List Operand}
  {f : Nat → Option (Mnemonic × List Place)} (h16 : op.data16 = false)
include h16

theorem reads_bare {r rm : Nat} {bs : List Byte} (he : entryOf op = some (.bare m places))
    (hx : Reads (operandsAt (prefixesOf op r rm) op.byte.toNat none places) (ofBytes bs) xs) :
    Reads decode (ofBytes (op.encode r rm ++ bs)) { mnemonic := m, operands := xs } := by
  rw [ofBytes, List.map_append]
  exact reads_head h16 he (Reads.bind_last hx (Reads.pure _))

theorem reads_coded {r rm : Nat} {byte : OperandByte} {bs bs' : List Byte}
    (he : entryOf op = some (.coded f))
    (hb : Reads (OperandByte.read (prefixesOf op r rm)) (ofBytes bs) byte)
    (hf : f byte.field = some (m, places))
    (hx : Reads (operandsAt (prefixesOf op r rm) op.byte.toNat (some byte) places) (ofBytes bs') xs) :
    Reads decode (ofBytes (op.encode r rm ++ bs ++ bs')) { mnemonic := m, operands := xs } := by
  rw [List.append_assoc, ofBytes, List.map_append, List.map_append]
  refine reads_head h16 he (Reads.bind hb (Reads.bind_nil (Reads.ofOption hf) ?_))
  exact Reads.bind_last hx (Reads.pure _)

/-- An instruction on one register, whose opcode goes on in the register field. -/
theorem reads_extReg {ext : Nat} {rm : Reg} {bs : List Byte} (he : entryOf op = some (.coded f))
    (h8 : ext < 8) (hf : f ext = some (m, places))
    (hx : Reads (operandsAt (prefixesOf op ext rm.index) op.byte.toNat
      (some { field := ext, rm := .reg rm.low3 }) places) (ofBytes bs) xs) :
    Reads decode (ofBytes (op.extReg ext rm ++ bs)) { mnemonic := m, operands := xs } :=
  reads_coded h16 he (reads_operandByte h8 rm.low3_lt) hf hx

/-- An instruction on memory, whose opcode goes on in the register field. -/
theorem reads_extMem {ext : Nat} {base : Reg} {disp : Word} {bs : List Byte}
    (he : entryOf op = some (.coded f)) (h8 : ext < 8) (hf : f ext = some (m, places))
    (hx : Reads (operandsAt (prefixesOf op ext base.index) op.byte.toNat
      (some { field := ext, rm := .mem (.at base disp) }) places) (ofBytes bs) xs) :
    Reads decode (ofBytes (op.extMem ext base disp ++ bs)) { mnemonic := m, operands := xs } :=
  reads_coded h16 he (reads_memByte base disp h8 (prefixesOf_rm _ _ _) rfl) hf hx

theorem reads_regReg {r rm : Reg} (he : entryOf op = some (.whole m places))
    (hx : Reads (operandsAt (prefixesOf op r.index rm.index) op.byte.toNat
      (some { field := r.low3, rm := .reg rm.low3 }) places) [] xs) :
    Reads decode (ofBytes (op.regReg r rm)) { mnemonic := m, operands := xs } := by
  rw [← List.append_nil (op.regReg r rm)]
  exact reads_coded h16 he (reads_operandByte r.low3_lt rm.low3_lt) rfl hx

theorem reads_regMem {r base : Reg} {disp : Word} (he : entryOf op = some (.whole m places))
    (hx : Reads (operandsAt (prefixesOf op r.index base.index) op.byte.toNat
      (some { field := r.low3, rm := .mem (.at base disp) }) places) [] xs) :
    Reads decode (ofBytes (op.regMem r base disp)) { mnemonic := m, operands := xs } := by
  rw [← List.append_nil (op.regMem r base disp)]
  exact reads_coded h16 he (reads_memByte base disp r.low3_lt (prefixesOf_rm _ _ _) rfl) rfl hx

end

theorem width_ne_byte (wide : Bool) : Insn.width wide ≠ .byte := by cases wide <;> decide

section
variable {op : Opcode} {m : Mnemonic} (h16 : op.data16 = false)
include h16

/-- Two registers of the width of the operation, the first in the register field. -/
theorem reads_fieldRm (he : entryOf op = some (.whole m [.field .operand, .rm .operand])) (dst src : Reg) :
    Reads decode (ofBytes (op.regReg dst src))
      ⟨m, [.reg (Insn.width op.wide) dst, .reg (Insn.width op.wide) src]⟩ :=
  reads_regReg h16 he (reads_pair
    (reads_field (prefixesOf_operand _ _ _) (prefixesOf_reg _ _ _) (width_ne_byte _))
    (reads_rm (prefixesOf_operand _ _ _) (prefixesOf_rm _ _ _) (Or.inl (width_ne_byte _))))

/-- Two registers of the width of the operation, the second in the register field. -/
theorem reads_rmField (he : entryOf op = some (.whole m [.rm .operand, .field .operand])) (src dst : Reg) :
    Reads decode (ofBytes (op.regReg src dst))
      ⟨m, [.reg (Insn.width op.wide) dst, .reg (Insn.width op.wide) src]⟩ :=
  reads_regReg h16 he (reads_pair
    (reads_rm (prefixesOf_operand _ _ _) (prefixesOf_rm _ _ _) (Or.inl (width_ne_byte _)))
    (reads_field (prefixesOf_operand _ _ _) (prefixesOf_reg _ _ _) (width_ne_byte _)))

theorem reads_fieldMem {s : Size} {w : Width} {dst base : Reg}
    (he : entryOf op = some (.whole m [.field .operand, .rm s]))
    (hw : (prefixesOf op dst.index base.index).width s = w) (disp : Word) :
    Reads decode (ofBytes (op.regMem dst base disp))
      ⟨m, [.reg (Insn.width op.wide) dst, .mem w (.at base disp)]⟩ :=
  reads_regMem h16 he (reads_pair
    (reads_field (prefixesOf_operand _ _ _) (prefixesOf_reg _ _ _) (width_ne_byte _)) (reads_mem hw))

end

theorem reads_rm_operand (op : Opcode) (ext : Nat) (r : Reg) :
    Reads (operand (prefixesOf op ext r.index) n (some { field := ext, rm := .reg r.low3 }) (.rm .operand)) []
      (.reg (Insn.width op.wide) r) :=
  reads_rm (prefixesOf_operand _ _ _) (prefixesOf_rm _ _ _) (Or.inl (width_ne_byte _))

/-- The low byte of a register can be named where the opcode asks for a prefix or has one anyway. -/
theorem rex_or_low {op : Opcode} {r : Nat} {rm : Reg} (h : op.byteRm = true ∨ op.wide = true) :
    (prefixesOf op r rm.index).rex = true ∨ rm.low3 < 4 := by
  have named : namesLowByte (op.rexOf r rm.index) rm = true :=
    Insn.namesLowByte_rexOf (h.elim Or.inl fun wide => Or.inr (Or.inl wide))
  rcases Bool.or_eq_true_iff.mp named with present | low
  · exact Or.inl present
  · right
    have : rm.index < 4 := of_decide_eq_true low
    unfold Reg.low3
    omega

/-! ## Instructions -/

open EmotionEngine.Host.Insn

theorem reads_arith (op : ArithOp) (wide : Bool) (dst src : Reg) :
    Reads decode (ofBytes (arith op wide dst src).bytes)
      ⟨op.mnemonic, [.reg (width wide) dst, .reg (width wide) src]⟩ :=
  reads_fieldRm rfl (entryOf_op wide (by cases op <;> rfl)) dst src

/-- An arithmetic operation in the group of those with a constant. -/
theorem arithGroup_code (op : ArithOp) (s : Size) (place : Place) :
    (Entry.arithOf op.code).map (·, [.rm s, place]) = some (op.mnemonic, [.rm s, place]) := by
  cases op <;> rfl

theorem shiftGroup_code (op : ShiftOp) (s : Size) (place : Place) :
    (Entry.shiftOf op.code).map (·, [.rm s, place]) = some (op.mnemonic, [.rm s, place]) := by
  cases op <;> rfl

theorem reads_arithImm (op : ArithOp) (wide : Bool) (dst : Reg) (imm : Word) :
    Reads decode (ofBytes (arithImm op wide dst imm).bytes)
      ⟨op.mnemonic, [.reg (width wide) dst, .imm (sextWord imm)]⟩ := by
  show Reads decode (ofBytes ((arithImmForm wide imm).1.extReg op.code dst ++ (arithImmForm wide imm).2)) _
  unfold arithImmForm
  by_cases h : fitsByte imm
  · rw [if_pos h]
    exact reads_extReg rfl (entryOf_op wide rfl) op.code_lt (arithGroup_code op _ _)
      (reads_cons (reads_rm_operand _ _ _) (reads_last (reads_imm8 h)))
  · rw [if_neg h]
    exact reads_extReg rfl (entryOf_op wide rfl) op.code_lt (arithGroup_code op _ _)
      (reads_cons (reads_rm_operand _ _ _) (reads_last (reads_imm rfl imm)))

theorem reads_arithMemImm (op : ArithOp) (base : Reg) (disp imm : Word) :
    Reads decode (ofBytes (arithMemImm op base disp imm).bytes)
      ⟨op.mnemonic, [.mem .word (.at base disp), .imm (sextWord imm)]⟩ := by
  show Reads decode
    (ofBytes ((arithImmForm false imm).1.extMem op.code base disp ++ (arithImmForm false imm).2)) _
  unfold arithImmForm
  by_cases h : fitsByte imm
  · rw [if_pos h]
    exact reads_extMem rfl (entryOf_op false rfl) op.code_lt (arithGroup_code op _ _)
      (reads_cons (reads_mem (prefixesOf_operand _ _ _)) (reads_last (reads_imm8 h)))
  · rw [if_neg h]
    exact reads_extMem rfl (entryOf_op false rfl) op.code_lt (arithGroup_code op _ _)
      (reads_cons (reads_mem (prefixesOf_operand _ _ _)) (reads_last (reads_imm rfl imm)))

theorem reads_not (wide : Bool) (dst : Reg) :
    Reads decode (ofBytes (not wide dst).bytes) ⟨.not, [.reg (width wide) dst]⟩ := by
  show Reads decode (ofBytes ((op 0xF7 wide).extReg 2 dst)) _
  rw [← List.append_nil (Opcode.extReg _ _ _)]
  exact reads_extReg rfl (entryOf_op wide rfl) (by decide) rfl (reads_last (reads_rm_operand _ _ _))

theorem reads_shiftImm (op : ShiftOp) (wide : Bool) (dst : Reg) (amount : Byte) :
    Reads decode (ofBytes (shiftImm op wide dst amount).bytes)
      ⟨op.mnemonic, [.reg (width wide) dst, .imm (amount.setWidth 64)]⟩ := by
  show Reads decode (ofBytes (if amount = 1 then (Insn.op 0xD1 wide).extReg op.code dst
    else (Insn.op 0xC1 wide).extReg op.code dst ++ [amount])) _
  by_cases h : amount = 1
  · subst h
    rw [if_pos rfl, ← List.append_nil (Opcode.extReg _ _ _)]
    exact reads_extReg rfl (entryOf_op wide rfl) op.code_lt (shiftGroup_code op _ _)
      (reads_pair (reads_rm_operand _ _ _) (Reads.pure _))
  · rw [if_neg h]
    exact reads_extReg rfl (entryOf_op wide rfl) op.code_lt (shiftGroup_code op _ _)
      (reads_cons (reads_rm_operand _ _ _) (reads_last (reads_count amount)))

theorem reads_shiftCl (op : ShiftOp) (wide : Bool) (dst : Reg) :
    Reads decode (ofBytes (shiftCl op wide dst).bytes)
      ⟨op.mnemonic, [.reg (width wide) dst, .reg .byte .rcx]⟩ := by
  show Reads decode (ofBytes ((Insn.op 0xD3 wide).extReg op.code dst)) _
  rw [← List.append_nil (Opcode.extReg _ _ _)]
  exact reads_extReg rfl (entryOf_op wide rfl) op.code_lt (shiftGroup_code op _ _)
    (reads_pair (reads_rm_operand _ _ _) (Reads.pure _))

theorem reads_mov (wide : Bool) (dst src : Reg) :
    Reads decode (ofBytes (mov wide dst src).bytes)
      ⟨.mov, [.reg (width wide) dst, .reg (width wide) src]⟩ :=
  reads_rmField rfl (entryOf_op wide rfl) src dst

theorem reads_clear (dst : Reg) :
    Reads decode (ofBytes (clear dst).bytes) ⟨.xor, [.reg .word dst, .reg .word dst]⟩ :=
  reads_rmField rfl (entryOf_op false rfl) dst dst

theorem reads_movImmSigned (dst : Reg) (imm : Word) :
    Reads decode (ofBytes (movImmSigned dst imm).bytes) ⟨.mov, [.reg .dword dst, .imm (sextWord imm)]⟩ :=
  reads_extReg rfl (entryOf_op true rfl) (by decide) rfl
    (reads_cons (reads_rm_operand _ _ _) (reads_last (reads_imm rfl imm)))

theorem reads_plusReg {k : Nat} {m : Mnemonic} {places : List Place} {bs : List Byte} {xs : List Operand}
    {wide : Bool} {r : Reg} (h8 : k % 8 = 0) (hk : k < 256)
    (he : Entry.plain? (k + r.low3) = some (.bare m places))
    (hx : ∀ p n, n % 8 = r.low3 → p.half = false → p.wide = wide → p.rm = decide (8 ≤ r.index) →
      Reads (operandsAt p n none places) (ofBytes bs) xs) :
    Reads decode (ofBytes ((op k wide).plusReg r ++ bs)) ⟨m, xs⟩ := by
  have number : (BitVec.ofNat 8 k + BitVec.ofNat 8 r.low3).toNat = k + r.low3 := by
    have := r.low3_lt
    rw [BitVec.toNat_add, BitVec.toNat_ofNat, BitVec.toNat_ofNat]
    omega
  refine reads_bare rfl ?_ (hx _ _ ?_ rfl (prefixesOf_wide _ _ _) (prefixesOf_rm _ _ _))
  · show Entry.plain? (BitVec.ofNat 8 k + BitVec.ofNat 8 r.low3).toNat = _
    rw [number]
    exact he
  · show (BitVec.ofNat 8 k + BitVec.ofNat 8 r.low3).toNat % 8 = r.low3
    have := r.low3_lt
    omega

theorem width_stack (h : p.half = false) : p.width .stack = .dword := by simp [Prefixes.width, h]

theorem width_operand (h : p.half = false) : p.width .operand = width p.wide := by
  simp [Prefixes.width, width, h]

theorem reads_push (r : Reg) : Reads decode (ofBytes (push r).bytes) ⟨.push, [.reg .dword r]⟩ := by
  show Reads decode (ofBytes ((op 0x50 false).plusReg r)) _
  rw [← List.append_nil (Opcode.plusReg _ _)]
  refine reads_plusReg rfl (by decide) (by cases r <;> rfl) fun p n hn half _ hb => ?_
  exact reads_last (reads_short hn (width_stack half) hb (by decide))

theorem reads_pop (r : Reg) : Reads decode (ofBytes (pop r).bytes) ⟨.pop, [.reg .dword r]⟩ := by
  show Reads decode (ofBytes ((op 0x58 false).plusReg r)) _
  rw [← List.append_nil (Opcode.plusReg _ _)]
  refine reads_plusReg rfl (by decide) (by cases r <;> rfl) fun p n hn half _ hb => ?_
  exact reads_last (reads_short hn (width_stack half) hb (by decide))

theorem plain?_constant (r : Reg) :
    Entry.plain? (0xB8 + r.low3) = some (.bare .mov [.short .operand, .immFull]) := by
  cases r <;> rfl

theorem reads_movImm32 (dst : Reg) (imm : Word) :
    Reads decode (ofBytes (movImm32 dst imm).bytes) ⟨.mov, [.reg .word dst, .imm (sextWord imm)]⟩ := by
  show Reads decode (ofBytes ((op 0xB8 false).plusReg dst ++ leBytes 4 imm.toNat)) _
  refine reads_plusReg rfl (by decide) (plain?_constant dst) fun p n hn half narrow hb => ?_
  have word : p.width .operand = .word := by rw [width_operand half, narrow]; rfl
  exact reads_cons (reads_short hn word hb (by decide)) (reads_last (reads_immFull_word half narrow imm))

theorem reads_movImm64 (dst : Reg) (imm : Dword) :
    Reads decode (ofBytes (movImm64 dst imm).bytes) ⟨.mov, [.reg .dword dst, .imm imm]⟩ := by
  show Reads decode (ofBytes ((op 0xB8 true).plusReg dst ++ leBytes 8 imm.toNat)) _
  refine reads_plusReg rfl (by decide) (plain?_constant dst) fun p n hn half wide hb => ?_
  have dword : p.width .operand = .dword := by rw [width_operand half, wide]; rfl
  exact reads_cons (reads_short hn dword hb (by decide)) (reads_last (reads_immFull wide imm))

/-- How much an extension reads, as its opcode says it. -/
def sourceSize : Extend → Size
  | .zeroByte | .signByte => .byte
  | .signHalf => .half
  | .signWord => .word

theorem entryOf_extend (x : Extend) :
    entryOf x.opcode = some (.whole x.mnemonic [.field .operand, .rm (sourceSize x)]) := by
  cases x <;> rfl

theorem width_source (x : Extend) : p.width (sourceSize x) = x.source := by cases x <;> rfl

theorem width_target (x : Extend) : width x.opcode.wide = x.target := by cases x <;> rfl

theorem reads_extend {x : Extend} (signed : x ≠ .zeroByte) (dst src : Reg) :
    Reads decode (ofBytes (extend x dst src).bytes) ⟨x.mnemonic, [.reg x.target dst, .reg x.source src]⟩ := by
  have wide : x.opcode.wide = true := by
    cases x with
    | zeroByte => exact absurd rfl signed
    | signByte | signHalf | signWord => rfl
  rw [← width_target]
  exact reads_regReg (plain_extend x).1 (entryOf_extend x) (reads_pair
    (reads_field (prefixesOf_operand _ _ _) (prefixesOf_reg _ _ _) (width_ne_byte _))
    (reads_rm (width_source x) (prefixesOf_rm _ _ _) (Or.inr (rex_or_low (Or.inr wide)))))

theorem reads_load (wide : Bool) (dst base : Reg) (disp : Word) :
    Reads decode (ofBytes (load wide dst base disp).bytes)
      ⟨.mov, [.reg (width wide) dst, .mem (width wide) (.at base disp)]⟩ :=
  reads_fieldMem rfl (entryOf_op wide rfl) (prefixesOf_operand _ _ _) disp

example :
    decode (ofBytes [0x49#8, 0x8B#8, 0x44#8, 0x24#8, 0x80#8, 0xC3#8]) =
      some (⟨.mov, [.reg .dword .rax, .mem .dword (.at .r12 (-128))]⟩, [.lit 0xC3#8]) := by
  decide

theorem reads_loadExtend (x : Extend) (dst base : Reg) (disp : Word) :
    Reads decode (ofBytes (loadExtend x dst base disp).bytes)
      ⟨x.mnemonic, [.reg x.target dst, .mem x.source (.at base disp)]⟩ := by
  rw [← width_target]
  exact reads_fieldMem (plain_extend x).1 (entryOf_extend x) (width_source x) disp

theorem reads_store (wide : Bool) (src base : Reg) (disp : Word) :
    Reads decode (ofBytes (store wide src base disp).bytes)
      ⟨.mov, [.mem (width wide) (.at base disp), .reg (width wide) src]⟩ :=
  reads_regMem rfl (entryOf_op wide rfl) (reads_pair (reads_mem (prefixesOf_operand _ _ _))
    (reads_field (prefixesOf_operand _ _ _) (prefixesOf_reg _ _ _) (width_ne_byte _)))

theorem reads_storeImm (base : Reg) (disp imm : Word) :
    Reads decode (ofBytes (storeImm base disp imm).bytes)
      ⟨.mov, [.mem .word (.at base disp), .imm (sextWord imm)]⟩ :=
  reads_extMem rfl (entryOf_op false rfl) (by decide) rfl
    (reads_cons (reads_mem (prefixesOf_operand _ _ _)) (reads_last (reads_imm rfl imm)))

theorem reads_testMemImm (base : Reg) (disp imm : Word) :
    Reads decode (ofBytes (testMemImm base disp imm).bytes)
      ⟨.test, [.mem .word (.at base disp), .imm (sextWord imm)]⟩ :=
  reads_extMem rfl (entryOf_op false rfl) (by decide) rfl
    (reads_cons (reads_mem (prefixesOf_operand _ _ _)) (reads_last (reads_imm rfl imm)))

theorem reads_imul (wide : Bool) (dst src : Reg) :
    Reads decode (ofBytes (imul wide dst src).bytes)
      ⟨.imul, [.reg (width wide) dst, .reg (width wide) src]⟩ :=
  reads_fieldRm rfl (entryOf_op0F wide rfl) dst src

theorem reads_cmov (c : Cond) (wide : Bool) (dst src : Reg) :
    Reads decode (ofBytes (cmov c wide dst src).bytes)
      ⟨.cmov c, [.reg (width wide) dst, .reg (width wide) src]⟩ :=
  reads_fieldRm rfl (entryOf_op0F wide (by cases c <;> rfl)) dst src

theorem reads_test (wide : Bool) (a b : Reg) :
    Reads decode (ofBytes (test wide a b).bytes) ⟨.test, [.reg (width wide) b, .reg (width wide) a]⟩ :=
  reads_rmField rfl (entryOf_op wide rfl) a b

theorem reads_setcc (c : Cond) (dst : Reg) :
    Reads decode (ofBytes (setcc c dst).bytes) ⟨.set c, [.reg .byte dst]⟩ := by
  show Reads decode (ofBytes ({ op0F (0x90 + c.code) false with byteRm := true }.extReg 0 dst)) _
  rw [← List.append_nil (Opcode.extReg _ _ _)]
  have entry : entryOf { op0F (0x90 + c.code) false with byteRm := true } =
      some (.whole (.set c) [.rm .byte]) := entryOf_op0F false (by cases c <;> rfl)
  exact reads_extReg rfl entry (by decide) rfl
    (reads_last (reads_rm rfl (prefixesOf_rm _ _ _) (Or.inr (rex_or_low (Or.inl rfl)))))

theorem reads_call (r : Reg) : Reads decode (ofBytes (call r).bytes) ⟨.call, [.reg .dword r]⟩ := by
  show Reads decode (ofBytes ((op 0xFF false).extReg 2 r)) _
  rw [← List.append_nil (Opcode.extReg _ _ _)]
  exact reads_extReg rfl (entryOf_op false rfl) (by decide) rfl
    (reads_last (reads_rm rfl (prefixesOf_rm _ _ _) (Or.inl (by decide))))

theorem reads_ret : Reads decode (ofBytes ret.bytes) ⟨.ret, []⟩ := fun _ => rfl

theorem reads_jcc (c : Cond) (rel : Word) :
    Reads decode (ofBytes (jcc c rel).bytes) ⟨.j c, [.rel (sextWord rel)]⟩ :=
  reads_bare rfl (entryOf_op0F false (by cases c <;> rfl)) (reads_last (reads_rel32 rel))

theorem reads_jmp (rel : Word) :
    Reads decode (ofBytes (jmp rel).bytes) ⟨.jmp, [.rel (sextWord rel)]⟩ := by
  show Reads decode (ofBytes ((op 0xE9 false).encode 0 0 ++ leBytes 4 rel.toNat)) _
  exact reads_bare rfl (entryOf_op false rfl) (reads_last (reads_rel32 rel))

/-- The bytes of an instruction are read as what it is in assembly. -/
theorem reads_assembly {i : Insn} {a : Instr} (h : i.assembly? = some a) : Reads decode i.encode a := by
  have known : ∀ {b}, i.helper? = none → Reads decode (ofBytes i.bytes) b → some b = some a →
      Reads decode i.encode a := by
    intro b hn hr hb
    cases hb
    rw [encode, hn]
    show Reads decode (ofBytes i.bytes ++ []) a
    rwa [List.append_nil]
  cases i with
  | movHelper dst helper => cases h
  | arith op wide dst src => exact known rfl (reads_arith op wide dst src) h
  | arithImm op wide dst imm => exact known rfl (reads_arithImm op wide dst imm) h
  | arithMemImm op base disp imm => exact known rfl (reads_arithMemImm op base disp imm) h
  | not wide dst => exact known rfl (reads_not wide dst) h
  | shiftImm op wide dst amount => exact known rfl (reads_shiftImm op wide dst amount) h
  | shiftCl op wide dst => exact known rfl (reads_shiftCl op wide dst) h
  | mov wide dst src => exact known rfl (reads_mov wide dst src) h
  | clear dst => exact known rfl (reads_clear dst) h
  | movImm32 dst imm => exact known rfl (reads_movImm32 dst imm) h
  | movImmSigned dst imm => exact known rfl (reads_movImmSigned dst imm) h
  | movImm64 dst imm => exact known rfl (reads_movImm64 dst imm) h
  | extend x dst src =>
    cases x with
    | zeroByte => cases h
    | signByte => exact known rfl (reads_extend (by decide) dst src) h
    | signHalf => exact known rfl (reads_extend (by decide) dst src) h
    | signWord => exact known rfl (reads_extend (by decide) dst src) h
  | load wide dst base disp => exact known rfl (reads_load wide dst base disp) h
  | loadExtend x dst base disp => exact known rfl (reads_loadExtend x dst base disp) h
  | store wide src base disp => exact known rfl (reads_store wide src base disp) h
  | storeImm base disp imm => exact known rfl (reads_storeImm base disp imm) h
  | imul wide dst src => exact known rfl (reads_imul wide dst src) h
  | setcc c dst => exact known rfl (reads_setcc c dst) h
  | cmov c wide dst src => exact known rfl (reads_cmov c wide dst src) h
  | test wide x y => exact known rfl (reads_test wide x y) h
  | testMemImm base disp imm => exact known rfl (reads_testMemImm base disp imm) h
  | push r => exact known rfl (reads_push r) h
  | pop r => exact known rfl (reads_pop r) h
  | call r => exact known rfl (reads_call r) h
  | ret => exact known rfl reads_ret h
  | jcc c rel => exact known rfl (reads_jcc c rel) h
  | jmp rel => exact known rfl (reads_jmp rel) h

/-! ## Constants -/

theorem leaves_mov {w : Width} {c v : Dword} (dst : Reg) (h : filled? c w = some v) :
    Instr.Leaves ⟨.mov, [.reg w dst, .imm c]⟩ dst v := by
  intro regs
  refine ⟨fun r => if r = dst then v else regs r, ?_, if_pos rfl, fun r ne => if_neg ne⟩
  simp [Instr.run?, Operand.value?, Mnemonic.result?, h]

/-- Exclusive or of a register with itself clears all of it. -/
theorem leaves_clear (dst : Reg) : Instr.Leaves ⟨.xor, [.reg .word dst, .reg .word dst]⟩ dst 0 := by
  intro regs
  refine ⟨fun r => if r = dst then 0 else regs r, ?_, if_pos rfl, fun r ne => if_neg ne⟩
  simp [Instr.run?, Operand.value?, Mnemonic.result?, filled?]

theorem filled?_sextWord (w : Word) : filled? (sextWord w) .word = some (w.setWidth 64) := by
  rw [filled?, setWidth_sextWord]

/-- Whichever form is emitted for a constant, it leaves the constant or its low half. -/
theorem movImm_leaves (wide : Bool) (dst : Reg) (v : Dword) :
    ∃ a, (movImm wide dst v).assembly? = some a ∧
      a.Leaves dst (if wide then v else (v.setWidth 32).setWidth 64) := by
  unfold movImm
  by_cases zero : v = 0
  · subst zero
    rw [if_pos rfl, show (if wide then (0 : Dword) else _) = 0 by cases wide <;> rfl]
    exact ⟨_, rfl, leaves_clear dst⟩
  rw [if_neg zero]
  by_cases short : (!wide || decide (v.toNat < twoPow 32)) = true
  · rw [if_pos short]
    have value : (if wide then v else (v.setWidth 32).setWidth 64) = (v.setWidth 32).setWidth 64 := by
      cases wide with
      | false => rfl
      | true =>
        have small : v.toNat < 4294967296 := by simpa using short
        apply BitVec.eq_of_toNat_eq
        simp only [if_true, BitVec.toNat_setWidth]
        omega
    rw [value]
    exact ⟨_, rfl, leaves_mov dst (filled?_sextWord _)⟩
  rw [if_neg short]
  have all : wide = true := by
    cases wide with
    | false => exact absurd rfl short
    | true => rfl
  rw [if_pos all]
  by_cases signed : (v.setWidth 32).signExtend 64 = v
  · rw [if_pos signed]
    refine ⟨_, rfl, leaves_mov dst ?_⟩
    rw [filled?, sextWord, signed]
  · rw [if_neg signed]
    exact ⟨_, rfl, leaves_mov dst rfl⟩

/-! ## Requests -/

/-- What the emitter is asked for. -/
inductive Request where
  /-- An instruction that has a name in assembly, with operands of any value. -/
  | insn (i : Insn) (named : i.assembly?.isSome)
  /-- A constant in a register, or its low half with zeros above. -/
  | constant (wide : Bool) (dst : Reg) (v : Dword)

namespace Request

def emitted : Request → Insn
  | insn i _ => i
  | constant wide dst v => .movImm wide dst v

def emit (code : List CodeByte) (q : Request) : List CodeByte := code ++ q.emitted.encode

/-- Whether an instruction is what was asked for. -/
def Asks : Request → Instr → Prop
  | insn i _, a => i.assembly? = some a
  | constant wide dst v, a => a.Leaves dst (if wide then v else (v.setWidth 32).setWidth 64)

theorem answered (q : Request) : ∃ a, q.Asks a ∧ Reads decode q.emitted.encode a := by
  cases q with
  | insn i named =>
    obtain ⟨a, h⟩ := Option.isSome_iff_exists.mp named
    exact ⟨a, h, reads_assembly h⟩
  | constant wide dst v =>
    obtain ⟨a, h, leaves⟩ := movImm_leaves wide dst v
    exact ⟨a, leaves, reads_assembly h⟩

theorem foldl_emit (code : List CodeByte) (qs : List Request) :
    qs.foldl emit code = code ++ qs.flatMap (·.emitted.encode) := by
  induction qs generalizing code with
  | nil => simp
  | cons q qs ih => simp [ih, emit]

end Request

theorem listing_append {bs rest : List CodeByte} {i : Instr} (h : Reads decode bs i) :
    listing (bs ++ rest) = (listing rest).map (i :: ·) := by
  have front := h rest
  have first : bs ≠ [] := by
    rintro rfl
    exact absurd (h []) (by simp [decode, Bind.bind, andThen, Prefixes.more, unprefixed, Entry.read, byte])
  have shorter : rest.length < (bs ++ rest).length := by
    have := List.length_pos_iff.mpr first
    simp only [List.length_append]
    omega
  rw [listing, if_neg (by simp [first]), front]
  exact if_pos shorter

/-- **Requests to the emitter.** Whatever code there is, a request appends bytes that read as one
instruction, which is what was asked for, and behind which reading goes on with what follows; and the
bytes of any number of requests in a row read as the instructions asked for, no more and no fewer. -/
theorem requests_listed (code : List CodeByte) :
    (∀ q : Request, ∃ a added, q.Asks a ∧ q.emit code = code ++ added ∧
      ∀ rest, decode (added ++ rest) = some (a, rest)) ∧
    ∀ qs : List Request, ∃ as added, List.Forall₂ Request.Asks qs as ∧
      qs.foldl Request.emit code = code ++ added ∧ listing added = some as := by
  refine ⟨fun q => ?_, fun qs => ?_⟩
  · obtain ⟨a, asks, reads⟩ := q.answered
    exact ⟨a, _, asks, rfl, reads⟩
  · suffices ∃ as, List.Forall₂ Request.Asks qs as ∧ listing (qs.flatMap (·.emitted.encode)) = some as by
      obtain ⟨as, asks, listed⟩ := this
      exact ⟨as, _, asks, Request.foldl_emit code qs, listed⟩
    induction qs with
    | nil => exact ⟨[], .nil, by rw [List.flatMap_nil, listing, if_pos rfl]⟩
    | cons q qs ih =>
      obtain ⟨a, asks, reads⟩ := q.answered
      obtain ⟨as, all, listed⟩ := ih
      refine ⟨a :: as, .cons asks all, ?_⟩
      rw [List.flatMap_cons, listing_append reads, listed]
      rfl

end EmotionEngine.Host.Assembly
