import EmotionEngine.Host.Decode

/-!
Host instructions read back from their own bytes. `Reads r bs a` says that the reader `r` takes exactly
the bytes `bs` from the front of any code and gives `a`; each way of putting readers together has a rule
of this form, so that the reader of an instruction is discharged part by part, along its bytes: prefix
and opcode (`reads_opcode`), operand byte with displacement (`reads_regOperand`, `reads_memOperand`),
immediate.

Main statement: reading the bytes of an instruction gives the instruction and what follows them
(`Insn.reads_encode`). The one form that does not read back is the extension of a byte register that cannot
be named without a prefix.
-/

namespace EmotionEngine.Host

open CodeReader
open CodeByte (ofBytes ofHelper)

theorem ofLeBytes_word (w : Word) : BitVec.ofNat 32 (ofLeBytes (leBytes 4 w.toNat)) = w := by
  rw [ofLeBytes_leBytes]
  apply BitVec.eq_of_toNat_eq
  rw [BitVec.toNat_ofNat]
  have := w.isLt
  show w.toNat % 4294967296 % 4294967296 = w.toNat
  omega

/-- The reader takes exactly these bytes, whatever follows them. -/
def Reads {α : Type} (r : CodeReader α) (bs : List CodeByte) (a : α) : Prop :=
  ∀ rest, r (bs ++ rest) = some (a, rest)

namespace Reads

theorem pure {α : Type} (a : α) : Reads (pure a : CodeReader α) [] a := fun _ => rfl

theorem ofOption {α : Type} {o : Option α} {a : α} (h : o = some a) : Reads (ofOption o) [] a := by
  intro rest
  rw [h]
  rfl

theorem bind {α β : Type} {r : CodeReader α} {f : α → CodeReader β} {bs bs' : List CodeByte} {a : α}
    {b : β} (h : Reads r bs a) (h' : Reads (f a) bs' b) : Reads (r >>= f) (bs ++ bs') b := by
  intro rest
  show andThen r f (bs ++ bs' ++ rest) = some (b, rest)
  unfold andThen
  rw [List.append_assoc, h (bs' ++ rest)]
  exact h' rest

theorem bind_nil {α β : Type} {r : CodeReader α} {f : α → CodeReader β} {bs : List CodeByte} {a : α}
    {b : β} (h : Reads r [] a) (h' : Reads (f a) bs b) : Reads (r >>= f) bs b :=
  bind h h'

theorem bind_last {α β : Type} {r : CodeReader α} {f : α → CodeReader β} {bs : List CodeByte} {a : α}
    {b : β} (h : Reads r bs a) (h' : Reads (f a) [] b) : Reads (r >>= f) bs b := by
  have := bind h h'
  rwa [List.append_nil] at this

theorem of_true {α : Type} {c : Prop} [Decidable c] {r r' : CodeReader α} {bs : List CodeByte} {a : α}
    (hc : c) (h : Reads r bs a) : Reads (if c then r else r') bs a := by
  rw [if_pos hc]
  exact h

theorem of_false {α : Type} {c : Prop} [Decidable c] {r r' : CodeReader α} {bs : List CodeByte} {a : α}
    (hc : ¬c) (h : Reads r' bs a) : Reads (if c then r else r') bs a := by
  rw [if_neg hc]
  exact h

theorem byte (b : Byte) : Reads byte [.lit b] b := fun _ => rfl

theorem word (w : Word) : Reads word (ofBytes (leBytes 4 w.toNat)) w :=
  fun rest => congrArg (fun v => some (v, rest)) (ofLeBytes_word w)

theorem shortWord {w : Word} (h : fitsByte w = true) : Reads shortWord [.lit (w.setWidth 8)] w := by
  intro rest
  have e : (w.setWidth 8).signExtend 32 = w := by simpa [fitsByte] using h
  exact congrArg (fun v => some (v, rest)) e

/-- Eight bytes are the bytes of the low half and then those of the high half. -/
theorem leBytes_eight (v : Dword) :
    leBytes 8 v.toNat =
      leBytes 4 (v.setWidth 32 : Word).toNat ++ leBytes 4 (v.extractLsb' 32 32 : Word).toNat := by
  have h := v.isLt
  have lo : (v.setWidth 32 : Word).toNat = v.toNat % 4294967296 := by simp
  have hi : (v.extractLsb' 32 32 : Word).toNat = v.toNat / 4294967296 := by
    rw [BitVec.extractLsb'_toNat, Nat.shiftRight_eq_div_pow]
    omega
  have byte : ∀ a b : Nat, a % 256 = b % 256 → BitVec.ofNat 8 a = BitVec.ofNat 8 b := by
    intro a b e
    apply BitVec.eq_of_toNat_eq
    simpa using e
  rw [lo, hi]
  simp only [leBytes, List.cons_append, List.nil_append, List.cons.injEq, and_true]
  refine ⟨?_, ?_, ?_, ?_, ?_, ?_, ?_, ?_⟩ <;> apply byte <;> omega

theorem dword (v : Dword) : Reads dword (ofBytes (leBytes 8 v.toNat)) v := by
  have e : (v.extractLsb' 32 32 : Word) ++ (v.setWidth 32 : Word) = v := by
    apply BitVec.eq_of_getLsbD_eq
    intro i hi
    rw [BitVec.getLsbD_append]
    by_cases h : i < 32
    · simp [h]
    · have h' : i - 32 < 32 := by omega
      simp [h, h', Nat.add_sub_cancel' (Nat.le_of_not_lt h)]
  rw [leBytes_eight, ofBytes, List.map_append]
  refine bind (word _) (bind_last (word _) ?_)
  rw [e]
  exact pure v

theorem helper (h : Helper) : Reads helper (ofHelper h) h := by
  intro rest
  simp [CodeReader.helper, ofHelper]

end Reads

/-! ## Operands -/

/-- Two bits of mode and two fields of three bits. -/
theorem toNat_operandByte :
    ∀ m : Fin 4, ∀ r rm : Fin 8,
      (operandByte (BitVec.ofNat 8 (64 * m.val)) r.val rm.val).toNat = 64 * m.val + 8 * r.val + rm.val := by
  decide

theorem Reg.low3_lt (r : Reg) : r.low3 < 8 := Nat.mod_lt _ (by decide)

theorem regOf_low3 (r : Reg) : regOf (decide (8 ≤ r.index)) r.low3 = some r := by
  cases r <;> rfl

theorem operandByte_fields {m r rm : Nat} (hm : m < 4) (hr : r < 8) (hrm : rm < 8) :
    (operandByte (BitVec.ofNat 8 (64 * m)) r rm).toNat / 64 = m ∧
    (operandByte (BitVec.ofNat 8 (64 * m)) r rm).toNat / 8 % 8 = r ∧
    (operandByte (BitVec.ofNat 8 (64 * m)) r rm).toNat % 8 = rm := by
  have e := toNat_operandByte ⟨m, hm⟩ ⟨r, hr⟩ ⟨rm, hrm⟩
  simp only at e
  rw [e]
  omega

/-- The operand byte that names a register. -/
theorem reads_regOperand {rex : Rex} {ext : Nat} (rm : Reg) (he : ext < 8)
    (hrm : rex.rm = decide (8 ≤ rm.index)) :
    Reads (operands rex) (ofBytes [operandByte 0xC0#8 ext rm.low3]) (ext, .reg rm) := by
  obtain ⟨h1, h2, h3⟩ := operandByte_fields (m := 3) (by decide) he rm.low3_lt
  change (operandByte 0xC0#8 ext rm.low3).toNat / 64 = 3 at h1
  change (operandByte 0xC0#8 ext rm.low3).toNat / 8 % 8 = ext at h2
  change (operandByte 0xC0#8 ext rm.low3).toNat % 8 = rm.low3 at h3
  refine Reads.bind_last (Reads.byte _) ?_
  dsimp only
  rw [h1, h2, h3, hrm]
  exact Reads.of_true rfl (Reads.bind_nil (Reads.ofOption (regOf_low3 rm)) (Reads.pure _))

theorem reads_baseOf (low : Nat) :
    Reads (baseOf low) (ofBytes (if low = 4 then [0x24#8] else [])) low := by
  by_cases h : low = 4
  · subst h
    refine Reads.of_true rfl (Reads.bind_last (Reads.byte _) ?_)
    exact Reads.of_true rfl (Reads.pure _)
  · rw [if_neg h]
    exact Reads.of_false h (Reads.pure _)

theorem reads_memMode {rex : Rex} {m ext : Nat} {base : Reg} {disp : Word} {bs : List CodeByte}
    (hm : m < 3) (he : ext < 8) (hrm : rex.rm = decide (8 ≤ base.index))
    (hd : Reads (dispOf m base.low3) bs disp) :
    Reads (operands rex)
      (.lit (operandByte (BitVec.ofNat 8 (64 * m)) ext base.low3) ::
        (ofBytes (if base.low3 = 4 then [0x24#8] else []) ++ bs)) (ext, .mem base disp) := by
  obtain ⟨h1, h2, h3⟩ := operandByte_fields (m := m) (by omega) he base.low3_lt
  refine Reads.bind (Reads.byte _) ?_
  dsimp only
  rw [h1, h2, h3, hrm]
  refine Reads.of_false (by omega) (Reads.bind (reads_baseOf _) (Reads.bind_last hd ?_))
  exact Reads.bind_nil (Reads.ofOption (regOf_low3 base)) (Reads.pure _)

/-- The bytes of a memory operand. -/
theorem reads_memOperand {rex : Rex} {ext : Nat} (base : Reg) (disp : Word) (he : ext < 8)
    (hrm : rex.rm = decide (8 ≤ base.index)) :
    Reads (operands rex) (ofBytes (memOperand ext base disp)) (ext, .mem base disp) := by
  unfold memOperand
  dsimp only
  by_cases h0 : disp = 0 ∧ base.low3 ≠ 5
  · rw [if_pos h0, h0.1]
    have hd : Reads (dispOf 0 base.low3) [] 0 :=
      Reads.of_false (by decide) (Reads.of_false (by decide) (Reads.of_false h0.2 (Reads.pure _)))
    have := reads_memMode (m := 0) (by decide) he hrm hd
    rwa [List.append_nil] at this
  rw [if_neg h0]
  by_cases h1 : fitsByte disp
  · rw [if_pos h1]
    have hd : Reads (dispOf 1 base.low3) [.lit (disp.setWidth 8)] disp :=
      Reads.of_true rfl (Reads.shortWord h1)
    have := reads_memMode (m := 1) (by decide) he hrm hd
    simpa [ofBytes] using this
  · rw [if_neg h1]
    have hd : Reads (dispOf 2 base.low3) (ofBytes (leBytes 4 disp.toNat)) disp :=
      Reads.of_false (by decide) (Reads.of_true rfl (Reads.word disp))
    have := reads_memMode (m := 2) (by decide) he hrm hd
    simpa [ofBytes] using this

/-! ## Prefix and opcode -/

namespace Opcode

/-- The prefix as the reader sees it. -/
def rexOf (op : Opcode) (r rm : Nat) : Rex :=
  if rexBits op.wide r rm ≠ 0 ∨ op.forcesRex r rm then
    { present := true, wide := op.wide, reg := decide (8 ≤ r), rm := decide (8 ≤ rm) }
  else {}

theorem rexOf_fields (op : Opcode) (r rm : Nat) :
    (op.rexOf r rm).wide = op.wide ∧ (op.rexOf r rm).reg = decide (8 ≤ r) ∧
      (op.rexOf r rm).rm = decide (8 ≤ rm) := by
  unfold rexOf
  split
  · exact ⟨rfl, rfl, rfl⟩
  · next plain =>
    -- Without a prefix there is no bit for it to carry.
    have zero : rexBits op.wide r rm = 0 := Decidable.not_not.1 fun bits => plain (.inl bits)
    revert zero
    unfold rexBits
    cases op.wide <;> by_cases h : 8 ≤ r <;> by_cases h' : 8 ≤ rm <;> simp [h, h']

@[simp] theorem rexOf_wide (op : Opcode) (r rm : Nat) : (op.rexOf r rm).wide = op.wide :=
  (op.rexOf_fields r rm).1

@[simp] theorem rexOf_reg (op : Opcode) (r rm : Nat) : (op.rexOf r rm).reg = decide (8 ≤ r) :=
  (op.rexOf_fields r rm).2.1

@[simp] theorem rexOf_rm (op : Opcode) (r rm : Nat) : (op.rexOf r rm).rm = decide (8 ≤ rm) :=
  (op.rexOf_fields r rm).2.2

theorem ofByte?_rex (op : Opcode) (r rm : Nat) :
    Rex.ofByte? (0x40#8 ||| rexBits op.wide r rm) =
      some { present := true, wide := op.wide, reg := decide (8 ≤ r), rm := decide (8 ≤ rm) } := by
  unfold rexBits
  cases op.wide <;> by_cases h : 8 ≤ r <;> by_cases h' : 8 ≤ rm <;> simp [h, h'] <;> rfl

end Opcode

/-- An opcode that stands without escape byte must be none and no prefix. -/
def Opcode.Plain (op : Opcode) : Prop :=
  op.data16 = false ∧ (op.escape = false → op.byte ≠ 0x0F#8 ∧ Rex.ofByte? op.byte = none)

/-- Prefixes and opcode, when what follows is read as the opcode says. -/
theorem reads_opcode {op : Opcode} {r rm : Nat} {bs : List CodeByte} {i : Insn} (hp : op.Plain)
    (h : Reads (if op.escape then escaped (op.rexOf r rm) op.byte.toNat
      else plain (op.rexOf r rm) op.byte.toNat) bs i) :
    Reads Insn.decode? (ofBytes (op.encode r rm) ++ bs) i := by
  obtain ⟨h16, hb⟩ := hp
  -- The opcode itself, with or without the escape byte.
  have code : Reads (byte >>= opcode (op.rexOf r rm))
      (ofBytes ((if op.escape then [0x0F#8] else []) ++ [op.byte]) ++ bs) i := by
    cases he : op.escape with
    | true =>
      rw [he, if_pos rfl] at h
      show Reads _ ([.lit 0x0F#8] ++ ([.lit op.byte] ++ bs)) i
      exact Reads.bind (Reads.byte 0x0F#8) (Reads.of_true rfl (Reads.bind (Reads.byte op.byte) h))
    | false =>
      rw [he, if_neg Bool.false_ne_true] at h
      exact Reads.bind (Reads.byte op.byte) (Reads.of_false (hb he).1 h)
  unfold Opcode.encode Opcode.rex
  dsimp only
  rw [h16]
  by_cases hr : rexBits op.wide r rm ≠ 0 ∨ op.forcesRex r rm
  · rw [if_pos hr]
    have first : startingWith (0x40#8 ||| rexBits op.wide r rm) =
        (byte >>= opcode (op.rexOf r rm)) := by
      unfold startingWith
      rw [op.ofByte?_rex r rm, Opcode.rexOf, if_pos hr]
    have := Reads.bind (r := byte) (f := startingWith) (Reads.byte (0x40#8 ||| rexBits op.wide r rm))
      (by rw [first]; exact code)
    simpa [Insn.decode?, ofBytes] using this
  · rw [if_neg hr]
    have none : op.rexOf r rm = {} := by rw [Opcode.rexOf, if_neg hr]
    have first : ∀ (b : Byte) (code : List CodeByte), Rex.ofByte? b = Option.none →
        Insn.decode? (.lit b :: code) = (byte >>= opcode (op.rexOf r rm)) (.lit b :: code) := by
      intro b code e
      show startingWith b code = opcode (op.rexOf r rm) b code
      unfold startingWith
      rw [e, none]
    -- Without a prefix the first byte is the escape byte or the opcode.
    intro rest
    have c := code rest
    cases he : op.escape with
    | true =>
      rw [he] at c
      exact (first 0x0F#8 _ rfl).trans c
    | false =>
      rw [he] at c
      exact (first op.byte _ (hb he).2).trans c

/-- The reader of what follows prefixes and opcode. -/
def Opcode.body (op : Opcode) (r rm : Nat) : CodeReader Insn :=
  if op.escape then escaped (op.rexOf r rm) op.byte.toNat else plain (op.rexOf r rm) op.byte.toNat

/-! ## Forms -/

theorem reads_regs {op : Opcode} (r rm : Reg) :
    Reads (regOperand (op.rexOf r.index rm.index)) (ofBytes [operandByte 0xC0#8 r.low3 rm.low3])
      (r, .reg rm) := by
  refine Reads.bind_last (reads_regOperand rm r.low3_lt (op.rexOf_rm _ _)) ?_
  dsimp only
  rw [op.rexOf_reg]
  exact Reads.bind_nil (Reads.ofOption (regOf_low3 r)) (Reads.pure _)

theorem reads_regMemory {op : Opcode} (r base : Reg) (disp : Word) :
    Reads (regOperand (op.rexOf r.index base.index)) (ofBytes (memOperand r.low3 base disp))
      (r, .mem base disp) := by
  refine Reads.bind_last (reads_memOperand base disp r.low3_lt (op.rexOf_rm _ _)) ?_
  dsimp only
  rw [op.rexOf_reg]
  exact Reads.bind_nil (Reads.ofOption (regOf_low3 r)) (Reads.pure _)

theorem reads_regReg {op : Opcode} (hp : op.Plain) {r rm : Reg} {i : Insn}
    {make : Reg → Reg → Option Insn}
    (hb : op.body r.index rm.index = onRegs (op.rexOf r.index rm.index) make)
    (hm : make r rm = some i) : Reads Insn.decode? (ofBytes (op.regReg r rm)) i := by
  rw [Opcode.regReg, ofBytes, List.map_append]
  refine reads_opcode hp ?_
  change Reads (op.body r.index rm.index) _ i
  rw [hb]
  exact Reads.bind_last (reads_regs r rm) (Reads.ofOption hm)

/-- An instruction on a register and an operand that is a register. -/
theorem reads_regReg_operand {op : Opcode} (hp : op.Plain) {r rm : Reg} {i : Insn}
    {reg : Reg → Reg → Option Insn} {mem : Reg → Reg → Word → Option Insn}
    (hb : op.body r.index rm.index = onOperand (op.rexOf r.index rm.index) reg mem)
    (hm : reg r rm = some i) : Reads Insn.decode? (ofBytes (op.regReg r rm)) i := by
  rw [Opcode.regReg, ofBytes, List.map_append]
  refine reads_opcode hp ?_
  change Reads (op.body r.index rm.index) _ i
  rw [hb]
  exact Reads.bind_last (reads_regs r rm) (Reads.ofOption hm)

theorem reads_regMem {op : Opcode} (hp : op.Plain) {r base : Reg} {disp : Word} {i : Insn}
    {reg : Reg → Reg → Option Insn} {mem : Reg → Reg → Word → Option Insn}
    (hb : op.body r.index base.index = onOperand (op.rexOf r.index base.index) reg mem)
    (hm : mem r base disp = some i) : Reads Insn.decode? (ofBytes (op.regMem r base disp)) i := by
  rw [Opcode.regMem, ofBytes, List.map_append]
  refine reads_opcode hp ?_
  change Reads (op.body r.index base.index) _ i
  rw [hb]
  exact Reads.bind_last (reads_regMemory r base disp) (Reads.ofOption hm)

/-- An instruction on one register whose opcode goes on in the register field. -/
theorem reads_extReg {op : Opcode} (hp : op.Plain) {ext : Nat} (he : ext < 8) {rm : Reg} {i : Insn}
    {bs : List Byte} {f : Nat × Operand → CodeReader Insn}
    (hb : op.body ext rm.index = (operands (op.rexOf ext rm.index) >>= f))
    (hf : Reads (f (ext, .reg rm)) (ofBytes bs) i) :
    Reads Insn.decode? (ofBytes (op.extReg ext rm ++ bs)) i := by
  rw [Opcode.extReg, ofBytes, List.append_assoc, List.map_append]
  refine reads_opcode hp ?_
  change Reads (op.body ext rm.index) _ i
  rw [hb, List.map_append]
  exact Reads.bind (reads_regOperand rm he (op.rexOf_rm _ _)) hf

/-- An instruction on memory whose opcode goes on in the register field. -/
theorem reads_extMem {op : Opcode} (hp : op.Plain) {ext : Nat} (he : ext < 8) {base : Reg} {disp : Word}
    {i : Insn} {bs : List Byte} {f : Nat × Operand → CodeReader Insn}
    (hb : op.body ext base.index = (operands (op.rexOf ext base.index) >>= f))
    (hf : Reads (f (ext, .mem base disp)) (ofBytes bs) i) :
    Reads Insn.decode? (ofBytes (op.extMem ext base disp ++ bs)) i := by
  rw [Opcode.extMem, ofBytes, List.append_assoc, List.map_append]
  refine reads_opcode hp ?_
  change Reads (op.body ext base.index) _ i
  rw [hb, List.map_append]
  exact Reads.bind (reads_memOperand base disp he (op.rexOf_rm _ _)) hf

theorem plain_op {n : Nat} (h : BitVec.ofNat 8 n ≠ 0x0F#8 ∧ Rex.ofByte? (BitVec.ofNat 8 n) = none)
    (wide : Bool) : (Insn.op n wide).Plain := ⟨rfl, fun _ => h⟩

theorem plain_op0F (n : Nat) (wide : Bool) : (Insn.op0F n wide).Plain := ⟨rfl, fun h => by cases h⟩

theorem ArithOp.code_lt (o : ArithOp) : o.code < 8 := by cases o <;> decide

theorem ShiftOp.code_lt (o : ShiftOp) : o.code < 8 := by cases o <;> decide

/-! ## Opcodes -/

theorem plain_arith (rex : Rex) (o : ArithOp) :
    plain rex (0x03 + 8 * o.code) = onRegs rex (fun r rm => some (.arith o rex.wide r rm)) := by
  cases o <;> rfl

theorem plain_0x31 (rex : Rex) :
    plain rex 0x31 =
      onRegs rex (fun r rm => if r = rm ∧ rex.wide = false then some (.clear r) else none) := rfl

theorem plain_0x85 (rex : Rex) :
    plain rex 0x85 = onRegs rex (fun r rm => some (.test rex.wide r rm)) := rfl

theorem plain_0x89 (rex : Rex) :
    plain rex 0x89 =
      onOperand rex (fun r rm => some (.mov rex.wide rm r))
        (fun r base disp => some (.store rex.wide r base disp)) := rfl

theorem plain_0x8B (rex : Rex) :
    plain rex 0x8B =
      onOperand rex (fun r rm => some (.mov rex.wide r rm))
        (fun r base disp => some (.load rex.wide r base disp)) := rfl

theorem escaped_0xAF (rex : Rex) :
    escaped rex 0xAF = onRegs rex (fun r rm => some (.imul rex.wide r rm)) := rfl

theorem plain_constant (rex : Rex) (r : Reg) : plain rex (0xB8 + r.low3) = onConstant rex r.low3 := by
  cases r <;> rfl

theorem plain_push (rex : Rex) (r : Reg) :
    plain rex (0x50 + r.low3) = ofOption ((regOf rex.rm r.low3).map Insn.push) := by
  cases r <;> rfl

theorem plain_pop (rex : Rex) (r : Reg) :
    plain rex (0x58 + r.low3) = ofOption ((regOf rex.rm r.low3).map Insn.pop) := by
  cases r <;> rfl

theorem escaped_cmov (rex : Rex) (c : Cond) :
    escaped rex (0x40 + c.code) = onRegs rex (fun r rm => some (.cmov c rex.wide r rm)) := by
  cases c <;> rfl

theorem escaped_jcc (rex : Rex) (c : Cond) :
    escaped rex (0x80 + c.code) = (word >>= fun rel => pure (.jcc c rel)) := by
  cases c <;> rfl

theorem escaped_setcc (rex : Rex) (c : Cond) :
    escaped rex (0x90 + c.code) =
      onRegs rex
        (fun r rm => if r.low3 = 0 ∧ namesLowByte rex rm then some (.setcc c rm) else none) := by
  cases c <;> rfl

theorem body_plain {op : Opcode} {n : Nat} (he : op.escape = false) (hn : op.byte.toNat = n)
    (r rm : Nat) : op.body r rm = plain (op.rexOf r rm) n := by
  unfold Opcode.body
  rw [he, hn]
  exact if_neg Bool.false_ne_true

/-- What follows an opcode of known number after the escape byte. -/
theorem body_escaped {op : Opcode} {n : Nat} (he : op.escape = true) (hn : op.byte.toNat = n)
    (r rm : Nat) : op.body r rm = escaped (op.rexOf r rm) n := by
  unfold Opcode.body
  rw [he, hn]
  exact if_pos rfl

namespace Insn

theorem reads_arith (o : ArithOp) (wide : Bool) (dst src : Reg) :
    Reads decode? (ofBytes (arith o wide dst src).bytes) (arith o wide dst src) := by
  have hp : (op (0x03 + 8 * o.code) wide).Plain := by cases o <;> exact plain_op (by decide) wide
  have code : (op (0x03 + 8 * o.code) wide).byte.toNat = 0x03 + 8 * o.code := by cases o <;> rfl
  refine reads_regReg hp ((body_plain rfl code _ _).trans (plain_arith _ o)) ?_
  rw [Opcode.rexOf_wide]
  rfl

theorem reads_arithImm (o : ArithOp) (wide : Bool) (dst : Reg) (imm : Word) :
    Reads decode? (ofBytes (arithImm o wide dst imm).bytes) (arithImm o wide dst imm) := by
  have last : ∀ n, Reads (ofOption (ArithOp.ofCode? o.code) >>= fun o' =>
      (pure (arithImm o' ((op n wide).rexOf o.code dst.index).wide dst imm) : CodeReader Insn)) []
      (arithImm o wide dst imm) := by
    intro n
    rw [o.ofCode?_code]
    refine Reads.bind_nil (Reads.ofOption rfl) ?_
    rw [Opcode.rexOf_wide]
    exact Reads.pure _
  show Reads decode? (ofBytes ((arithImmForm wide imm).1.extReg o.code dst ++ (arithImmForm wide imm).2)) _
  unfold arithImmForm
  by_cases h : fitsByte imm
  · rw [if_pos h]
    exact reads_extReg (plain_op (by decide) wide) o.code_lt (body_plain rfl rfl _ _)
      (Reads.bind_last (Reads.shortWord h) (last 0x83))
  · rw [if_neg h]
    exact reads_extReg (plain_op (by decide) wide) o.code_lt (body_plain rfl rfl _ _)
      (Reads.bind_last (Reads.word imm) (last 0x81))

theorem reads_arithMemImm (o : ArithOp) (base : Reg) (disp imm : Word) :
    Reads decode? (ofBytes (arithMemImm o base disp imm).bytes) (arithMemImm o base disp imm) := by
  have last : ∀ n, Reads (ofOption (ArithOp.ofCode? o.code) >>= fun o' =>
      (if ((op n false).rexOf o.code base.index).wide then refuse
        else pure (arithMemImm o' base disp imm) : CodeReader Insn)) []
      (arithMemImm o base disp imm) := by
    intro n
    rw [o.ofCode?_code]
    refine Reads.bind_nil (Reads.ofOption rfl) (Reads.of_false ?_ (Reads.pure _))
    rw [Opcode.rexOf_wide]
    exact Bool.false_ne_true
  show Reads decode?
    (ofBytes ((arithImmForm false imm).1.extMem o.code base disp ++ (arithImmForm false imm).2)) _
  unfold arithImmForm
  by_cases h : fitsByte imm
  · rw [if_pos h]
    exact reads_extMem (plain_op (by decide) false) o.code_lt (body_plain rfl rfl _ _)
      (Reads.bind_last (Reads.shortWord h) (last 0x83))
  · rw [if_neg h]
    exact reads_extMem (plain_op (by decide) false) o.code_lt (body_plain rfl rfl _ _)
      (Reads.bind_last (Reads.word imm) (last 0x81))

theorem reads_not (wide : Bool) (dst : Reg) :
    Reads decode? (ofBytes (not wide dst).bytes) (not wide dst) := by
  show Reads decode? (ofBytes ((op 0xF7 wide).extReg 2 dst)) _
  rw [← List.append_nil (Opcode.extReg _ _ _)]
  refine reads_extReg (plain_op (by decide) wide) (by decide) (body_plain rfl rfl _ _) ?_
  dsimp only
  rw [Opcode.rexOf_wide]
  exact Reads.pure _

theorem reads_shiftImm (o : ShiftOp) (wide : Bool) (dst : Reg) (amount : Byte) :
    Reads decode? (ofBytes (shiftImm o wide dst amount).bytes) (shiftImm o wide dst amount) := by
  have last : ∀ n, Reads (ofOption (ShiftOp.ofCode? o.code) >>= fun o' =>
      (pure (shiftImm o' ((op n wide).rexOf o.code dst.index).wide dst amount) : CodeReader Insn)) []
      (shiftImm o wide dst amount) := by
    intro n
    rw [o.ofCode?_code]
    refine Reads.bind_nil (Reads.ofOption rfl) ?_
    rw [Opcode.rexOf_wide]
    exact Reads.pure _
  show Reads decode? (ofBytes (if amount = 1 then (op 0xD1 wide).extReg o.code dst
    else (op 0xC1 wide).extReg o.code dst ++ [amount])) _
  by_cases h : amount = 1
  · subst h
    rw [if_pos rfl, ← List.append_nil (Opcode.extReg _ _ _)]
    exact reads_extReg (plain_op (by decide) wide) o.code_lt (body_plain rfl rfl _ _)
      (Reads.bind_nil (Reads.pure 1) (last 0xD1))
  · rw [if_neg h]
    exact reads_extReg (plain_op (by decide) wide) o.code_lt (body_plain rfl rfl _ _)
      (Reads.bind_last (Reads.byte amount) (last 0xC1))

theorem reads_shiftCl (o : ShiftOp) (wide : Bool) (dst : Reg) :
    Reads decode? (ofBytes (shiftCl o wide dst).bytes) (shiftCl o wide dst) := by
  have last : Reads (ofOption (ShiftOp.ofCode? o.code) >>= fun o' =>
      (pure (shiftCl o' ((op 0xD3 wide).rexOf o.code dst.index).wide dst) : CodeReader Insn)) []
      (shiftCl o wide dst) := by
    rw [o.ofCode?_code]
    refine Reads.bind_nil (Reads.ofOption rfl) ?_
    rw [Opcode.rexOf_wide]
    exact Reads.pure _
  show Reads decode? (ofBytes ((op 0xD3 wide).extReg o.code dst)) _
  rw [← List.append_nil (Opcode.extReg _ _ _)]
  exact reads_extReg (plain_op (by decide) wide) o.code_lt (body_plain rfl rfl _ _) last

theorem reads_mov (wide : Bool) (dst src : Reg) :
    Reads decode? (ofBytes (mov wide dst src).bytes) (mov wide dst src) := by
  refine reads_regReg_operand (plain_op (by decide) wide) (plain_0x89 _) ?_
  rw [Opcode.rexOf_wide]
  rfl

theorem reads_clear (dst : Reg) : Reads decode? (ofBytes (clear dst).bytes) (clear dst) := by
  refine reads_regReg (plain_op (by decide) false) (plain_0x31 _) ?_
  exact if_pos ⟨rfl, Opcode.rexOf_wide _ _ _⟩

/-- An opcode that names its register, when what follows is read as the number of the opcode says. -/
theorem reads_plusReg {n : Nat} (hn : n ∈ [0x50, 0x58, 0xB8]) {wide : Bool} {r : Reg}
    {bs : List CodeByte} {i : Insn}
    (h : ∀ rex : Rex, rex.wide = wide → rex.rm = decide (8 ≤ r.index) →
      Reads (plain rex (n + r.low3)) bs i) :
    Reads decode? (ofBytes ((op n wide).plusReg r) ++ bs) i := by
  have byte : BitVec.ofNat 8 n + BitVec.ofNat 8 r.low3 ≠ 0x0F#8 ∧
      Rex.ofByte? (BitVec.ofNat 8 n + BitVec.ofNat 8 r.low3) = none ∧
      (BitVec.ofNat 8 n + BitVec.ofNat 8 r.low3).toNat = n + r.low3 := by
    revert n r
    intro n hn r _
    simp only [List.mem_cons, List.not_mem_nil, or_false] at hn
    rcases hn with rfl | rfl | rfl <;> cases r <;> decide
  refine reads_opcode ⟨rfl, fun _ => ⟨byte.1, byte.2.1⟩⟩ ?_
  show Reads (plain _ (BitVec.ofNat 8 n + BitVec.ofNat 8 r.low3).toNat) bs i
  rw [byte.2.2]
  exact h _ (Opcode.rexOf_wide _ _ _) (Opcode.rexOf_rm _ _ _)

theorem reads_constant {wide : Bool} {r : Reg} {bs : List CodeByte} {i : Insn}
    (h : Reads (if wide then onWideConstant r else word >>= fun v => pure (movImm32 r v)) bs i) :
    Reads decode? (ofBytes ((op 0xB8 wide).plusReg r) ++ bs) i := by
  refine reads_plusReg (by decide) fun rex hw hrm => ?_
  rw [plain_constant, onConstant, hrm, hw]
  exact Reads.bind_nil (Reads.ofOption (regOf_low3 r)) h

theorem reads_movImm32 (dst : Reg) (imm : Word) :
    Reads decode? (ofBytes (movImm32 dst imm).bytes) (movImm32 dst imm) := by
  show Reads decode? (ofBytes ((op 0xB8 false).plusReg dst ++ leBytes 4 imm.toNat)) _
  rw [ofBytes, List.map_append]
  exact reads_constant (Reads.of_false Bool.false_ne_true (Reads.bind_last (Reads.word imm) (Reads.pure _)))

theorem reads_movImmSigned (dst : Reg) (imm : Word) :
    Reads decode? (ofBytes (movImmSigned dst imm).bytes) (movImmSigned dst imm) := by
  refine reads_extReg (plain_op (by decide) true) (by decide) (body_plain rfl rfl _ _) ?_
  refine Reads.bind_last (Reads.word imm) ?_
  simp only [Opcode.rexOf_wide]
  exact Reads.pure _

theorem reads_movImm64 (dst : Reg) (imm : Dword) :
    Reads decode? (ofBytes (movImm64 dst imm).bytes) (movImm64 dst imm) := by
  show Reads decode? (ofBytes ((op 0xB8 true).plusReg dst ++ leBytes 8 imm.toNat)) _
  rw [ofBytes, List.map_append]
  refine reads_constant (Reads.of_true rfl ?_)
  -- The first byte is known, so it does not start the address of a helper.
  intro rest
  exact (Reads.bind_last (Reads.dword imm) (Reads.pure (movImm64 dst imm))) rest

theorem reads_movHelper (dst : Reg) (h : Helper) :
    Reads decode? (movHelper dst h).encode (movHelper dst h) := by
  have wide : Reads (onWideConstant dst) (ofHelper h) (movHelper dst h) := by
    intro rest
    unfold onWideConstant
    rw [Reads.helper h rest]
  exact reads_constant (Reads.of_true rfl wide)

theorem reads_push (r : Reg) : Reads decode? (ofBytes (push r).bytes) (push r) := by
  show Reads decode? (ofBytes ((op 0x50 false).plusReg r)) _
  rw [← List.append_nil (ofBytes _)]
  refine reads_plusReg (by decide) fun rex _ hrm => ?_
  rw [plain_push, hrm]
  exact Reads.ofOption (congrArg (Option.map push) (regOf_low3 r))

theorem reads_pop (r : Reg) : Reads decode? (ofBytes (pop r).bytes) (pop r) := by
  show Reads decode? (ofBytes ((op 0x58 false).plusReg r)) _
  rw [← List.append_nil (ofBytes _)]
  refine reads_plusReg (by decide) fun rex _ hrm => ?_
  rw [plain_pop, hrm]
  exact Reads.ofOption (congrArg (Option.map pop) (regOf_low3 r))

theorem reads_load (wide : Bool) (dst base : Reg) (disp : Word) :
    Reads decode? (ofBytes (load wide dst base disp).bytes) (load wide dst base disp) := by
  refine reads_regMem (plain_op (by decide) wide) (plain_0x8B _) ?_
  rw [Opcode.rexOf_wide]
  rfl

theorem reads_store (wide : Bool) (src base : Reg) (disp : Word) :
    Reads decode? (ofBytes (store wide src base disp).bytes) (store wide src base disp) := by
  refine reads_regMem (plain_op (by decide) wide) (plain_0x89 _) ?_
  rw [Opcode.rexOf_wide]
  rfl

theorem reads_storeImm (base : Reg) (disp imm : Word) :
    Reads decode? (ofBytes (storeImm base disp imm).bytes) (storeImm base disp imm) := by
  refine reads_extMem (plain_op (by decide) false) (by decide) (body_plain rfl rfl _ _) ?_
  refine Reads.bind_last (Reads.word imm) ?_
  simp only [Opcode.rexOf_wide]
  exact Reads.pure _

theorem reads_testMemImm (base : Reg) (disp imm : Word) :
    Reads decode? (ofBytes (testMemImm base disp imm).bytes) (testMemImm base disp imm) := by
  refine reads_extMem (plain_op (by decide) false) (by decide) (body_plain rfl rfl _ _) ?_
  simp only [Opcode.rexOf_wide]
  exact Reads.bind_last (Reads.word imm) (Reads.pure _)

theorem reads_imul (wide : Bool) (dst src : Reg) :
    Reads decode? (ofBytes (imul wide dst src).bytes) (imul wide dst src) := by
  refine reads_regReg (plain_op0F _ wide) ((body_escaped rfl rfl _ _).trans (escaped_0xAF _)) ?_
  rw [Opcode.rexOf_wide]
  rfl

theorem reads_test (wide : Bool) (a b : Reg) :
    Reads decode? (ofBytes (test wide a b).bytes) (test wide a b) := by
  refine reads_regReg (plain_op (by decide) wide) (plain_0x85 _) ?_
  rw [Opcode.rexOf_wide]
  rfl

theorem reads_cmov (c : Cond) (wide : Bool) (dst src : Reg) :
    Reads decode? (ofBytes (cmov c wide dst src).bytes) (cmov c wide dst src) := by
  have code : (op0F (0x40 + c.code) wide).byte.toNat = 0x40 + c.code := by cases c <;> rfl
  refine reads_regReg (plain_op0F _ wide) ((body_escaped rfl code _ _).trans (escaped_cmov _ c)) ?_
  rw [Opcode.rexOf_wide]
  rfl

theorem reads_call (r : Reg) : Reads decode? (ofBytes (call r).bytes) (call r) := by
  show Reads decode? (ofBytes ((op 0xFF false).extReg 2 r)) _
  rw [← List.append_nil (Opcode.extReg _ _ _)]
  exact reads_extReg (plain_op (by decide) false) (by decide) (body_plain rfl rfl _ _) (Reads.pure _)

theorem reads_ret : Reads decode? (ofBytes ret.bytes) ret := fun _ => rfl

theorem reads_jmp (rel : Word) : Reads decode? (ofBytes (jmp rel).bytes) (jmp rel) := by
  show Reads decode? (ofBytes ((op 0xE9 false).encode 0 0) ++ ofBytes (leBytes 4 rel.toNat)) _
  refine reads_opcode (plain_op (by decide) false) ?_
  exact Reads.bind_last (Reads.word rel) (Reads.pure _)

theorem reads_jcc (c : Cond) (rel : Word) :
    Reads decode? (ofBytes (jcc c rel).bytes) (jcc c rel) := by
  have code : (op0F (0x80 + c.code) false).byte.toNat = 0x80 + c.code := by cases c <;> rfl
  show Reads decode? (ofBytes ((op0F (0x80 + c.code) false).encode 0 0 ++ leBytes 4 rel.toNat)) _
  rw [ofBytes, List.map_append]
  refine reads_opcode (plain_op0F _ false) ?_
  show Reads (escaped _ (op0F (0x80 + c.code) false).byte.toNat) _ _
  rw [code, escaped_jcc]
  exact Reads.bind_last (Reads.word rel) (Reads.pure _)

/-- A byte register that is named is the low byte: where it needs a prefix, one is there. -/
theorem namesLowByte_rexOf {o : Opcode} {r : Nat} {rm : Reg}
    (h : o.byteRm = true ∨ o.wide = true ∨ rm.index < 4 ∨ 8 ≤ rm.index ∨ 8 ≤ r) :
    namesLowByte (o.rexOf r rm.index) rm = true := by
  unfold namesLowByte Opcode.rexOf Opcode.forcesRex rexBits
  by_cases h4 : rm.index < 4
  · simp [h4]
  · have h4' : 4 ≤ rm.index := by omega
    rcases h with h | h | h | h | h
    · simp [h, h4']
    · simp only [h, if_true]
      by_cases h1 : 8 ≤ r <;> by_cases h2 : 8 ≤ rm.index <;> simp [h1, h2]
    · exact absurd h h4
    · simp only [h, if_true]
      cases o.wide <;> by_cases h1 : 8 ≤ r <;> simp [h1]
    · simp only [h, if_true]
      cases o.wide <;> by_cases h1 : 8 ≤ rm.index <;> simp [h1]

theorem reads_setcc (c : Cond) (dst : Reg) : Reads decode? (ofBytes (setcc c dst).bytes) (setcc c dst) := by
  have code : (op0F (0x90 + c.code) false).byte.toNat = 0x90 + c.code := by cases c <;> rfl
  -- The register field is not used; its zero reads as the first register.
  show Reads decode? (ofBytes ({ op0F (0x90 + c.code) false with byteRm := true }.regReg .rax dst)) _
  generalize ho : ({ op0F (0x90 + c.code) false with byteRm := true } : Opcode) = o
  have he : o.escape = true := by rw [← ho]; rfl
  have hb : o.byte.toNat = 0x90 + c.code := by rw [← ho]; exact code
  have hr : o.byteRm = true := by rw [← ho]
  have hp : o.Plain := ⟨by rw [← ho]; rfl, fun h => by rw [he] at h; cases h⟩
  refine reads_regReg hp ((body_escaped he hb _ _).trans (escaped_setcc _ c)) ?_
  exact if_pos ⟨rfl, namesLowByte_rexOf (Or.inl hr)⟩

theorem body_extend (x : Extend) (r rm : Nat) :
    x.opcode.body r rm =
      onOperand (x.opcode.rexOf r rm)
        (fun r' rm' =>
          if x = .signHalf ∨ x = .signWord ∨ namesLowByte (x.opcode.rexOf r rm) rm' then
            some (.extend x r' rm') else none)
        (fun r base disp => some (.loadExtend x r base disp)) := by
  have e : x.opcode.body r rm = onExtend (x.opcode.rexOf r rm) x := by cases x <;> rfl
  rw [e, onExtend, if_pos (Opcode.rexOf_wide _ _ _)]

theorem plain_extend (x : Extend) : x.opcode.Plain := by
  cases x
  · exact ⟨rfl, fun h => by cases h⟩
  · exact ⟨rfl, fun h => by cases h⟩
  · exact ⟨rfl, fun h => by cases h⟩
  · exact ⟨rfl, fun _ => by decide⟩

/-- Whether an instruction can be told from its bytes: the unsigned extension has no prefix of its own,
without which four byte registers cannot be named. -/
def Readable : Insn → Prop
  | extend .zeroByte dst src => src.index < 4 ∨ 8 ≤ src.index ∨ 8 ≤ dst.index
  | _ => True

theorem reads_extend (x : Extend) (dst src : Reg) (h : (extend x dst src).Readable) :
    Reads decode? (ofBytes (extend x dst src).bytes) (extend x dst src) := by
  refine reads_regReg_operand (plain_extend x) (body_extend x _ _) (if_pos ?_)
  cases x with
  | zeroByte =>
    refine Or.inr (Or.inr (namesLowByte_rexOf (Or.inr (Or.inr ?_))))
    rcases h with h | h | h
    · exact Or.inl h
    · exact Or.inr (Or.inl h)
    · exact Or.inr (Or.inr h)
  | signByte => exact Or.inr (Or.inr (namesLowByte_rexOf (Or.inr (Or.inl rfl))))
  | signHalf => exact Or.inl rfl
  | signWord => exact Or.inr (Or.inl rfl)

theorem reads_loadExtend (x : Extend) (dst base : Reg) (disp : Word) :
    Reads decode? (ofBytes (loadExtend x dst base disp).bytes) (loadExtend x dst base disp) :=
  reads_regMem (plain_extend x) (body_extend x _ _) rfl

/-- The bytes of an instruction read as the instruction, whatever follows them. -/
theorem reads_encode (i : Insn) (h : i.Readable) : Reads decode? i.encode i := by
  have known : i.helper? = none → Reads decode? (ofBytes i.bytes) i → Reads decode? i.encode i := by
    intro hn hr
    rw [encode, hn]
    show Reads decode? (ofBytes i.bytes ++ []) i
    rwa [List.append_nil]
  cases i with
  | movHelper dst helper => exact reads_movHelper dst helper
  | arith o wide dst src => exact known rfl (reads_arith o wide dst src)
  | arithImm o wide dst imm => exact known rfl (reads_arithImm o wide dst imm)
  | arithMemImm o base disp imm => exact known rfl (reads_arithMemImm o base disp imm)
  | not wide dst => exact known rfl (reads_not wide dst)
  | shiftImm o wide dst amount => exact known rfl (reads_shiftImm o wide dst amount)
  | shiftCl o wide dst => exact known rfl (reads_shiftCl o wide dst)
  | mov wide dst src => exact known rfl (reads_mov wide dst src)
  | clear dst => exact known rfl (reads_clear dst)
  | movImm32 dst imm => exact known rfl (reads_movImm32 dst imm)
  | movImmSigned dst imm => exact known rfl (reads_movImmSigned dst imm)
  | movImm64 dst imm => exact known rfl (reads_movImm64 dst imm)
  | extend x dst src => exact known rfl (reads_extend x dst src h)
  | load wide dst base disp => exact known rfl (reads_load wide dst base disp)
  | loadExtend x dst base disp => exact known rfl (reads_loadExtend x dst base disp)
  | store wide src base disp => exact known rfl (reads_store wide src base disp)
  | storeImm base disp imm => exact known rfl (reads_storeImm base disp imm)
  | imul wide dst src => exact known rfl (reads_imul wide dst src)
  | setcc c dst => exact known rfl (reads_setcc c dst)
  | cmov c wide dst src => exact known rfl (reads_cmov c wide dst src)
  | test wide a b => exact known rfl (reads_test wide a b)
  | testMemImm base disp imm => exact known rfl (reads_testMemImm base disp imm)
  | push r => exact known rfl (reads_push r)
  | pop r => exact known rfl (reads_pop r)
  | call r => exact known rfl (reads_call r)
  | ret => exact known rfl reads_ret
  | jcc c rel => exact known rfl (reads_jcc c rel)
  | jmp rel => exact known rfl (reads_jmp rel)

end Insn

end EmotionEngine.Host
