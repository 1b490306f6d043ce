import EmotionEngine.Code.OfBlock
import EmotionEngine.Proofs.Code.Link
import EmotionEngine.Proofs.Plan.Steps

/-!
How large code gets. A host instruction takes at most sixteen bytes, a plan makes few moves at each
instruction, and every instruction has a few dozen host instructions at most, so the code of a block of
a thousand instructions stays far below the distance that a jump can span. All of its instructions can be
told from their bytes.

Main statements: the pieces of an instruction with its moves are `Tame` (`Site.tame_body`), and tame
pieces have a bounded size (`Tame.size_le`).
-/

namespace EmotionEngine

open Host (Reg Cond Helper)

/-! ## Bytes of an instruction -/

namespace Host

theorem Opcode.length_encode_le (op : Opcode) (r rm : Nat) : (op.encode r rm).length ≤ 4 := by
  have rex : (op.rex r rm).length ≤ 1 := by
    unfold rex
    dsimp only
    split <;> simp
  unfold encode
  simp only [List.length_append, List.length_singleton]
  split <;> split <;> simp only [List.length_singleton, List.length_nil] <;> omega

theorem length_memOperand_le (r : Nat) (base : Reg) (disp : Word) :
    (memOperand r base disp).length ≤ 6 := by
  have extra : (if base.low3 = 4 then [0x24#8] else []).length ≤ 1 := by split <;> simp
  unfold memOperand
  dsimp only
  split
  · rw [List.length_cons]
    omega
  split
  · simp only [List.length_append, List.length_cons, List.length_nil]
    omega
  · simp only [List.length_append, List.length_cons, length_leBytes]
    omega

namespace Opcode

variable (op : Opcode)

theorem length_regReg_le (r rm : Reg) : (op.regReg r rm).length ≤ 5 := by
  have := op.length_encode_le r.index rm.index
  simp only [regReg, List.length_append, List.length_singleton]
  omega

theorem length_extReg_le (ext : Nat) (rm : Reg) : (op.extReg ext rm).length ≤ 5 := by
  have := op.length_encode_le ext rm.index
  simp only [extReg, List.length_append, List.length_singleton]
  omega

theorem length_regMem_le (r base : Reg) (disp : Word) : (op.regMem r base disp).length ≤ 10 := by
  have := op.length_encode_le r.index base.index
  have := length_memOperand_le r.low3 base disp
  simp only [regMem, List.length_append]
  omega

theorem length_extMem_le (ext : Nat) (base : Reg) (disp : Word) : (op.extMem ext base disp).length ≤ 10 := by
  have := op.length_encode_le ext base.index
  have := length_memOperand_le ext base disp
  simp only [extMem, List.length_append]
  omega

theorem length_plusReg_le (r : Reg) : (op.plusReg r).length ≤ 4 := Opcode.length_encode_le _ _ _

end Opcode

theorem Insn.length_arithImmForm_le (wide : Bool) (imm : Word) : (arithImmForm wide imm).2.length ≤ 4 := by
  unfold arithImmForm
  split <;> simp

/-- No instruction takes more than sixteen bytes. -/
theorem Insn.size_le (i : Insn) : i.size ≤ 16 := by
  have bytes : i.helper? = none → i.bytes.length ≤ 14 → i.size ≤ 16 := by
    intro none few
    unfold size encode
    rw [none]
    simp only [List.length_append, CodeByte.length_ofBytes, List.length_nil]
    omega
  cases i with
  | movHelper dst h =>
    have := (op 0xB8 true).length_plusReg_le dst
    unfold size encode
    simp only [Insn.bytes, helper?, List.length_append, CodeByte.length_ofBytes, CodeByte.length_ofHelper]
    omega
  | arith o wide dst src =>
    exact bytes rfl (Nat.le_trans (Opcode.length_regReg_le _ _ _) (by decide))
  | arithImm o wide dst imm =>
    have := (arithImmForm wide imm).1.length_extReg_le o.code dst
    have := length_arithImmForm_le wide imm
    refine bytes rfl ?_
    simp only [Insn.bytes, List.length_append]
    omega
  | arithMemImm o base disp imm =>
    have := (arithImmForm false imm).1.length_extMem_le o.code base disp
    have := length_arithImmForm_le false imm
    refine bytes rfl ?_
    simp only [Insn.bytes, List.length_append]
    omega
  | not wide dst => exact bytes rfl (Nat.le_trans (Opcode.length_extReg_le _ _ _) (by decide))
  | shiftImm o wide dst amount =>
    have := (op 0xD1 wide).length_extReg_le o.code dst
    have := (op 0xC1 wide).length_extReg_le o.code dst
    refine bytes rfl ?_
    simp only [Insn.bytes]
    split
    · omega
    · simp only [List.length_append, List.length_singleton]
      omega
  | shiftCl o wide dst => exact bytes rfl (Nat.le_trans (Opcode.length_extReg_le _ _ _) (by decide))
  | mov wide dst src => exact bytes rfl (Nat.le_trans (Opcode.length_regReg_le _ _ _) (by decide))
  | clear dst => exact bytes rfl (Nat.le_trans (Opcode.length_regReg_le _ _ _) (by decide))
  | movImm32 dst imm =>
    have := (op 0xB8 false).length_plusReg_le dst
    refine bytes rfl ?_
    simp only [Insn.bytes, List.length_append, length_leBytes]
    omega
  | movImmSigned dst imm =>
    have := (op 0xC7 true).length_extReg_le 0 dst
    refine bytes rfl ?_
    simp only [Insn.bytes, List.length_append, length_leBytes]
    omega
  | movImm64 dst imm =>
    have := (op 0xB8 true).length_plusReg_le dst
    refine bytes rfl ?_
    simp only [Insn.bytes, List.length_append, length_leBytes]
    omega
  | extend x dst src => exact bytes rfl (Nat.le_trans (Opcode.length_regReg_le _ _ _) (by decide))
  | load wide dst base disp => exact bytes rfl (Nat.le_trans (Opcode.length_regMem_le _ _ _ _) (by decide))
  | loadExtend x dst base disp =>
    exact bytes rfl (Nat.le_trans (Opcode.length_regMem_le _ _ _ _) (by decide))
  | store wide src base disp => exact bytes rfl (Nat.le_trans (Opcode.length_regMem_le _ _ _ _) (by decide))
  | storeImm base disp imm =>
    have := (op 0xC7 false).length_extMem_le 0 base disp
    refine bytes rfl ?_
    simp only [Insn.bytes, List.length_append, length_leBytes]
    omega
  | imul wide dst src => exact bytes rfl (Nat.le_trans (Opcode.length_regReg_le _ _ _) (by decide))
  | setcc c dst => exact bytes rfl (Nat.le_trans (Opcode.length_extReg_le _ _ _) (by decide))
  | cmov c wide dst src => exact bytes rfl (Nat.le_trans (Opcode.length_regReg_le _ _ _) (by decide))
  | test wide a b => exact bytes rfl (Nat.le_trans (Opcode.length_regReg_le _ _ _) (by decide))
  | testMemImm base disp imm =>
    have := (op 0xF7 false).length_extMem_le 0 base disp
    refine bytes rfl ?_
    simp only [Insn.bytes, List.length_append, length_leBytes]
    omega
  | push r => exact bytes rfl (Nat.le_trans (Opcode.length_plusReg_le _ _) (by decide))
  | pop r => exact bytes rfl (Nat.le_trans (Opcode.length_plusReg_le _ _) (by decide))
  | call r => exact bytes rfl (Nat.le_trans (Opcode.length_extReg_le _ _ _) (by decide))
  | ret => exact bytes rfl (by decide)
  | jcc c rel =>
    have := (op0F (0x80 + c.code) false).length_encode_le 0 0
    refine bytes rfl ?_
    simp only [Insn.bytes, List.length_append, length_leBytes]
    omega
  | jmp rel =>
    refine bytes rfl ?_
    simp only [Insn.bytes, List.length_cons, length_leBytes]
    omega

end Host

/-! ## Moves of a plan -/

namespace Plan.State

theorem length_flush_le (st : State) : st.flush.length ≤ 33 :=
  Nat.le_trans (List.length_filterMap_le _ _) (by decide)

theorem length_forEach_le {change : State → GuestReg → List Move × State}
    (h : ∀ st g, (change st g).1.length ≤ 1) (st : State) (gs : List GuestReg) :
    (forEach change st gs).1.length ≤ gs.length := by
  induction gs generalizing st with
  | nil => exact Nat.le_refl 0
  | cons g gs ih =>
    have := h st g
    have := ih (change st g).2
    simp only [forEach, List.length_append, List.length_cons]
    omega

theorem length_bringHome_le (st : State) (g : GuestReg) : (st.bringHome g).1.length ≤ 1 := by
  unfold bringHome
  split <;> simp

theorem length_release_le (st : State) (g : GuestReg) : (st.release g).1.length ≤ 1 := by
  unfold release
  dsimp only
  split <;> simp

theorem length_evict_le (st : State) (k : Host.Slot) : (st.evict k).1.length ≤ 1 := by
  unfold evict
  split
  · simp
  · split <;> simp

theorem length_fetch_le (v : Value) (g : GuestReg) (k : Host.Slot) (read : Bool) :
    (fetch v g k read).length ≤ 1 := by
  unfold fetch
  split
  · simp
  · simp
  · split <;> simp
  · simp

theorem length_place?_le {st st' : State} {now : Nat} {u : Uses} {operands : List GuestReg} {g : GuestReg}
    {ms : List Move} {k : Host.Slot} (h : st.place? now u operands g = some (ms, k, st')) :
    ms.length ≤ 2 := by
  unfold place? at h
  split at h
  · cases h
    simp
  · split at h
    · cases h
    · next k' freed st1 e =>
      have freed_le : freed.length ≤ 1 := by
        unfold claim? at e
        split at e
        · cases e
          simp
        · obtain ⟨v, -, e⟩ := Option.map_eq_some_iff.mp e
          have out := congrArg (fun x => x.2.1) e
          rw [← show (st.evict v).1 = freed from out]
          exact st.length_evict_le v
      have fetch_le := length_fetch_le (st1.value g) g k' (u.reads.contains g)
      have out := congrArg Prod.fst (Option.some.inj h)
      rw [← show freed ++ fetch (st1.value g) g k' (u.reads.contains g) = ms from out, List.length_append]
      omega

theorem length_placeAll_le {st st' : State} {now : Nat} {u : Uses} {operands gs : List GuestReg}
    {ms : List Move} {places : List (GuestReg × Host.Slot)}
    (h : st.placeAll now u operands gs = .ok (ms, places, st')) : ms.length ≤ 2 * gs.length := by
  induction gs generalizing st ms places st' with
  | nil =>
    cases h
    simp
  | cons g gs ih =>
    unfold placeAll at h
    split at h
    · cases h
    · next m k st1 e =>
      have := length_place?_le e
      split at h
      · cases h
      · next more ps st2 e' =>
        have := ih e'
        cases h
        rw [List.length_append, List.length_cons]
        omega

end Plan.State

/-- A step that makes few moves. -/
structure Step.Short (s : Step) : Prop where
  before : s.before.length ≤ 13
  after : s.after.length ≤ 8
  flushPre : s.flushPre.length ≤ 33
  flushPost : s.flushPost.length ≤ 33

namespace Plan.State

theorem step_short {u : Uses} (hu : u.WellFormed) {st st' : State} {now : Nat} {later : List Uses}
    {s : Step} (h : st.step now u later = .ok (s, st')) : s.Short := by
  unfold step at h
  dsimp only at h
  split at h
  · cases h
  · next ms operands mid e =>
    have homing := length_forEach_le length_bringHome_le st u.envReads
    have placing := length_placeAll_le e
    have operands := length_native_le u
    have all : u.all.length = u.reads.length + u.writes.length + (u.envReads.length + u.envWrites.length) := by
      simp only [Uses.all, List.length_append]
      omega
    have dead := List.length_filter_le (fun g => later.all (fun v => !v.all.contains g)) u.all
    have few := hu.few
    have envFew := hu.envFew
    cases h
    refine ⟨?_, ?_, length_flush_le _, length_flush_le _⟩
    · simp only [List.length_append]
      omega
    · refine Nat.le_trans (length_forEach_le length_release_le _ _) ?_
      omega

theorem steps_short {is : List DecodedInsn} {st st' : State} {now : Nat} {ss : List Step}
    (h : st.steps now is = .ok (ss, st')) : ∀ s ∈ ss, s.Short := by
  induction is generalizing st now ss with
  | nil =>
    cases h
    simp
  | cons i is ih =>
    unfold steps at h
    split at h
    · cases h
    · next s st1 e =>
      split at h
      · cases h
      · next ss' st2 e' =>
        cases h
        intro x hx
        rcases List.mem_cons.mp hx with rfl | hx
        · exact step_short i.insn.uses_wellFormed e
        · exact ih e' x hx

end Plan.State

theorem Plan.ofBlock_short {b : Block} {p : Plan} (h : Plan.ofBlock b = .ok p) : ∀ s ∈ p.steps, s.Short := by
  unfold ofBlock at h
  split at h
  · cases h
  · next ss st e =>
    cases h
    exact State.steps_short e

namespace Code

/-! ## Pieces -/

/-- At most `n` instructions, all of which can be told from their bytes. -/
structure Plain (n : Nat) (is : List Host.Insn) : Prop where
  length : is.length ≤ n
  readable : ∀ i ∈ is, i.Readable

namespace Plain

variable {m n : Nat} {is js : List Host.Insn}

theorem le (h : Plain m is) (hn : m ≤ n) : Plain n is := ⟨Nat.le_trans h.length hn, h.readable⟩

theorem nil : Plain 0 [] := ⟨Nat.le_refl 0, by simp⟩

theorem cons {i : Host.Insn} (hi : i.Readable) (h : Plain n is) : Plain (n + 1) (i :: is) :=
  ⟨Nat.succ_le_succ h.length, List.forall_mem_cons.mpr ⟨hi, h.readable⟩⟩

theorem append (h : Plain m is) (h' : Plain n js) : Plain (m + n) (is ++ js) := by
  refine ⟨?_, List.forall_mem_append.mpr ⟨h.readable, h'.readable⟩⟩
  rw [List.length_append]
  exact Nat.add_le_add h.length h'.length

theorem ite {c : Prop} [Decidable c] (h : Plain n is) (h' : Plain n js) :
    Plain n (if c then is else js) := by
  split
  · exact h
  · exact h'

end Plain

/-- A piece whose instructions can be told from their bytes, with a short way out. -/
structure Item.Fine (i : Item) : Prop where
  readable : i.Readable
  path : i.path.length ≤ 80

/-- At most `n` pieces, all of them fine. -/
structure Tame (n : Nat) (body : List Item) : Prop where
  length : body.length ≤ n
  fine : ∀ i ∈ body, i.Fine

namespace Tame

variable {m n : Nat} {a b : List Item}

theorem le (h : Tame m a) (hn : m ≤ n) : Tame n a := ⟨Nat.le_trans h.length hn, h.fine⟩

theorem nil : Tame 0 [] := ⟨Nat.le_refl 0, by simp⟩

theorem cons {i : Item} (hi : i.Fine) (h : Tame n a) : Tame (n + 1) (i :: a) :=
  ⟨Nat.succ_le_succ h.length, List.forall_mem_cons.mpr ⟨hi, h.fine⟩⟩

theorem insn {i : Host.Insn} (hi : i.Readable) (h : Tame n a) : Tame (n + 1) (.insn i :: a) :=
  cons ⟨hi, Nat.zero_le _⟩ h

theorem append (h : Tame m a) (h' : Tame n b) : Tame (m + n) (a ++ b) := by
  refine ⟨?_, List.forall_mem_append.mpr ⟨h.fine, h'.fine⟩⟩
  rw [List.length_append]
  exact Nat.add_le_add h.length h'.length

theorem items {is : List Host.Insn} (h : Plain n is) : Tame n (items is) := by
  refine ⟨?_, ?_⟩
  · rw [Code.items, List.length_map]
    exact h.length
  · intro i hi
    obtain ⟨j, hj, rfl⟩ := List.mem_map.mp hi
    exact ⟨h.readable j hj, Nat.zero_le _⟩

theorem ite {c : Prop} [Decidable c] (h : Tame n a) (h' : Tame n b) : Tame n (if c then a else b) := by
  split
  · exact h
  · exact h'

theorem flatMap {α : Type} {f : α → List Item} {xs : List α} (h : ∀ x ∈ xs, Tame n (f x)) :
    Tame (n * xs.length) (xs.flatMap f) := by
  induction xs with
  | nil => exact nil
  | cons x xs ih =>
    have t := (h x List.mem_cons_self).append (ih (fun y hy => h y (List.mem_cons_of_mem _ hy)))
    rw [List.flatMap_cons]
    refine t.le ?_
    rw [List.length_cons, Nat.mul_succ]
    omega

end Tame

theorem length_encode_le (is : List Host.Insn) : (encode is).length ≤ 16 * is.length := by
  induction is with
  | nil => exact Nat.le_refl 0
  | cons i is ih =>
    have := i.size_le
    rw [encode_cons, List.length_append, List.length_cons]
    unfold Host.Insn.size at this
    omega

/-- The bytes of tame pieces and of their ways out. -/
theorem Tame.size_le {n : Nat} {body : List Item} (h : Tame n body) :
    bodySize body + (encode (body.flatMap Item.path)).length ≤ 1296 * n := by
  have each : bodySize body + (encode (body.flatMap Item.path)).length ≤ 1296 * body.length := by
    have fine := h.fine
    clear h
    induction body with
    | nil => exact Nat.le_refl 0
    | cons i body ih =>
      have rest := ih (fun j hj => fine j (List.mem_cons_of_mem _ hj))
      have path := Nat.le_trans (length_encode_le i.path)
        (Nat.mul_le_mul_left 16 (fine i List.mem_cons_self).path)
      have size : i.size ≤ 16 := by
        cases i with
        | insn j => exact j.size_le
        | leave cond path => exact (Item.jump cond 0).size_le
      rw [List.flatMap_cons, encode_append, List.length_append, List.length_cons]
      show i.size + bodySize body + _ ≤ _
      omega
  exact Nat.le_trans each (Nat.mul_le_mul_left _ h.length)

/-! ## The code of an instruction -/

theorem plain_ofMoves (ms : List Move) : Plain (2 * ms.length) (ofMoves ms) := by
  induction ms with
  | nil => exact .nil
  | cons m ms ih =>
    have one : Plain 2 (ofMove m) := by
      cases m with
      | spillToHome g => exact .cons (by trivial) (.cons (by trivial) .nil)
      | loadHome g k | reload g k | spill g k | writeBack g k =>
        exact Plain.le (.cons (by trivial) .nil) (by decide)
    refine (one.append ih).le ?_
    rw [List.length_cons]
    omega

theorem plain_exit (e : BlockExit) : Plain 2 (exit e) := .cons (by trivial) (.cons (by trivial) .nil)

theorem plain_call (x : Helper) : Plain 2 (call x) := .cons (by trivial) (.cons (by trivial) .nil)

theorem plain_truth (c : Cond) : Plain 2 (truth c) := .cons (by trivial) (.cons (Or.inl (by decide)) .nil)

theorem plain_splitHiLo : Plain 3 splitHiLo := .cons (by trivial) (.cons (by trivial) (.cons (by trivial) .nil))

theorem readable_movImm (wide : Bool) (dst : Reg) (v : Dword) : (Host.Insn.movImm wide dst v).Readable := by
  unfold Host.Insn.movImm
  split
  · trivial
  split
  · trivial
  split <;> trivial

namespace Site

variable (s : Site)

theorem readable_read (dst : Reg) (g : GuestReg) : (s.read dst g).Readable := by
  unfold read
  split <;> trivial

theorem plain_write (g : GuestReg) (src : Reg) : Plain 1 (s.write g src) :=
  .ite (Plain.le .nil (by decide)) (.cons (by trivial) .nil)

theorem plain_writeImm (r : RegNum) (v : Dword) : Plain 1 (s.writeImm r v) :=
  .ite (Plain.le .nil (by decide)) (.cons (readable_movImm _ _ _) .nil)

theorem plain_effectiveAddr (base : RegNum) (off : Half) : Plain 2 (s.effectiveAddr base off) :=
  .cons (s.readable_read _ _) (.ite (Plain.le .nil (by decide)) (.cons (by trivial) .nil))

theorem fine_leave {cond : Option Cond} {path : List Host.Insn} {n : Nat} (h : Plain n path) (hn : n ≤ 80) :
    (Item.leave cond path).Fine := ⟨h.readable, Nat.le_trans h.length hn⟩

variable {s}

theorem fine_fault (hs : s.step.Short) (cond : Option Cond) (code : Option ExcCode) :
    (s.fault cond code).Fine := by
  have recorded : Plain 1 (code.map (fun c => setState Layout.excCode c.toWord)).toList := by
    cases code with
    | none => exact Plain.le .nil (by decide)
    | some c => exact .cons (by trivial) .nil
  have flush := hs.flushPre
  exact fine_leave ((((plain_ofMoves _).append recorded).append
    (.cons (by trivial) (.cons (by trivial) .nil))).append (plain_exit _)) (by omega)

theorem fine_skipSlot (hs : s.step.Short) (cond : Cond) : (s.skipSlot cond).Fine := by
  have flush := hs.flushPost
  exact fine_leave (((plain_ofMoves _).append (.cons (by trivial) .nil)).append (plain_exit _)) (by omega)

theorem fine_modified (hs : s.step.Short) (cond : Cond) : (s.modified cond).Fine := by
  have flush := hs.flushPost
  exact fine_leave (((plain_ofMoves _).append (.ite (Plain.le .nil (Nat.zero_le 1))
    (.cons (by trivial) .nil))).append (plain_exit _)) (by omega)

theorem tame_checkFault (hs : s.step.Short) : Tame 2 s.checkFault :=
  .insn (by trivial) (.cons (fine_fault hs _ _) .nil)

theorem tame_checkDone (hs : s.step.Short) : Tame 2 s.checkDone :=
  .insn (by trivial) (.cons (fine_fault hs _ _) .nil)

theorem tame_checkStore (hs : s.step.Short) : Tame 4 s.checkStore :=
  .insn (by trivial) (.cons (fine_fault hs _ _) (.insn (by trivial) (.cons (fine_modified hs _) .nil)))

theorem tame_trapIf (hs : s.step.Short) (traps : Bool) : Tame 1 (s.trapIf traps) :=
  .ite (.cons (fine_fault hs _ _) .nil) (Tame.le .nil (by decide))

theorem tame_alu (hs : s.step.Short) (op : AluOp) : Tame 3 (s.alu op) := by
  have sum : ∀ {i : Host.Insn} (_ : i.Readable) (traps : Bool),
      Tame 3 (.insn i :: s.trapIf traps ++ [.insn signExtend]) :=
    fun hi traps => (Tame.insn hi (tame_trapIf hs traps)).append (.insn (by trivial) .nil)
  have wide : ∀ {i : Host.Insn} (_ : i.Readable) (traps : Bool), Tame 3 (.insn i :: s.trapIf traps) :=
    fun hi traps => (Tame.insn hi (tame_trapIf hs traps)).le (by decide)
  cases op with
  | add | addu | sub | subu => exact sum (by trivial) _
  | dadd | daddu | dsub | dsubu => exact wide (by trivial) _
  | and | or | xor => exact .items (Plain.le (.cons (by trivial) .nil) (by decide))
  | nor => exact .items (Plain.le (.cons (by trivial) (.cons (by trivial) .nil)) (by decide))
  | slt | sltu => exact .items (.cons (by trivial) (plain_truth _))

theorem tame_aluImm (hs : s.step.Short) (op : AluImmOp) (imm : Half) : Tame 3 (s.aluImm op imm) := by
  cases op with
  | addi | addiu => exact (Tame.insn (by trivial) (tame_trapIf hs _)).append (.insn (by trivial) .nil)
  | daddi | daddiu => exact (Tame.insn (by trivial) (tame_trapIf hs _)).le (by decide)
  | slti | sltiu => exact .items (.cons (by trivial) (plain_truth _))
  | andi | ori | xori => exact .items (Plain.le (.cons (by trivial) .nil) (by decide))

theorem tame_outcome (hs : s.step.Short) (cond : Cond) (target : Word) (likely : Bool) :
    Tame 4 (s.outcome cond target likely) :=
  .ite (Tame.le (.cons (fine_skipSlot hs _) (.insn (by trivial) .nil)) (by decide))
    (.items (.cons (by trivial) (.cons (by trivial) (.cons (by trivial) (.cons (by trivial) .nil)))))

theorem plain_multiply (rd rs rt : RegNum) {widen : List Host.Insn} (hw : Plain 2 widen) :
    Plain 11 (s.multiply widen rd rs rt) := by
  have reads : Plain 2 [s.read .scratch0 (.gpr rs), s.read .scratch1 (.gpr rt)] :=
    .cons (s.readable_read _ _) (.cons (s.readable_read _ _) .nil)
  exact (((((reads.append hw).append (.cons (by trivial) .nil)).append plain_splitHiLo).append
    (s.plain_write _ _)).append (s.plain_write _ _)).append (s.plain_write _ _)

theorem plain_divide (x : Helper) (rs rt : RegNum) : Plain 11 (s.divide x rs rt) := by
  have reads : Plain 2 [s.read (Host.arg 0) (.gpr rs), s.read (Host.arg 1) (.gpr rt)] :=
    .cons (s.readable_read _ _) (.cons (s.readable_read _ _) .nil)
  exact ((((reads.append (plain_call x)).append plain_splitHiLo).append (s.plain_write _ _)).append
    (s.plain_write _ _)).le (by decide)

theorem plain_mulDiv (op : MulDivOp) (rd rs rt : RegNum) : Plain 11 (s.mulDiv op rd rs rt) := by
  cases op with
  | mult => exact plain_multiply rd rs rt (.cons (by trivial) (.cons (by trivial) .nil))
  | multu => exact plain_multiply rd rs rt (.cons (by trivial) (.cons (by trivial) .nil))
  | div => exact plain_divide .div rs rt
  | divu => exact plain_divide .divu rs rt

theorem plain_extendLoad (op : LoadOp) : Plain 1 (extendLoad op) := by
  cases op with
  | lb | lh | lw => exact .cons (by trivial) .nil
  | lbu | lhu | lwu | ld | lq => exact Plain.le .nil (by decide)

theorem plain_fpuMove (op : FpuMoveOp) (rt fs : RegNum) : Plain 3 (s.fpuMove op rt fs) := by
  cases op with
  | mfc1 => exact Plain.le (.cons (by trivial) (s.plain_write _ _)) (by decide)
  | mtc1 => exact Plain.le (.cons (s.readable_read _ _) (.cons (by trivial) .nil)) (by decide)
  | cfc1 =>
    have first : (if fs = 0 then Host.Insn.movImm true .scratch0 (fcr0Value.setWidth 64)
        else if fs = 31 then .loadExtend .signWord .scratch0 .env (offset Layout.fcr31)
        else .clear .scratch0).Readable := by
      split
      · exact readable_movImm _ _ _
      split <;> trivial
    exact Plain.le (.cons first (s.plain_write _ _)) (by decide)
  | ctc1 =>
    exact .ite (.cons (s.readable_read _ _) (.cons (by trivial) (.cons (by trivial) .nil)))
      (Plain.le .nil (by decide))

theorem tame_load (hs : s.step.Short) (op : LoadOp) (rt base : RegNum) (off : Half) :
    Tame 11 (s.load op rt base off) := by
  have start : Plain 3 (s.effectiveAddr base off ++ [envArg]) :=
    (s.plain_effectiveAddr base off).append (.cons (by trivial) .nil)
  refine .ite ?_ ?_
  · exact ((Tame.items ((start.append (.cons (by trivial) .nil)).append (plain_call _))).append
      (tame_checkFault hs)).le (by decide)
  · exact (((Tame.items (start.append (plain_call _))).append (tame_checkFault hs)).append
      (.items ((plain_extendLoad op).append (s.plain_write _ _)))).le (by decide)

theorem tame_store (hs : s.step.Short) (op : StoreOp) (rt base : RegNum) (off : Half) :
    Tame 11 (s.store op rt base off) := by
  have value : (if op = .sq then numArg 2 rt.val else s.read (Host.arg 2) (.gpr rt)).Readable := by
    split
    · trivial
    · exact s.readable_read _ _
  exact ((Tame.items (((s.plain_effectiveAddr base off).append (.cons value (.cons (by trivial) .nil))).append
    (plain_call _))).append (tame_checkStore hs)).le (by decide)

theorem tame_code (hs : s.step.Short) : Tame 11 s.code := by
  -- Numbers for a helper are constants in registers.
  have numbers : ∀ {is : List Host.Insn} {n : Nat} (_ : Plain n is) (x : Helper) (_ : n + 2 ≤ 11),
      Tame 11 (items (is ++ call x)) := fun h x hn => (Tame.items (h.append (plain_call x))).le hn
  unfold code
  cases s.insn.insn with
  | nop | sync => exact Tame.le .nil (by decide)
  | alu op rd rs rt =>
    exact (((Tame.items (.cons (s.readable_read _ _) (.cons (s.readable_read _ _) .nil))).append
      (tame_alu hs op)).append (.items (s.plain_write _ _))).le (by decide)
  | aluImm op rt rs imm =>
    exact ((Tame.insn (s.readable_read _ _) (tame_aluImm hs op imm)).append
      (.items (s.plain_write _ _))).le (by decide)
  | lui rt imm => exact (Tame.items (s.plain_writeImm _ _)).le (by decide)
  | shift op rd rt sa =>
    exact (Tame.items (((Plain.cons (s.readable_read _ _) (Plain.ite (Plain.le .nil (Nat.zero_le 1))
      (.cons (by trivial) .nil))).append (Plain.ite (Plain.le .nil (Nat.zero_le 1))
      (.cons (by trivial) .nil))).append (s.plain_write _ _))).le (by decide)
  | shiftVar op rd rt rs =>
    exact (Tame.items ((Plain.append (.cons (s.readable_read _ _) (.cons (s.readable_read _ _)
      (.cons (by trivial) .nil))) (Plain.ite (Plain.le .nil (Nat.zero_le 1))
      (.cons (by trivial) .nil))).append (s.plain_write _ _))).le (by decide)
  | mulDiv op rd rs rt => exact .items (plain_mulDiv op rd rs rt)
  | hiLo op r => exact (Tame.items (.cons (s.readable_read _ _) (s.plain_write _ _))).le (by decide)
  | condMove op rd rs rt =>
    exact (Tame.items (Plain.append (.cons (s.readable_read _ _) (.cons (s.readable_read _ _)
      (.cons (s.readable_read _ _) (.cons (by trivial) (.cons (by trivial) .nil)))))
      (s.plain_write _ _))).le (by decide)
  | load op rt base off => exact tame_load hs op rt base off
  | store op rt base off => exact tame_store hs op rt base off
  | branch cond rs rt off likely link =>
    exact ((Tame.items ((Plain.append (.cons (s.readable_read _ _) (.cons (s.readable_read _ _) .nil))
      (Plain.ite (s.plain_writeImm _ _) (Plain.le .nil (Nat.zero_le 1)))).append
      (.cons (by trivial) .nil))).append (tame_outcome hs _ _ _)).le (by decide)
  | fpuBranch onTrue likely target => exact (Tame.insn (by trivial) (tame_outcome hs _ _ _)).le (by decide)
  | jump index link =>
    exact (Tame.items ((Plain.ite (s.plain_writeImm _ _) (Plain.le .nil (Nat.zero_le 1))).append
      (.cons (by trivial) .nil))).le (by decide)
  | jumpReg rs link =>
    cases link with
    | some rd =>
      exact (Tame.items ((Plain.cons (s.readable_read _ _) (s.plain_writeImm _ _)).append
        (.cons (by trivial) .nil))).le (by decide)
    | none =>
      exact (Tame.items ((Plain.cons (s.readable_read _ _) .nil).append (.cons (by trivial) .nil))).le
        (by decide)
  | syscall | breakpoint | reserved => exact Tame.le (.cons (fine_fault hs _ _) .nil) (by decide)
  | cop0Move op rt rd =>
    cases op with
    | mfc0 =>
      exact (((Tame.items (Plain.append (.cons (by trivial) (.cons (by trivial) .nil)) (plain_call _))).append
        (tame_checkFault hs)).append (.items (.cons (by trivial) (s.plain_write _ _)))).le (by decide)
    | mtc0 =>
      exact ((Tame.items (Plain.append (.cons (s.readable_read _ _) (.cons (by trivial)
        (.cons (by trivial) .nil))) (plain_call _))).append (tame_checkDone hs)).le (by decide)
  | eret => exact ((Tame.items (.cons (by trivial) (plain_call _))).append (tame_checkDone hs)).le (by decide)
  | ei | di =>
    exact ((Tame.items (Plain.append (.cons (by trivial) (.cons (by trivial) .nil)) (plain_call _))).append
      (tame_checkDone hs)).le (by decide)
  | fpuMove op rt fs => exact (Tame.items (plain_fpuMove op rt fs)).le (by decide)
  | fpuLoad ft base off =>
    exact (((Tame.items (((s.plain_effectiveAddr base off).append (.cons (by trivial) .nil)).append
      (plain_call _))).append (tame_checkFault hs)).append (.items (.cons (by trivial) .nil))).le (by decide)
  | fpuStore ft base off =>
    exact ((Tame.items (((s.plain_effectiveAddr base off).append (.cons (by trivial)
      (.cons (by trivial) .nil))).append (plain_call _))).append (tame_checkStore hs)).le (by decide)
  | fpuArith op fd fs ft =>
    exact numbers (.cons (by trivial) (.cons (by trivial) (.cons (by trivial) (.cons (by trivial)
      (.cons (by trivial) .nil))))) _ (by decide)
  | fpuCompare cond fs ft =>
    exact numbers (.cons (by trivial) (.cons (by trivial) (.cons (by trivial) (.cons (by trivial) .nil)))) _
      (by decide)
  | mmi op rd rs rt =>
    exact numbers (.cons (by trivial) (.cons (by trivial) (.cons (by trivial) (.cons (by trivial)
      (.cons (by trivial) .nil))))) _ (by decide)

/-- The code of an instruction with its moves. -/
theorem tame_body (hs : s.step.Short) : Tame 53 s.body := by
  have before : Tame 26 (items (ofMoves s.step.before)) :=
    (Tame.items (plain_ofMoves _)).le (by have := hs.before; omega)
  have after : Tame 16 (items (ofMoves s.step.after)) :=
    (Tame.items (plain_ofMoves _)).le (by have := hs.after; omega)
  exact ((before.append (tame_code hs)).append after).le (by decide)

end Site

end Code

end EmotionEngine
