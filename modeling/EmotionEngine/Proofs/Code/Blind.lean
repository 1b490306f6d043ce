import EmotionEngine.Code.OfInsn
import EmotionEngine.Proofs.Code.Blot
import EmotionEngine.Proofs.Code.Link

/-!
Code that does not depend on register 0 of the guest. A piece of a body is blind on its own, or it is the call of a
helper with the move of its address; a run of such pieces is the same whatever register 0 holds (`Blind.runs`). The
ways out of a block are blind, since no plan brings register 0 home.

Main statement: the code of an instruction is blind (`Site.blind_code`), except for the quadword store and the
multimedia instructions.
-/

namespace EmotionEngine

open Host (Cond Reg Slot Helper)

namespace Code

/-! ## Bodies -/

/-- Pieces that neither read nor write register 0 in memory. -/
inductive Blind : List Item → Prop
  | nil : Blind []
  | insn {i : Host.Insn} {rest : List Item} (own : i.Blind) (later : Blind rest) : Blind (.insn i :: rest)
  | ret (rest : List Item) : Blind (.insn .ret :: rest)
  | call {x : Helper} {rest : List Item} (own : x.Blind) (later : Blind rest) : Blind (items (call x) ++ rest)
  | leave {path : List Host.Insn} {rest : List Item} (cond : Option Host.Cond) (own : Blind (items path))
    (later : Blind rest) : Blind (.leave cond path :: rest)

/-- The end of a run with another low half in register 0. -/
def Outcome.blot (v : Dword) : Outcome → Outcome
  | .through s => .through (s.blot v)
  | .left s => .left (s.blot v)

/-- Blind pieces run the same whatever register 0 holds. -/
theorem Blind.runs {body : List Item} (blind : Blind body) {s : Host.State} {o : Outcome} (v : Dword)
    (he : s.get .env = .dword s.base) (run : Runs body s o) : Runs body (s.blot v) (o.blot v) := by
  induction blind generalizing s o with
  | nil =>
    cases run
    exact .nil _
  | insn own later ih =>
    cases run with
    | insn performed rest =>
      have anchored := Host.Insn.perform_anchored own performed
      refine .insn ?_ (ih (anchored.env.trans (he.trans (congrArg _ anchored.base.symm))) rest)
      rw [Host.Insn.perform_blot own he, performed]
      rfl
    | ret => exact own.elim
  | ret rest =>
    cases run with
    | insn performed => cases performed
    | ret => exact .ret _ _
  | @call x rest own later ih =>
    obtain ⟨s1, called, run⟩ : ∃ s1, x.call (s.set .scratch0 x.address) = some s1 ∧ Runs rest s1 o := by
      cases run with
      | insn moved run =>
        obtain rfl := Option.some.inj moved
        cases run with
        | insn called run => exact ⟨_, (perform_call x s).symm.trans called, run⟩
    have anchored := (Host.Insn.Anchored.set (s := s) (by decide) x.address).trans (Helper.call_anchored called)
    refine (runs_call ?_).append (ih (anchored.env.trans (he.trans (congrArg _ anchored.base.symm))) run)
    show x.call ((s.set .scratch0 x.address).blot v) = _
    rw [Helper.call_blot own, called]
    rfl
  | leave cond own later ihPath ih =>
    cases run with
    | pass fails rest => exact .pass fails (ih he rest)
    | leave jumps path => exact .leave (by cases cond <;> exact jumps) (ihPath he path)

theorem Blind.append {a b : List Item} (ha : Blind a) (hb : Blind b) : Blind (a ++ b) := by
  induction ha with
  | nil => exact hb
  | insn own _ ih => exact .insn own ih
  | ret rest => exact .ret _
  | call own _ ih =>
    rw [List.append_assoc]
    exact .call own ih
  | leave cond own _ _ ih => exact .leave cond own ih

/-! ## Instructions and pieces in sequence -/

/-- All of the instructions are blind. -/
def AllBlind (is : List Host.Insn) : Prop := ∀ i ∈ is, i.Blind

@[simp] theorem allBlind_nil : AllBlind [] := List.forall_mem_nil _

@[simp] theorem allBlind_cons (i : Host.Insn) (is : List Host.Insn) :
    AllBlind (i :: is) ↔ i.Blind ∧ AllBlind is :=
  List.forall_mem_cons

@[simp] theorem allBlind_append (is is' : List Host.Insn) : AllBlind (is ++ is') ↔ AllBlind is ∧ AllBlind is' :=
  List.forall_mem_append

/-- The piece is blind on its own. -/
def Item.Blind : Item → Prop
  | .insn i => i.Blind
  | .leave _ path => Code.Blind (items path)

/-- All of the pieces are like that. -/
def EachBlind (body : List Item) : Prop := ∀ item ∈ body, item.Blind

@[simp] theorem blind_insn (i : Host.Insn) : (Item.insn i).Blind ↔ i.Blind := .rfl

@[simp] theorem eachBlind_nil : EachBlind [] := List.forall_mem_nil _

@[simp] theorem eachBlind_cons (item : Item) (body : List Item) :
    EachBlind (item :: body) ↔ item.Blind ∧ EachBlind body :=
  List.forall_mem_cons

@[simp] theorem eachBlind_append (a b : List Item) : EachBlind (a ++ b) ↔ EachBlind a ∧ EachBlind b :=
  List.forall_mem_append

@[simp] theorem eachBlind_items (is : List Host.Insn) : EachBlind (items is) ↔ AllBlind is := List.forall_mem_map

theorem EachBlind.blind {body : List Item} (each : EachBlind body) : Blind body := by
  induction body with
  | nil => exact .nil
  | cons item rest ih =>
    obtain ⟨own, later⟩ := (eachBlind_cons item rest).1 each
    cases item with
    | insn i => exact .insn own (ih later)
    | leave cond path => exact .leave cond own (ih later)

theorem AllBlind.blind {is : List Host.Insn} (all : AllBlind is) : Blind (items is) :=
  ((eachBlind_items is).2 all).blind

theorem Blind.around {before : List Host.Insn} {x : Helper} {after : List Item} (args : AllBlind before)
    (own : x.Blind) (each : EachBlind after) : Blind (items (before ++ Code.call x) ++ after) := by
  rw [items_append, List.append_assoc]
  exact args.blind.append (.call own each.blind)

/-! ## The code of an instruction -/

theorem reaches (f : Field) (clear : Host.Clear f) : Host.Reaches f.wide .env (offset f.offset) :=
  ⟨rfl, f, rfl, rfl, clear⟩

theorem reaches_pc : Host.Reaches false .env (offset Layout.pc) := reaches .pc ⟨nofun, nofun⟩

theorem reaches_fcr31 : Host.Reaches false .env (offset Layout.fcr31) := reaches .fcr31 ⟨nofun, nofun⟩

theorem reaches_fpr (r : RegNum) : Host.Reaches false .env (offset (Layout.fpr r.val)) :=
  reaches (.fpr r) ⟨nofun, nofun⟩

theorem reaches_excCode : Host.Reaches false .env (offset Layout.excCode) := reaches .excCode ⟨nofun, nofun⟩

theorem reaches_excDelaySlot : Host.Reaches false .env (offset Layout.excDelaySlot) :=
  reaches .excDelaySlot ⟨nofun, nofun⟩

theorem reaches_faultPending : Host.Reaches false .env (offset Layout.faultPending) :=
  reaches .faultPending ⟨nofun, nofun⟩

@[simp] theorem blind_setPc (pc : Word) : (setPc pc).Blind := reaches_pc

/-- Scratch registers, and the count of a shift, are not the base. -/
theorem scratch_ne_env :
    Reg.scratch0 ≠ .env ∧ Reg.scratch1 ≠ .env ∧ Reg.scratch2 ≠ .env ∧ Reg.rcx ≠ .env ∧ Reg.rsi ≠ .env := by
  decide

theorem arg_ne_env (k : Fin 5) : Host.arg k ≠ .env := by
  revert k
  decide

@[simp] theorem allBlind_truth (c : Cond) : AllBlind (truth c) := by
  simp [truth, scratch_ne_env]

@[simp] theorem allBlind_splitHiLo : AllBlind splitHiLo := by
  simp [splitHiLo, signExtend, scratch_ne_env]

theorem blind_exit (e : BlockExit) : Blind (items (exit e)) := .insn scratch_ne_env.1 (.ret _)

theorem allBlind_ofMoves {ms : List Move} (others : ∀ m ∈ ms, m.guest ≠ .gpr 0) : AllBlind (ofMoves ms) := by
  have slot : ∀ k : Slot, k.reg ≠ .env := by decide
  have home {r : GuestReg} (other : r ≠ .gpr 0) : Host.Reaches true .env (offset r.home) := by
    have clear : Host.Clear r.homeField := by
      refine ⟨fun same => other ?_, fun x same => ?_⟩
      · cases r <;> cases same
        rfl
      · cases r <;> cases same
    have reached := reaches r.homeField clear
    rwa [Host.State.wide_homeField, GuestReg.offset_homeField] at reached
  have spill (r : GuestReg) : Host.Reaches true .env (offset r.spill) := by
    have reached := reaches r.spillField ⟨nofun, nofun⟩
    rwa [GuestReg.offset_spillField] at reached
  have one {m : Move} (other : m.guest ≠ .gpr 0) : AllBlind (ofMove m) := by
    cases m with
    | loadHome r k => exact (allBlind_cons _ _).2 ⟨⟨slot k, home other⟩, allBlind_nil⟩
    | reload r k => exact (allBlind_cons _ _).2 ⟨⟨slot k, spill r⟩, allBlind_nil⟩
    | spill r k => exact (allBlind_cons _ _).2 ⟨spill r, allBlind_nil⟩
    | writeBack r k => exact (allBlind_cons _ _).2 ⟨home other, allBlind_nil⟩
    | spillToHome r =>
      have stored := (allBlind_cons (storeState .scratch0 r.home) []).2 ⟨home other, allBlind_nil⟩
      exact (allBlind_cons _ _).2 ⟨⟨scratch_ne_env.1, spill r⟩, stored⟩
  intro i mem
  obtain ⟨m, listed, mem⟩ := List.mem_flatMap.1 mem
  exact one (others m listed) i mem

theorem Blind.calls {before : List Host.Insn} {x : Helper} (args : AllBlind before) (own : x.Blind) :
    Blind (items (before ++ Code.call x)) := by
  rw [← List.append_nil (items _)]
  exact around args own eachBlind_nil

namespace Site

variable {s : Site}

theorem host_ne_env (r : GuestReg) : s.host r ≠ .env := by
  have slots : ∀ k : Slot, k.reg ≠ .env := by decide
  unfold host
  split
  · exact slots _
  · decide

@[simp] theorem blind_read (dst : Reg) (r : GuestReg) : (s.read dst r).Blind ↔ dst ≠ .env := by
  unfold read
  split <;> exact Iff.rfl

@[simp] theorem allBlind_write (r : GuestReg) (src : Reg) : AllBlind (s.write r src) := by
  unfold write
  split <;> simp [host_ne_env]

@[simp] theorem allBlind_writeImm (r : RegNum) (v : Dword) : AllBlind (s.writeImm r v) := by
  unfold writeImm
  split <;> simp [host_ne_env]

@[simp] theorem allBlind_effectiveAddr (base : RegNum) (off : Half) : AllBlind (s.effectiveAddr base off) := by
  unfold effectiveAddr
  split <;> simp [arg_ne_env]

@[simp] theorem allBlind_extendLoad (op : LoadOp) : AllBlind (extendLoad op) := by
  cases op <;> simp [extendLoad, signExtend, scratch_ne_env]

theorem blind_divide {x : Helper} (own : x.Blind) (rs rt : RegNum) : Blind (items (s.divide x rs rt)) := by
  have split : items (s.divide x rs rt) =
      items ([s.read (Host.arg 0) (.gpr rs), s.read (Host.arg 1) (.gpr rt)] ++ Code.call x) ++
        items (splitHiLo ++ s.write .hi .scratch2 ++ s.write .lo .scratch0) := by
    simp [divide, items]
  rw [split]
  exact Blind.around (by simp [arg_ne_env]) own (by simp)

theorem blind_mulDiv (op : MulDivOp) (rd rs rt : RegNum) : Blind (items (s.mulDiv op rd rs rt)) := by
  cases op with
  | mult | multu => exact AllBlind.blind (by simp [mulDiv, multiply, scratch_ne_env])
  | div | divu => exact blind_divide (by simp [Helper.Blind]) rs rt

theorem allBlind_fpuMove (op : FpuMoveOp) (rt fs : RegNum) : AllBlind (s.fpuMove op rt fs) := by
  cases op with
  | mfc1 | mtc1 => simp [fpuMove, scratch_ne_env, reaches_fpr]
  | cfc1 =>
    unfold fpuMove
    dsimp only
    split
    · simp [scratch_ne_env]
    · split <;> simp [scratch_ne_env, reaches_fcr31]
  | ctc1 =>
    unfold fpuMove
    dsimp only
    split <;> simp [scratch_ne_env, reaches_fcr31]

/-- The ways out bring home values other than register 0. -/
structure Spares (s : Site) : Prop where
  pre : ∀ m ∈ s.step.flushPre, m.guest ≠ .gpr 0
  post : ∀ m ∈ s.step.flushPost, m.guest ≠ .gpr 0

variable (spares : s.Spares)
include spares

theorem blind_fault (cond : Option Cond) (code : Option ExcCode) : (s.fault cond code).Blind := by
  have record : AllBlind (code.map (fun c => setState Layout.excCode c.toWord)).toList := by
    cases code with
    | none => exact allBlind_nil
    | some c => exact (allBlind_cons _ _).2 ⟨reaches_excCode, allBlind_nil⟩
  have resume : AllBlind [setPc (if s.insn.inDelaySlot then s.insn.addr - 4 else s.insn.addr),
      setState Layout.excDelaySlot (if s.insn.inDelaySlot then 1 else 0)] := by
    simp [setState, reaches_excDelaySlot]
  show Blind _
  rw [items_append, items_append, items_append]
  exact (((allBlind_ofMoves spares.pre).blind.append record.blind).append resume.blind).append (blind_exit _)

theorem blind_skipSlot (cond : Cond) : (s.skipSlot cond).Blind := by
  have resume : AllBlind [setPc (s.insn.addr + 8)] := by simp
  show Blind _
  rw [items_append, items_append]
  exact ((allBlind_ofMoves spares.post).blind.append resume.blind).append (blind_exit _)

theorem blind_modified (cond : Cond) : (s.modified cond).Blind := by
  have resume : AllBlind (if s.insn.inDelaySlot then [] else [setPc (s.insn.addr + 4)]) := by
    split <;> simp
  show Blind _
  rw [items_append, items_append]
  exact ((allBlind_ofMoves spares.post).blind.append resume.blind).append (blind_exit _)

theorem eachBlind_trapIf (traps : Bool) : EachBlind (s.trapIf traps) := by
  unfold trapIf
  split <;> simp [blind_fault spares]

theorem eachBlind_checkFault : EachBlind s.checkFault := by
  simp [checkFault, reaches_faultPending, blind_fault spares]

theorem eachBlind_checkDone : EachBlind s.checkDone := by
  simp [checkDone, blind_fault spares]

theorem eachBlind_checkStore : EachBlind s.checkStore := by
  simp [checkStore, blind_fault spares, blind_modified spares, scratch_ne_env]

theorem eachBlind_alu (op : AluOp) : EachBlind (s.alu op) := by
  cases op <;> simp [alu, signExtend, scratch_ne_env, eachBlind_trapIf spares]

theorem eachBlind_aluImm (op : AluImmOp) (imm : Half) : EachBlind (s.aluImm op imm) := by
  cases op <;> simp [aluImm, signExtend, scratch_ne_env, eachBlind_trapIf spares]

theorem eachBlind_outcome (cond : Cond) (target : Word) (likely : Bool) :
    EachBlind (s.outcome cond target likely) := by
  unfold outcome
  split <;> simp [blind_skipSlot spares, scratch_ne_env, reaches_pc]

theorem blind_load (op : LoadOp) (rt base : RegNum) (off : Half) : Blind (s.load op rt base off) := by
  unfold load
  dsimp only
  split
  · refine Blind.around ?_ (by simp [Helper.Blind]) (eachBlind_checkFault spares)
    simp [envArg, numArg, arg_ne_env]
  · refine (Blind.around ?_ (by simp [Helper.Blind]) (eachBlind_checkFault spares)).append (AllBlind.blind ?_)
    · simp [envArg, arg_ne_env]
    · simp

theorem blind_store {op : StoreOp} (other : op ≠ .sq) (rt base : RegNum) (off : Half) :
    Blind (s.store op rt base off) := by
  have narrow : op.width ≠ .quad := by
    cases op <;> first | exact absurd rfl other | decide
  unfold store
  dsimp only
  rw [if_neg other]
  refine Blind.around ?_ (by simp [Helper.Blind, narrow]) (eachBlind_checkStore spares)
  simp [envArg, arg_ne_env]

/-- The code of an instruction is blind, but for the quadword store and the multimedia instructions, whose helpers
read whole registers. -/
theorem blind_code (narrow : ∀ rt base off, s.insn.insn ≠ .store .sq rt base off)
    (other : ∀ op rd rs rt, s.insn.insn ≠ .mmi op rd rs rt) : Blind s.code := by
  unfold code
  cases hi : s.insn.insn with
  | nop | sync => exact .nil
  | alu op => exact EachBlind.blind (by simp [scratch_ne_env, eachBlind_alu spares])
  | aluImm op => exact EachBlind.blind (by simp [scratch_ne_env, eachBlind_aluImm spares])
  | lui rt imm => exact AllBlind.blind (by simp)
  | shift op rd rt sa =>
    refine AllBlind.blind ?_
    split <;> split <;> simp [signExtend, scratch_ne_env]
  | shiftVar op rd rt sa =>
    refine AllBlind.blind ?_
    split <;> simp [signExtend, scratch_ne_env]
  | mulDiv op rd rs rt => exact blind_mulDiv op rd rs rt
  | hiLo op r => cases op <;> exact AllBlind.blind (by simp [scratch_ne_env])
  | condMove op rd rs rt => exact AllBlind.blind (by simp [scratch_ne_env])
  | load op rt base off => exact blind_load spares op rt base off
  | store op rt base off =>
    refine blind_store spares ?_ rt base off
    rintro rfl
    exact narrow _ _ _ hi
  | branch cond rs rt off likely link =>
    cases link <;> exact EachBlind.blind (by simp [scratch_ne_env, eachBlind_outcome spares])
  | fpuBranch onTrue likely target =>
    exact EachBlind.blind (by simp [reaches_fcr31, eachBlind_outcome spares])
  | jump index link => cases link <;> exact AllBlind.blind (by simp)
  | jumpReg rs link => cases link <;> exact AllBlind.blind (by simp [scratch_ne_env, reaches_pc])
  | syscall | breakpoint | reserved => exact EachBlind.blind (by simp [blind_fault spares])
  | cop0Move op rt rd =>
    cases op with
    | mfc0 =>
      refine (Blind.around ?_ (by simp [Helper.Blind]) (eachBlind_checkFault spares)).append (AllBlind.blind ?_)
      · simp [envArg, numArg, arg_ne_env]
      · simp [signExtend, scratch_ne_env]
    | mtc0 =>
      refine Blind.around ?_ (by simp [Helper.Blind]) (eachBlind_checkDone spares)
      simp [envArg, numArg, arg_ne_env]
  | eret =>
    show Blind (items ([envArg] ++ Code.call .eret) ++ s.checkDone)
    refine Blind.around ?_ (by simp [Helper.Blind]) (eachBlind_checkDone spares)
    simp [envArg, arg_ne_env]
  | ei | di =>
    refine Blind.around ?_ (by simp [Helper.Blind]) (eachBlind_checkDone spares)
    simp [envArg, numArg, arg_ne_env]
  | fpuMove op rt fs => exact (allBlind_fpuMove op rt fs).blind
  | fpuLoad ft base disp =>
    refine (Blind.around ?_ (by simp [Helper.Blind]) (eachBlind_checkFault spares)).append (AllBlind.blind ?_)
    · simp [envArg, arg_ne_env]
    · simp [reaches_fpr]
  | fpuStore ft base disp =>
    refine Blind.around ?_ (by simp [Helper.Blind]) (eachBlind_checkStore spares)
    simp [envArg, arg_ne_env, reaches_fpr]
  | fpuArith | fpuCompare => exact Blind.calls (by simp [envArg, numArg, arg_ne_env]) (by simp [Helper.Blind])
  | mmi op rd rs rt => exact absurd hi (other op rd rs rt)

end Site

end Code

end EmotionEngine
