import EmotionEngine.Proofs.Block.Shape

/-!
Where control goes after a block. `Block.successors` is found without running the block; this module shows
that it leaves nothing out.

1. What an instruction does to control can be told from the instruction: one without a delay slot that goes on
   leaves the program counter alone (`Guest.exec_stays`), and a branch that goes on has stored its static
   target or, if it is conditional, the address after its delay slot (`Guest.exec_goes`).
2. A branch is followed by nothing but its delay slot, which leaves the program counter alone. So the branch
   alone decides where a block goes on that has run to its end (`Specified.leave_listed`).
3. Before its end a block is left at a likely branch, which skips its delay slot (`Specified.ended_listed`).
4. The address after the block is left out of the list if the block ends in a jump or a return, which never
   goes there (`goesOn_conditional`, `Specified.goesOn`).

Main statement: `successors_cover`.
-/

namespace EmotionEngine

namespace Insn

/-- Whether it is a branch that may not be taken. -/
def isConditional : Insn → Bool
  | branch .. | fpuBranch .. => true
  | _ => false

def isRegisterJump : Insn → Bool
  | jumpReg .. => true
  | _ => false

theorem hasDelaySlot_of_isConditional {i : Insn} (conditional : i.isConditional = true) : i.hasDelaySlot = true := by
  cases i with
  | branch _ _ _ _ _ _ | fpuBranch _ _ _ => rfl
  | _ => cases conditional

end Insn

/-! ## One instruction -/

namespace Guest

variable (g : Guest)

/-- The instruction does not decide where control goes: if it goes on, it goes on where it was. -/
structure Stays (g : Guest) (r : Flow × Guest) : Prop where
  pc : r.1 = .next → r.2.cpu.pc = g.cpu.pc
  slot : r.1 ≠ .skipDelaySlot

theorem Does.stays {g : Guest} {i : DecodedInsn} {r : Flow × Guest} (does : g.Does i r)
    (plain : i.insn.hasDelaySlot = false) : g.Stays r := by
  cases does with
  | computes made plain => exact ⟨fun _ => made.pc, nofun⟩
  | moves rt v move => exact ⟨fun _ => rfl, nofun⟩
  | goes made pc transfers | skips made transfers => cases plain.symm.trans transfers
  | loads accessed loaded made plain => exact ⟨fun _ => made.pc, nofun⟩
  | stores accessed stored plain => exact ⟨fun _ => rfl, nofun⟩
  | controls cop0 writes plain => exact ⟨fun _ => rfl, nofun⟩
  | _ => exact ⟨nofun, nofun⟩

theorem exec_stays {i : DecodedInsn} (plain : i.insn.hasDelaySlot = false) : g.Stays (g.exec i) :=
  (g.exec_does i).stays plain

theorem execBranch_goes (h : Guest) (pc target : Word) (taken likely : Bool)
    (next : (h.execBranch pc target taken likely).1 = .next) :
    (h.execBranch pc target taken likely).2.cpu.pc = target ∨
      (h.execBranch pc target taken likely).2.cpu.pc = pc + 8 := by
  unfold execBranch at next ⊢
  split
  · exact .inl rfl
  · next untaken =>
    rw [if_neg untaken] at next
    split
    · next skips =>
      rw [if_pos skips] at next
      cases next
    · exact .inr rfl

/-- A branch that goes on, to an address that is told by the branch. -/
theorem exec_goes {i : DecodedInsn} (transfers : i.insn.hasDelaySlot = true) (direct : i.insn.isRegisterJump = false)
    (next : (g.exec i).1 = .next) :
    i.insn.staticTarget i.addr = some (g.exec i).2.cpu.pc ∨
      i.insn.isConditional = true ∧ (g.exec i).2.cpu.pc = i.addr + 8 := by
  have either {target : Word} {h : Guest} {taken likely : Bool}
      (static : i.insn.staticTarget i.addr = some target) (conditional : i.insn.isConditional = true)
      (same : g.exec i = h.execBranch i.addr target taken likely) :
      i.insn.staticTarget i.addr = some (g.exec i).2.cpu.pc ∨
        i.insn.isConditional = true ∧ (g.exec i).2.cpu.pc = i.addr + 8 := by
    rw [same] at next ⊢
    rcases h.execBranch_goes i.addr target taken likely next with goes | goes
    · exact .inl (by rw [static, goes])
    · exact .inr ⟨conditional, goes⟩
  cases hi : i.insn with
  | branch cond rs rt off likely link =>
    rw [← hi]
    exact either (by rw [hi]; rfl) (by rw [hi]; rfl) (by simp only [exec, hi]; rfl)
  | fpuBranch onTrue likely off =>
    rw [← hi]
    exact either (by rw [hi]; rfl) (by rw [hi]; rfl) (by simp only [exec, hi]; rfl)
  | jump index link =>
    simp only [exec, hi]
    exact .inl rfl
  | jumpReg rs link =>
    rw [hi] at direct
    cases direct
  | _ =>
    rw [hi] at transfers
    cases transfers

theorem conditional_of_skips {i : DecodedInsn} (skips : (g.exec i).1 = .skipDelaySlot) :
    i.insn.isConditional = true := by
  cases transfers : i.insn.hasDelaySlot with
  | false => exact absurd skips (g.exec_stays transfers).slot
  | true =>
    cases hi : i.insn with
    | branch _ _ _ _ _ _ | fpuBranch _ _ _ => rfl
    | jump _ _ | jumpReg _ _ =>
      simp only [exec, hi] at skips
      cases skips
    | _ =>
      rw [hi] at transfers
      cases transfers

/-! ## Several instructions -/

theorem execAll_through {xs ys : List DecodedInsn} {g h : Guest} (ran : g.execAll (xs ++ ys) = (none, h)) :
    ∃ between, g.execAll xs = (none, between) ∧ between.execAll ys = (none, h) := by
  induction xs generalizing g with
  | nil => exact ⟨g, rfl, ran⟩
  | cons i rest ih =>
    by_cases next : (g.exec i).1 = .next
    · rw [List.cons_append, g.execAll_next _ next] at ran
      rw [g.execAll_next _ next]
      exact ih ran
    · obtain ⟨exit, ended⟩ := g.execAll_ends (rest ++ ys) next
      rw [List.cons_append, ended] at ran
      cases ran

/-- An instruction that goes on, and those after it. -/
theorem execAll_first {i : DecodedInsn} {rest : List DecodedInsn} {g h : Guest}
    (ran : g.execAll (i :: rest) = (none, h)) :
    (g.exec i).1 = .next ∧ (g.exec i).2.execAll rest = (none, h) := by
  by_cases next : (g.exec i).1 = .next
  · rw [g.execAll_next _ next] at ran
    exact ⟨next, ran⟩
  · obtain ⟨exit, ended⟩ := g.execAll_ends rest next
    rw [ended] at ran
    cases ran

/-- The instruction that ends those that are run: where it stands, and how it ended them. -/
theorem execAll_ended {insns : List DecodedInsn} {g h : Guest} {exit : BlockExit}
    (ended : g.execAll insns = (some exit, h)) :
    ∃ (k : Nat) (i : DecodedInsn) (before : Guest),
      insns[k]? = some i ∧ (before.exec i).1 ≠ .next ∧ before.execAll [i] = (some exit, h) := by
  induction insns generalizing g with
  | nil => cases ended
  | cons i rest ih =>
    by_cases next : (g.exec i).1 = .next
    · rw [g.execAll_next rest next] at ended
      obtain ⟨k, j, before, found, last⟩ := ih ended
      exact ⟨k + 1, j, before, found, last⟩
    · refine ⟨0, i, g, rfl, next, ?_⟩
      rw [← ended]
      unfold execAll
      generalize g.exec i = r at next
      obtain ⟨flow, after⟩ := r
      cases flow with
      | next => exact absurd rfl next
      | _ => rfl

/-- A block whose instructions have all run raises an exception, or goes on where its branch has said or after
it. -/
theorem leave_goes (b : Block) : (g.leave b).1 = .exception ∨
    Block.fetchFailed b.terminator = false ∧
      (g.leave b).2.cpu.pc = if b.branchIndex.isSome then g.cpu.pc else b.stop := by
  unfold leave
  split
  · exact .inl rfl
  · next unfailed =>
    refine .inr ⟨?_, by split <;> rfl⟩
    cases ends : b.terminator with
    | fetchFault addr branchPc => exact absurd ends (unfailed addr branchPc)
    | _ => rfl

end Guest

/-! ## Blocks -/

namespace Block

/-- The branch of a block, which owns the delay slot at its end. -/
def transfer? (b : Block) : Option DecodedInsn := b.branchIndex.bind (b.insns[·]?)

/-- Whether the list of successors has the address after the block. -/
def goesOn : Terminator → Bool
  | .jump | .ret | .fetchFault .. => false
  | _ => true

theorem mem_successors {b : Block} {a : Word} : a ∈ b.successors ↔
    (∃ i, b.transfer? = some i ∧ i.insn.staticTarget i.addr = some a) ∨ goesOn b.terminator = true ∧ a = b.stop := by
  have listed : b.successors = (b.transfer?.elim [] fun i => (i.insn.staticTarget i.addr).toList) ++
      if goesOn b.terminator then [b.stop] else [] := by
    unfold successors transfer?
    cases b.branchIndex.bind (b.insns[·]?) <;> cases b.terminator <;> simp [goesOn]
  rw [listed, List.mem_append]
  cases b.transfer? <;> simp

/-- A conditional branch that is not taken goes on after its delay slot. -/
theorem goesOn_conditional {i : Insn} (conditional : i.isConditional = true) : goesOn (classify i) = true := by
  cases i with
  | branch cond rs rt off likely link => cases link <;> rfl
  | fpuBranch onTrue likely off => rfl
  | _ => cases conditional

/-- An instruction without a delay slot that ends a block goes on after it, unless it returns from an
exception. -/
theorem goesOn_plain {i : Insn} (plain : i.hasDelaySlot = false) (other : i ≠ .eret) : goesOn (classify i) = true := by
  cases i with
  | branch _ _ _ _ _ _ | fpuBranch _ _ _ | jump _ _ | jumpReg _ _ => cases plain
  | eret => exact absurd rfl other
  | _ => rfl

section
variable {mem mem' : Memory} {limit : Nat} {stops : List Word} {entry : Word} {b : Block}
  (specified : Specified mem limit stops entry b mem')
include specified

/-- A branch stands before its delay slot at the end of the block, and the block ends as it says. -/
theorem Specified.branch {k : Nat} {i : DecodedInsn} (found : b.insns[k]? = some i)
    (transfers : i.insn.hasDelaySlot = true) :
    k + 2 = b.insns.length ∧ i.addr + 8 = b.stop ∧ b.terminator = classify i.insn := by
  have ends := endsBlock_of_hasDelaySlot transfers
  have place := specified.ends k i found ends
  rw [if_pos transfers] at place
  refine ⟨place, ?_, ?_⟩
  · rw [specified.addr k i found, specified.stop, ← place, Nat.mul_add, BitVec.ofNat_add, ← BitVec.add_assoc]
    rfl
  · have own : i ∈ b.insns := List.mem_of_getElem? found
    have ending := specified.ending
    generalize b.terminator = t at ending
    cases ending with
    | ends j member apart ends' =>
      -- The instruction that decides how the block ends is no other: it would be the delay slot.
      obtain ⟨n, at'⟩ := List.mem_iff_getElem?.1 member
      have place' := specified.ends n j at' ends'
      split at place'
      · obtain rfl : n = k := by omega
        rw [found] at at'
        rw [Option.some.inj at']
      · have slot := (specified.slot n j at').2 ⟨k, i, by omega, found, transfers⟩
        rw [slot] at apart
        cases apart
    | limit goes => exact absurd ends (by rw [goes i own]; decide)
    | pageEnd _ goes => exact absurd ends (by rw [goes i own]; decide)
    | stop _ goes => exact absurd ends (by rw [goes i own]; decide)
    | fault goes => exact absurd ends (by rw [goes i own]; decide)

theorem Specified.transfer (owns : b.branchIndex.isSome = true) :
    ∃ before i s, b.insns = before ++ [i, s] ∧ b.transfer? = some i ∧ i.insn.hasDelaySlot = true ∧
      s.insn.hasDelaySlot = false := by
  unfold transfer?
  unfold branchIndex at owns ⊢
  cases last : b.insns.getLast? with
  | none =>
    rw [last] at owns
    cases owns
  | some s =>
    simp only [last] at owns ⊢
    split at owns
    · next slot =>
      obtain ⟨inSlot, two⟩ := Bool.and_eq_true_iff.1 slot
      rw [if_pos slot]
      rw [List.getLast?_eq_getElem?] at last
      obtain ⟨j, i, place, found, transfers⟩ := (specified.slot _ s last).1 inSlot
      have two : 2 ≤ b.insns.length := of_decide_eq_true two
      obtain rfl : j = b.insns.length - 2 := by omega
      refine ⟨b.insns.take (b.insns.length - 2), i, s, ?_, found, transfers, ?_⟩
      · conv => lhs; rw [← List.take_append_drop (b.insns.length - 2) b.insns]
        rw [List.drop_eq_getElem?_toList_append, found, show b.insns.length - 2 + 1 = b.insns.length - 1 by omega,
          List.drop_eq_getElem?_toList_append, last, List.drop_eq_nil_of_le (by omega)]
        rfl
      · have words := (specified.words s (List.mem_of_getElem? last)).2
        rw [words, if_pos inSlot]
        exact hasDelaySlot_slotInsn s.word
    · cases owns

/-- The block goes on after it wherever nothing says that control never gets there. -/
theorem Specified.goesOn (unowned : b.branchIndex.isSome = false) (returns : endsEret b.insns = false)
    (fetched : fetchFailed b.terminator = false) : Block.goesOn b.terminator = true := by
  have ending := specified.ending
  generalize b.terminator = t at ending fetched
  cases ending with
  | limit | pageEnd | stop => rfl
  | fault => cases fetched
  | ends i own apart ends =>
    obtain ⟨k, found⟩ := List.mem_iff_getElem?.1 own
    have place := specified.ends k i found ends
    cases transfers : i.insn.hasDelaySlot with
    | false =>
      rw [transfers] at place
      refine goesOn_plain transfers ?_
      rintro eret
      have last : b.insns.getLast? = some i := by
        rw [List.getLast?_eq_getElem?, ← place]
        exact found
      rw [endsEret, last] at returns
      simp [eret] at returns
    | true =>
      -- The delay slot of a branch is there, and it would be owned.
      rw [transfers, if_pos rfl] at place
      have slot : k + 1 < b.insns.length := by omega
      have inSlot := (specified.slot (k + 1) _ (List.getElem?_eq_getElem slot)).2 ⟨k, i, rfl, found, transfers⟩
      have last : b.insns.getLast? = some b.insns[k + 1] := by
        rw [List.getLast?_eq_getElem?, ← place]
        exact List.getElem?_eq_getElem slot
      unfold branchIndex at unowned
      rw [last] at unowned
      simp [inSlot, ← place] at unowned

/-- Where control goes from a block whose instructions have all run. -/
theorem Specified.leave_listed {g h : Guest} (ran : g.execAll b.insns = (none, h))
    (direct : ∀ i, b.transfer? = some i → i.insn.isRegisterJump = false) (returns : endsEret b.insns = false)
    (quiet : (h.leave b).1 ≠ .exception) : (h.leave b).2.cpu.pc ∈ b.successors := by
  rw [mem_successors]
  rcases h.leave_goes b with raised | ⟨fetched, goes⟩
  · exact absurd raised quiet
  · rw [goes]
    by_cases owns : b.branchIndex.isSome = true
    · rw [if_pos owns]
      obtain ⟨before, i, s, insns, transfers, branches, plain⟩ := specified.transfer owns
      have found : b.insns[before.length]? = some i := by simp [insns]
      obtain ⟨-, after, ends⟩ := specified.branch found branches
      rw [insns] at ran
      obtain ⟨entered, -, last⟩ := Guest.execAll_through ran
      obtain ⟨next, slot⟩ := Guest.execAll_first last
      obtain ⟨next', done⟩ := Guest.execAll_first slot
      -- The delay slot leaves the program counter as the branch stored it.
      have kept : h.cpu.pc = (entered.exec i).2.cpu.pc := by
        rw [← ((entered.exec i).2.exec_stays plain).pc next', (Prod.mk.inj done).2]
      rcases entered.exec_goes branches (direct i transfers) next with static | ⟨conditional, untaken⟩
      · exact .inl ⟨i, transfers, by rw [static, kept]⟩
      · refine .inr ⟨?_, by rw [kept, untaken, after]⟩
        rw [ends]
        exact goesOn_conditional conditional
    · rw [if_neg owns]
      exact .inr ⟨specified.goesOn (Bool.eq_false_iff.2 owns) returns fetched, rfl⟩

/-- Where control goes from a block that an instruction of it ends, unless that raises an exception or writes
over the block. -/
theorem Specified.ended_listed {g h : Guest} {exit : BlockExit} (ended : g.execAll b.insns = (some exit, h))
    (returns : endsEret b.insns = false) (quiet : exit ≠ .exception) (current : exit ≠ .codeModified) :
    h.cpu.pc ∈ b.successors := by
  obtain ⟨k, i, before, found, ends, last⟩ := Guest.execAll_ended ended
  have skips := before.conditional_of_skips (i := i)
  have redirects := (before.exec_proceeds i).redirect
  unfold Guest.execAll at last
  generalize before.exec i = r at ends last skips redirects
  obtain ⟨flow, after⟩ := r
  cases flow with
  | next => exact absurd rfl ends
  | fault code => exact absurd (Option.some.inj (Prod.mk.inj last).1).symm quiet
  | codeModified => exact absurd (Option.some.inj (Prod.mk.inj last).1).symm current
  | skipDelaySlot =>
    -- A likely branch that is not taken goes on after the delay slot that it skips.
    obtain ⟨-, stop, terminator⟩ :=
      specified.branch found (Insn.hasDelaySlot_of_isConditional (skips rfl))
    rw [← (Prod.mk.inj last).2, mem_successors]
    refine .inr ⟨?_, stop⟩
    rw [terminator]
    exact goesOn_conditional (skips rfl)
  | redirect =>
    have eret := redirects rfl
    have place := specified.ends k i found (by rw [eret]; rfl)
    rw [eret] at place
    have final : b.insns.getLast? = some i := by
      rw [List.getLast?_eq_getElem?, ← place]
      exact found
    rw [endsEret, final] at returns
    simp [eret] at returns

end

/-- What a block lists as its successors is where control goes when it has run: to the static target of its
branch, or on after it. -/
theorem successors_cover {mem mem' : Memory} {limit : Nat} {stops : List Word} {entry : Word} {b : Block}
    (built : build mem limit stops entry = (.ok b, mem')) :
    (∀ g : Guest, (∀ i, b.transfer? = some i → i.insn.isRegisterJump = false) → endsEret b.insns = false →
      (b.run g).1 = .fallthrough ∨ (b.run g).1 = .branch ∨ (b.run g).1 = .interrupt →
        (b.run g).2.cpu.pc ∈ b.successors) ∧
      ∀ a ∈ b.successors, a ≠ b.stop → ∃ i, b.transfer? = some i ∧ i.insn.staticTarget i.addr = some a := by
  have specified := build_ok_specified built
  refine ⟨fun g direct returns exits => ?_, fun a listed other => ?_⟩
  · have quiet : (b.run g).1 ≠ .exception := by
      rintro exit
      simp [exit] at exits
    have current : (b.run g).1 ≠ .codeModified := by
      rintro exit
      simp [exit] at exits
    unfold run at quiet current ⊢
    generalize ran : (g.enter b).execAll b.insns = r at quiet current ⊢
    obtain ⟨_ | exit, h⟩ := r
    · exact specified.leave_listed ran direct returns quiet
    · exact specified.ended_listed ran returns quiet current
  · exact (mem_successors.1 listed).resolve_right fun after => other after.2

/-- A page of RAM with a loop: a branch back to itself, and a delay slot that counts down. -/
def countdownGuest : Guest :=
  let mem := (Memory.empty 4096).withRam 0 4096
  { cpu := { Cpu.new with pc := 0 }
    mem := ((mem.write .word 0 0x1420FFFF).2.write .word 4 0x2421FFFF).2 }

def countdownBlock : Block :=
  { start := 0
    stop := 8
    insns := [plainAt 0 0x1420FFFF, slotAt 4 0x2421FFFF]
    terminator := .branch
    pages := [{ page := 0, version := 0 }] }

/-- It goes back while the register counts down, and on when it is zero; both are listed. -/
theorem successors_cover_countdown :
    ∃ mem, build countdownGuest.mem 512 [] 0 = (.ok countdownBlock, mem) ∧
      let more : Guest := { cpu := countdownGuest.cpu.setReg 1 2, mem }
      let done : Guest := { cpu := countdownGuest.cpu, mem }
      (countdownBlock.run more).2.cpu.pc = 0 ∧ (countdownBlock.run more).2.cpu.pc ∈ countdownBlock.successors ∧
        (countdownBlock.run done).2.cpu.pc = 8 ∧ (countdownBlock.run done).2.cpu.pc ∈ countdownBlock.successors ∧
        ∃ i, countdownBlock.transfer? = some i ∧ i.insn.staticTarget i.addr = some 0 := by
  have built := eq_ok_of_toOption (r := build countdownGuest.mem 512 [] 0) (b := countdownBlock) (by decide +kernel)
  have covered := successors_cover built
  refine ⟨_, built, by decide +kernel, ?_, by decide +kernel, ?_, covered.2 0 (by decide +kernel) (by decide +kernel)⟩
  · exact covered.1 _ (by decide +kernel) (by decide +kernel) (by decide +kernel)
  · exact covered.1 _ (by decide +kernel) (by decide +kernel) (by decide +kernel)

end Block

end EmotionEngine
