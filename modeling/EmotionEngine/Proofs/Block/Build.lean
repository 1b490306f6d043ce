import EmotionEngine.Block.Build

/-!
The shape of blocks that the builder makes. A block stays within a page but for a delay slot, so it has
at most 1025 instructions, whatever the limit; and a return from an exception ends it.

Main statements: every block that is built is `Formed` (`build_formed`), and its instructions stand one after
the other from its start, a delay slot after its branch (`build_stands`).
-/

namespace EmotionEngine

/-- Whether the last of some instructions returns from an exception. -/
def endsEret (is : List DecodedInsn) : Bool := (is.getLast?.map DecodedInsn.insn) == some .eret

/-- No instruction follows a return from an exception. -/
def EretLast : List DecodedInsn → Prop
  | [] => True
  | i :: is => (i.insn = .eret → is = []) ∧ EretLast is

theorem endsEret_cons {i : DecodedInsn} (h : i.insn ≠ .eret) (is : List DecodedInsn) :
    endsEret (i :: is) = endsEret is := by
  cases is with
  | nil => simpa [endsEret] using h
  | cons j is => rw [endsEret, endsEret, List.getLast?_cons_cons]

namespace Block

def pageNumbers (b : Block) : List Nat := b.pages.map PageSnapshot.page

/-- A fetch that succeeds finds the word in memory as it is then. -/
theorem Building.fetch_ok {st st' : Building} {addr w : Word} (h : st.fetch addr = (.ok w, st')) :
    st'.mem.fetch addr = .ok w := by
  unfold fetch at h
  dsimp only at h
  split at h
  · obtain ⟨e, rfl⟩ := Prod.mk.inj h
    exact e
  · split at h
    · cases (Prod.mk.inj h).1
    · obtain ⟨e, rfl⟩ := Prod.mk.inj h
      exact e

theorem aligned_of_fetch {m : Memory} {addr w : Word} (h : m.fetch addr = .ok w) :
    addr.toNat % 4 = 0 := by
  unfold Memory.fetch at h
  dsimp only at h
  split at h
  · cases h
  · split at h
    · cases h
    · next e => exact Decidable.not_not.mp e

/-- How many instructions there are from an address to the end of its page. -/
def room (pc : Word) : Nat := (pageSize - pc.toNat % pageSize) / 4

/-- Whether the next instruction could not be fetched. -/
def fetchFailed : Terminator → Bool
  | .fetchFault .. => true
  | _ => false

/-- What holds of a stretch of a block: how many instructions it has, and how it ends. -/
structure Stretch (pc : Word) (is : List DecodedInsn) (t : Terminator) : Prop where
  length : is.length ≤ room pc + 1
  last : EretLast is
  ends : endsEret is = true → fetchFailed t = false

theorem room_pos {pc : Word} (h : pc.toNat % 4 = 0) : 0 < room pc := by
  unfold room
  rw [show pageSize = 4096 from rfl]
  omega

theorem room_next {pc : Word} (h : pc.toNat % 4 = 0) (hn : ¬(pc + 4).toNat % pageSize = 0) :
    (pc + 4).toNat % 4 = 0 ∧ room pc = room (pc + 4) + 1 := by
  have next : (pc + 4).toNat = (pc.toNat + 4) % 4294967296 := BitVec.toNat_add pc 4
  unfold room
  rw [show pageSize = 4096 from rfl] at *
  omega

theorem fetchFailed_classify (i : Insn) : fetchFailed (classify i) = false := by
  cases i with
  | jump index link => cases link <;> rfl
  | jumpReg rs link =>
    cases link with
    | some rd => rfl
    | none =>
      show fetchFailed (if rs = 31 then .ret else .jump) = false
      split <;> rfl
  | branch c rs rt o likely link => cases link <;> rfl
  | _ => rfl

/-- An instruction that does not end its block is no return from an exception. -/
theorem ne_eret_of_endsBlock {i : Insn} (h : ¬i.endsBlock = true) : i ≠ .eret := by
  rintro rfl
  exact h rfl

theorem ne_eret_of_hasDelaySlot {i : Insn} (h : i.hasDelaySlot = true) : i ≠ .eret := by
  rintro rfl
  cases h

theorem stretch_single (pc : Word) {i : DecodedInsn} {t : Terminator}
    (h : i.insn = .eret → fetchFailed t = false) : Stretch pc [i] t := by
  refine ⟨by simp, ⟨fun _ => rfl, trivial⟩, ?_⟩
  intro e
  apply h
  simpa [endsEret] using e

theorem scan_stretch (stops : List Word) (left : Nat) (st : Building) (pc word : Word)
    (aligned : pc.toNat % 4 = 0) :
    Stretch pc (scan stops left st pc word).1 (scan stops left st pc word).2.1 := by
  fun_induction scan stops left st pc word with
  | case1 left st pc word insn here next branch w st' e =>
    have := room_pos aligned
    refine ⟨by simp only [List.length_cons, List.length_nil]; omega, ⟨?_, fun _ => rfl, trivial⟩, ?_⟩
    · exact fun e => absurd e (ne_eret_of_hasDelaySlot branch)
    · exact fun _ => fetchFailed_classify insn
  | case2 => exact ⟨by simp, trivial, by simp [endsEret]⟩
  | case3 left st pc word insn here branch ends => exact stretch_single pc (fun _ => fetchFailed_classify insn)
  | case4 st pc word insn here branch ends => exact stretch_single pc (fun _ => rfl)
  | case5 st pc word insn here next branch ends left pageEnd => exact stretch_single pc (fun _ => rfl)
  | case6 st pc word insn here next branch ends left pageEnd stop => exact stretch_single pc (fun _ => rfl)
  | case7 st pc word insn here next branch ends left pageEnd stop e st' =>
    exact stretch_single pc (fun e => absurd e (ne_eret_of_endsBlock ends))
  | case8 st pc word insn here next branch ends left pageEnd stop w st' e rest t st'' e' ih =>
    obtain ⟨aligned', roomy⟩ := room_next aligned pageEnd
    have s := ih aligned'
    rw [e'] at s
    have ne : here.insn ≠ .eret := ne_eret_of_endsBlock ends
    refine ⟨?_, ⟨fun e => absurd e ne, s.last⟩, ?_⟩
    · have shorter : rest.length ≤ room (pc + 4) + 1 := s.length
      simp only [List.length_cons]
      omega
    · intro h
      apply s.ends
      rwa [endsEret_cons ne] at h

/-- The shape of a block. -/
structure Formed (b : Block) : Prop where
  length : b.insns.length ≤ 1025
  last : EretLast b.insns
  ends : endsEret b.insns = true → fetchFailed b.terminator = false

/-- Every block that is built has this shape. -/
theorem build_formed {mem mem' : Memory} {limit : Nat} {stops : List Word} {entry : Word} {b : Block}
    (h : build mem limit stops entry = (.ok b, mem')) : b.Formed := by
  unfold build at h
  split at h
  · cases (Prod.mk.inj h).1
  · next w st e =>
    have s := scan_stretch stops (max limit 1 - 1) st entry w (aligned_of_fetch (Building.fetch_ok e))
    obtain ⟨e, -⟩ := Prod.mk.inj h
    cases e
    refine ⟨?_, s.last, s.ends⟩
    have := s.length
    have : room entry ≤ 1024 := by
      unfold room
      rw [show pageSize = 4096 from rfl]
      omega
    dsimp only
    omega

/-! ## Places -/

/-- Where the instructions of a stretch stand, and what it lacks if its end could not be fetched. -/
structure Stands (pc : Word) (insns : List DecodedInsn) (t : Terminator) : Prop where
  addr : ∀ (k : Nat) (i : DecodedInsn), insns[k]? = some i → i.addr = pc + BitVec.ofNat 32 (4 * k)
  slot : ∀ (k : Nat) (i : DecodedInsn), insns[k]? = some i → i.inDelaySlot = true →
    ∃ j branch, k = j + 1 ∧ insns[j]? = some branch ∧ branch.insn.hasDelaySlot = true
  unfetched : ∀ addr branchPc, t = .fetchFault addr branchPc →
    let next := pc + BitVec.ofNat 32 (4 * insns.length)
    branchPc = none ∧ addr = next ∨ branchPc = some next ∧ addr = next + 4

theorem stands_single {pc : Word} {i : DecodedInsn} {t : Terminator} (addr : i.addr = pc)
    (plain : i.inDelaySlot = false) (ends : ∀ a p, t = .fetchFault a p → a = pc + 4 ∧ p = none) :
    Stands pc [i] t := by
  refine ⟨?_, ?_, fun a p fault => .inl (ends a p fault).symm⟩
  · rintro (_ | k) j found
    · obtain rfl : i = j := by simpa using found
      simpa using addr
    · simp at found
  · rintro (_ | k) j found inSlot
    · obtain rfl : i = j := by simpa using found
      rw [plain] at inSlot
      cases inSlot
    · simp at found

theorem Stands.cons {pc : Word} {i : DecodedInsn} {rest : List DecodedInsn} {t : Terminator}
    (h : Stands (pc + 4) rest t) (addr : i.addr = pc) (plain : i.inDelaySlot = false) :
    Stands pc (i :: rest) t := by
  have step (k : Nat) : pc + 4 + BitVec.ofNat 32 (4 * k) = pc + BitVec.ofNat 32 (4 * (k + 1)) := by
    rw [Nat.mul_succ, Nat.add_comm, BitVec.ofNat_add, BitVec.add_assoc]
    rfl
  refine ⟨?_, ?_, fun a p fault => ?_⟩
  · rintro (_ | k) j found
    · obtain rfl : i = j := by simpa using found
      simpa using addr
    · rw [← step]
      exact h.addr k j (by simpa using found)
  · rintro (_ | k) j found inSlot
    · obtain rfl : i = j := by simpa using found
      rw [plain] at inSlot
      cases inSlot
    · obtain ⟨n, branch, rfl, owner, branches⟩ := h.slot k j (by simpa using found) inSlot
      exact ⟨n + 1, branch, rfl, by simpa using owner, branches⟩
  · rw [List.length_cons, ← step]
    exact h.unfetched a p fault

theorem scan_stands (stops : List Word) (left : Nat) (st : Building) (pc word : Word) :
    Stands pc (scan stops left st pc word).1 (scan stops left st pc word).2.1 := by
  have classified (i : Insn) (a : Word) (p : Option Word) : classify i ≠ .fetchFault a p := by
    intro fault
    have other := fetchFailed_classify i
    rw [fault] at other
    cases other
  fun_induction scan stops left st pc word with
  | case1 left st pc word insn here next branch w st' fetched =>
    refine ⟨?_, ?_, fun a p fault => absurd fault (classified insn a p)⟩
    · rintro (_ | _ | k) i found
      · obtain rfl : here = i := by simpa using found
        simp [here]
      · obtain rfl : _ = i := Option.some.inj found
        rfl
      · simp at found
    · rintro (_ | _ | k) i found inSlot
      · obtain rfl : here = i := by simpa using found
        cases inSlot
      · exact ⟨0, here, rfl, rfl, branch⟩
      · simp at found
  | case2 left st pc word insn next branch e st' failed =>
    refine ⟨by simp, by simp, ?_⟩
    rintro a p ⟨⟩
    exact .inr (by simp [next])
  | case3 left st pc word insn here branch ends =>
    exact stands_single rfl rfl fun a p fault => absurd fault (classified insn a p)
  | case4 st pc word insn here branch ends => exact stands_single rfl rfl nofun
  | case5 st pc word insn here next branch ends left pageEnd => exact stands_single rfl rfl nofun
  | case6 st pc word insn here next branch ends left pageEnd stop => exact stands_single rfl rfl nofun
  | case7 st pc word insn here next branch ends left pageEnd stop e st' failed =>
    refine stands_single rfl rfl ?_
    rintro a p ⟨⟩
    exact ⟨rfl, rfl⟩
  | case8 st pc word insn here next branch ends left pageEnd stop w st' fetched rest t st'' scanned ih =>
    rw [scanned] at ih
    exact Stands.cons ih rfl rfl

theorem build_stands {mem mem' : Memory} {limit : Nat} {stops : List Word} {entry : Word} {b : Block}
    (built : build mem limit stops entry = (.ok b, mem')) : Stands b.start b.insns b.terminator := by
  unfold build at built
  split at built
  · cases (Prod.mk.inj built).1
  · next w st fetched =>
    have stands := scan_stands stops (max limit 1 - 1) st entry w
    cases (Prod.mk.inj built).1
    exact stands

end Block

end EmotionEngine
