import EmotionEngine.Proofs.Block.Units
import EmotionEngine.Proofs.Machine.Breakpoints

/-!
What the builder builds. Given memory, a limit, stops and an entry, there is one block to build, and
`Specified` says which.

1. The instructions and the end of a block can be told from memory as it is before (`Gathered`), because
   marking pages changes no contents. What is said of them is then shown along that relation, with one case
   for each way in which a block may end.
2. A block stays on the page of its entry, so the only fetch that can fail is that of a delay slot at the
   start of the next page (`Ending.fault`).
3. The builder marks the pages it fetched from, one or two, and changes nothing else (`Marks`).

Main statement: `build_specified`.
-/

namespace EmotionEngine

namespace Memory

/-- A word can be fetched from RAM and ROM, at aligned addresses. -/
theorem fetch_eq_error {m : Memory} {addr : Word} {e : MemError} :
    m.fetch addr = .error e ↔ e = .invalidAddress addr ∧
      (addr.toNat % 4 ≠ 0 ∨ m.page? (pageOf (virtToPhys addr)) = none) := by
  unfold fetch
  dsimp only
  cases m.page? (pageOf (virtToPhys addr)) with
  | none => simp [eq_comm]
  | some entry =>
    dsimp only
    split
    · next misaligned => simp [misaligned, eq_comm]
    · next aligned => simp [aligned]

end Memory

namespace Block

/-! ## The instructions and the end -/

/-- The instructions from `pc` on, as the builder takes them from memory with `left` more to follow, and how
the block ends. -/
inductive Gathered (mem : Memory) (stops : List Word) : Nat → Word → List DecodedInsn → Terminator → Prop where
  /-- A branch is taken together with its delay slot. -/
  | branch {left : Nat} {pc word w : Word} (fetched : mem.fetch pc = .ok word)
    (transfers : (Insn.decode word).hasDelaySlot = true) (slot : mem.fetch (pc + 4) = .ok w) :
    Gathered mem stops left pc [plainAt pc word, slotAt (pc + 4) w] (classify (Insn.decode word))
  /-- The delay slot cannot be fetched, and the branch is left out. -/
  | cut {left : Nat} {pc word : Word} (fetched : mem.fetch pc = .ok word)
    (transfers : (Insn.decode word).hasDelaySlot = true)
    (unmapped : mem.page? (pageOf (virtToPhys (pc + 4))) = none) :
    Gathered mem stops left pc [] (.fetchFault (pc + 4) (some pc))
  | ender {left : Nat} {pc word : Word} (fetched : mem.fetch pc = .ok word)
    (plain : (Insn.decode word).hasDelaySlot = false) (ends : (Insn.decode word).endsBlock = true) :
    Gathered mem stops left pc [plainAt pc word] (classify (Insn.decode word))
  | limit {pc word : Word} (fetched : mem.fetch pc = .ok word) (goes : (Insn.decode word).endsBlock = false) :
    Gathered mem stops 0 pc [plainAt pc word] .limit
  | pageEnd {left : Nat} {pc word : Word} (fetched : mem.fetch pc = .ok word)
    (goes : (Insn.decode word).endsBlock = false) (last : (pc + 4).toNat % pageSize = 0) :
    Gathered mem stops (left + 1) pc [plainAt pc word] .pageEnd
  | stop {left : Nat} {pc word : Word} (fetched : mem.fetch pc = .ok word)
    (goes : (Insn.decode word).endsBlock = false) (inside : (pc + 4).toNat % pageSize ≠ 0)
    (listed : pc + 4 ∈ stops) : Gathered mem stops (left + 1) pc [plainAt pc word] .limit
  | more {left : Nat} {pc word : Word} {rest : List DecodedInsn} {t : Terminator}
    (fetched : mem.fetch pc = .ok word) (goes : (Insn.decode word).endsBlock = false)
    (inside : (pc + 4).toNat % pageSize ≠ 0) (free : pc + 4 ∉ stops)
    (gathered : Gathered mem stops left (pc + 4) rest t) :
    Gathered mem stops (left + 1) pc (plainAt pc word :: rest) t

/-- The physical page of an address depends on its page alone. -/
theorem pageOf_virtToPhys (addr : Word) : pageOf (virtToPhys addr) = pageOf addr.toNat % pageCount := by
  show addr.toNat % 536870912 / 4096 = addr.toNat / 4096 % 131072
  omega

/-- The address after an aligned one is on the same page, if it does not start a page. -/
theorem page_same {pc : Word} (aligned : pc.toNat % 4 = 0) (inside : (pc + 4).toNat % pageSize ≠ 0) :
    pageOf (pc + 4).toNat = pageOf pc.toNat := by
  have next : (pc + 4).toNat = (pc.toNat + 4) % 4294967296 := BitVec.toNat_add pc 4
  change (pc + 4).toNat % 4096 ≠ 0 at inside
  show (pc + 4).toNat / 4096 = pc.toNat / 4096
  omega

theorem endsBlock_of_hasDelaySlot {i : Insn} (transfers : i.hasDelaySlot = true) : i.endsBlock = true := by
  cases i with
  | branch _ _ _ _ _ _ => rfl
  | jump _ _ => rfl
  | jumpReg _ _ => rfl
  | fpuBranch _ _ _ => rfl
  | _ => cases transfers

theorem plain_of_goes {i : Insn} (goes : i.endsBlock = false) : i.hasDelaySlot = false := by
  by_contra transfers
  rw [endsBlock_of_hasDelaySlot (Bool.eq_true_of_not_eq_false transfers)] at goes
  cases goes

theorem hasDelaySlot_of_allowed {i : Insn} (allowed : i.allowedInDelaySlot = true) : i.hasDelaySlot = false := by
  cases i with
  | branch _ _ _ _ _ _ => cases allowed
  | jump _ _ => cases allowed
  | jumpReg _ _ => cases allowed
  | fpuBranch _ _ _ => cases allowed
  | _ => rfl

theorem hasDelaySlot_slotInsn (w : Word) : (slotInsn w).hasDelaySlot = false := by
  unfold slotInsn
  dsimp only
  split
  · next allowed => exact hasDelaySlot_of_allowed allowed
  · rfl

/-- Nothing but the delay slot of a branch can be missing: the rest is on the page of the entry. -/
theorem scan_gathered {mem : Memory} (stops : List Word) (left : Nat) (st : Building) (pc word : Word)
    (contents : mem.SameContents st.mem) (fetched : mem.fetch pc = .ok word) :
    Gathered mem stops left pc (scan stops left st pc word).1 (scan stops left st pc word).2.1 := by
  have aligned := aligned_of_fetch fetched
  have next {st : Building} (contents : mem.SameContents st.mem) (addr : Word) :
      (st.fetch addr).1 = mem.fetch addr := by
    rw [(st.fetch_contents addr).1, contents.fetch]
  fun_induction scan stops left st pc word with
  | case1 left st pc word insn here addr branch w st' slot =>
    have same := next contents addr
    rw [slot] at same
    exact .branch fetched branch same.symm
  | case2 left st pc word insn addr branch e st' failed =>
    have same := next contents addr
    rw [failed] at same
    obtain ⟨-, misaligned | unmapped⟩ := Memory.fetch_eq_error.1 same.symm
    · have sum : addr.toNat = (pc.toNat + 4) % 4294967296 := BitVec.toNat_add pc 4
      omega
    · exact .cut fetched branch unmapped
  | case3 left st pc word insn here plain ends => exact .ender fetched (Bool.eq_false_iff.2 plain) ends
  | case4 st pc word insn here plain goes => exact .limit fetched (Bool.eq_false_iff.2 goes)
  | case5 st pc word insn here addr plain goes left pageEnd =>
    exact .pageEnd fetched (Bool.eq_false_iff.2 goes) pageEnd
  | case6 st pc word insn here addr plain goes left inside stop =>
    exact .stop fetched (Bool.eq_false_iff.2 goes) inside (List.contains_iff_mem.1 stop)
  | case7 st pc word insn here addr plain goes left inside stop e st' failed =>
    -- The page holds the instruction before, so it is mapped.
    have same := next contents addr
    rw [failed] at same
    obtain ⟨aligned', -⟩ := room_next aligned inside
    obtain ⟨-, misaligned | unmapped⟩ := Memory.fetch_eq_error.1 same.symm
    · exact absurd aligned' misaligned
    · rw [pageOf_virtToPhys, page_same aligned inside, ← pageOf_virtToPhys] at unmapped
      rw [Memory.fetch_eq_error.2 ⟨rfl, .inr unmapped⟩] at fetched
      cases fetched
  | case8 st pc word insn here addr plain goes left inside stop w st' found rest t st'' scanned ih =>
    have same := next contents addr
    have contents' := contents.trans (st.fetch_contents addr).2
    rw [found] at same contents'
    have gathered := ih contents' same.symm (room_next aligned inside).1
    rw [scanned] at gathered
    exact .more fetched (Bool.eq_false_iff.2 goes) inside
      (fun mem => stop (List.contains_iff_mem.2 mem)) gathered

namespace Gathered

variable {mem : Memory} {stops : List Word} {left : Nat} {pc : Word} {is : List DecodedInsn} {t : Terminator}

/-- Every word is what memory has at its address, and the instruction is what the word says. -/
theorem words (h : Gathered mem stops left pc is t) : ∀ i ∈ is, mem.fetch i.addr = .ok i.word ∧
    i.insn = if i.inDelaySlot then slotInsn i.word else Insn.decode i.word := by
  have plain {pc word : Word} (fetched : mem.fetch pc = .ok word) (i : DecodedInsn) (same : i = plainAt pc word) :
      mem.fetch i.addr = .ok i.word ∧ i.insn = if i.inDelaySlot then slotInsn i.word else Insn.decode i.word := by
    rw [same]
    exact ⟨fetched, rfl⟩
  induction h with
  | branch fetched _ slot =>
    intro i mem
    obtain same | same : i = _ ∨ i = _ := by simpa using mem
    · exact plain fetched i same
    · rw [same]
      exact ⟨slot, rfl⟩
  | cut => exact fun i mem => absurd mem List.not_mem_nil
  | ender fetched => exact fun i mem => plain fetched i (List.mem_singleton.1 mem)
  | limit fetched => exact fun i mem => plain fetched i (List.mem_singleton.1 mem)
  | pageEnd fetched => exact fun i mem => plain fetched i (List.mem_singleton.1 mem)
  | stop fetched => exact fun i mem => plain fetched i (List.mem_singleton.1 mem)
  | more fetched _ _ _ _ ih =>
    intro i mem
    rcases List.mem_cons.1 mem with same | mem
    · exact plain fetched i same
    · exact ih i mem

end Gathered

/-- Where instructions may stand that end a block, and which one is in a delay slot. -/
structure Placed (is : List DecodedInsn) : Prop where
  ends : ∀ (k : Nat) (i : DecodedInsn), is[k]? = some i → i.insn.endsBlock = true →
    k + (if i.insn.hasDelaySlot then 2 else 1) = is.length
  slot : ∀ (k : Nat) (i : DecodedInsn), is[k]? = some i → (i.inDelaySlot = true ↔
    ∃ j branch, k = j + 1 ∧ is[j]? = some branch ∧ branch.insn.hasDelaySlot = true)

theorem placed_single {i : DecodedInsn} (plain : i.insn.hasDelaySlot = false) (apart : i.inDelaySlot = false) :
    Placed [i] := by
  constructor
  · rintro (_ | k) j found _
    · obtain rfl : i = j := by simpa using found
      simp [plain]
    · simp at found
  · rintro (_ | k) j found
    · obtain rfl : i = j := by simpa using found
      simp [apart]
    · simp at found

theorem Placed.cons {rest : List DecodedInsn} (h : Placed rest) {i : DecodedInsn}
    (goes : i.insn.endsBlock = false) (apart : i.inDelaySlot = false) : Placed (i :: rest) := by
  constructor
  · rintro (_ | k) j found ends
    · obtain rfl : i = j := by simpa using found
      rw [goes] at ends
      cases ends
    · rw [List.length_cons, ← h.ends k j found ends]
      omega
  · rintro (_ | k) j found
    · obtain rfl : i = j := by simpa using found
      simp [apart]
    · rw [h.slot k j found]
      constructor
      · rintro ⟨n, branch, rfl, before, transfers⟩
        exact ⟨n + 1, branch, rfl, before, transfers⟩
      · rintro ⟨n, branch, same, before, transfers⟩
        obtain rfl : n = k := by omega
        cases n with
        | zero =>
          obtain rfl : i = branch := by simpa using before
          rw [endsBlock_of_hasDelaySlot transfers] at goes
          cases goes
        | succ n => exact ⟨n, branch, rfl, before, transfers⟩

theorem Placed.slot_last {is : List DecodedInsn} (h : Placed is) {k : Nat} {i : DecodedInsn} (found : is[k]? = some i)
    (slot : i.inDelaySlot = true) : k + 1 = is.length := by
  obtain ⟨j, branch, rfl, before, transfers⟩ := (h.slot k i found).1 slot
  have ends := h.ends j branch before (endsBlock_of_hasDelaySlot transfers)
  rwa [if_pos transfers] at ends

/-- How a stretch ends that starts at `pc`, with `left` more to follow its first instruction, and goes up to
`stop`. -/
inductive Ending (mem : Memory) (stops : List Word) (left : Nat) (pc : Word) (is : List DecodedInsn)
    (stop : Word) : Terminator → Prop where
  /-- At an instruction that ends a block, which is the last one but for its delay slot. -/
  | ends (i : DecodedInsn) (own : i ∈ is) (apart : i.inDelaySlot = false) (ends : i.insn.endsBlock = true) :
    Ending mem stops left pc is stop (classify i.insn)
  /-- When there are as many instructions as there may be. -/
  | limit (goes : ∀ i ∈ is, i.insn.endsBlock = false) (full : is.length = left + 1) :
    Ending mem stops left pc is stop .limit
  /-- At the end of the page, before the limit. -/
  | pageEnd (filled : is ≠ []) (goes : ∀ i ∈ is, i.insn.endsBlock = false) (few : is.length ≤ left)
    (last : stop.toNat % pageSize = 0) : Ending mem stops left pc is stop .pageEnd
  /-- Before a stop, which is neither at the limit nor at the end of the page. -/
  | stop (filled : is ≠ []) (goes : ∀ i ∈ is, i.insn.endsBlock = false) (few : is.length ≤ left)
    (inside : stop.toNat % pageSize ≠ 0) (listed : stop ∈ stops) : Ending mem stops left pc is stop .limit
  /-- Before a branch whose delay slot starts a page that is not mapped. -/
  | fault (goes : ∀ i ∈ is, i.insn.endsBlock = false) (few : is.length ≤ left)
    (free : is = [] ∨ stop ∉ stops) (page : pageOf stop.toNat = pageOf pc.toNat) {word : Word}
    (fetched : mem.fetch stop = .ok word) (transfers : (Insn.decode word).hasDelaySlot = true)
    (last : (stop + 4).toNat % pageSize = 0)
    (unmapped : mem.page? (pageOf (virtToPhys (stop + 4))) = none) :
    Ending mem stops left pc is stop (.fetchFault (stop + 4) (some stop))

theorem Ending.cons {mem : Memory} {stops : List Word} {left : Nat} {pc stop : Word} {rest : List DecodedInsn}
    {t : Terminator} {i : DecodedInsn} (h : Ending mem stops left (pc + 4) rest stop t)
    (goes : i.insn.endsBlock = false) (free : pc + 4 ∉ stops) (page : pageOf (pc + 4).toNat = pageOf pc.toNat)
    (first : rest = [] → stop = pc + 4) : Ending mem stops (left + 1) pc (i :: rest) stop t := by
  have all (later : ∀ j ∈ rest, j.insn.endsBlock = false) : ∀ j ∈ i :: rest, j.insn.endsBlock = false := by
    intro j mem
    rcases List.mem_cons.1 mem with rfl | mem
    · exact goes
    · exact later j mem
  cases h with
  | ends j mem apart ends => exact .ends j (List.mem_cons_of_mem _ mem) apart ends
  | limit later full => exact .limit (all later) (congrArg (· + 1) full)
  | pageEnd _ later few last => exact .pageEnd (List.cons_ne_nil _ _) (all later) (Nat.succ_le_succ few) last
  | stop _ later few inside listed =>
    exact .stop (List.cons_ne_nil _ _) (all later) (Nat.succ_le_succ few) inside listed
  | fault later few free' page' fetched transfers last unmapped =>
    refine .fault (all later) (Nat.succ_le_succ few) (.inr ?_) (page'.trans page) fetched transfers last unmapped
    rcases free' with empty | free'
    · rw [first empty]
      exact free
    · exact free'

/-- What is known of a stretch that ends in a failed fetch. -/
theorem Ending.of_fault {mem : Memory} {stops : List Word} {left : Nat} {pc stop : Word} {is : List DecodedInsn}
    {addr : Word} {branchPc : Option Word} (h : Ending mem stops left pc is stop (.fetchFault addr branchPc)) :
    branchPc = some stop ∧ addr = stop + 4 ∧ pageOf stop.toNat = pageOf pc.toNat ∧ addr.toNat % pageSize = 0 ∧
      mem.page? (pageOf (virtToPhys addr)) = none ∧
      ∃ word, mem.fetch stop = .ok word ∧ (Insn.decode word).hasDelaySlot = true := by
  generalize same : Terminator.fetchFault addr branchPc = t at h
  cases h with
  | ends i =>
    have other := fetchFailed_classify i.insn
    rw [← same] at other
    cases other
  | limit => cases same
  | pageEnd => cases same
  | stop => cases same
  | fault _ _ _ page fetched transfers last unmapped =>
    cases same
    exact ⟨rfl, rfl, page, last, unmapped, _, fetched, transfers⟩

/-- Nothing but a failed fetch leaves a stretch without instructions. -/
theorem Ending.of_empty {mem : Memory} {stops : List Word} {left : Nat} {pc stop : Word} {t : Terminator}
    (h : Ending mem stops left pc [] stop t) : t = .fetchFault (stop + 4) (some stop) := by
  cases h with
  | ends i own => exact absurd own List.not_mem_nil
  | limit goes full => cases full
  | pageEnd filled => exact absurd rfl filled
  | stop filled => exact absurd rfl filled
  | fault => rfl

def body (is : List DecodedInsn) : List DecodedInsn := is.filter (fun i => !i.inDelaySlot)

namespace Gathered

variable {mem : Memory} {stops : List Word} {left : Nat} {pc : Word} {is : List DecodedInsn} {t : Terminator}

theorem placed (h : Gathered mem stops left pc is t) : Placed is := by
  induction h with
  | @branch left pc word w fetched transfers slot =>
    have slotPlain := hasDelaySlot_slotInsn w
    constructor
    · rintro (_ | _ | k) i found ends
      · obtain rfl : plainAt pc word = i := Option.some.inj found
        simp [plainAt, transfers]
      · obtain rfl : slotAt (pc + 4) w = i := Option.some.inj found
        simp [slotAt, slotPlain]
      · simp at found
    · rintro (_ | _ | k) i found
      · obtain rfl : plainAt pc word = i := Option.some.inj found
        simp [plainAt]
      · obtain rfl : slotAt (pc + 4) w = i := Option.some.inj found
        exact iff_of_true rfl ⟨0, plainAt pc word, rfl, rfl, transfers⟩
      · simp at found
  | cut => exact ⟨by simp, by simp⟩
  | ender _ plain => exact placed_single plain rfl
  | limit _ goes => exact placed_single (plain_of_goes goes) rfl
  | pageEnd _ goes => exact placed_single (plain_of_goes goes) rfl
  | stop _ goes => exact placed_single (plain_of_goes goes) rfl
  | more _ goes _ _ _ ih => exact ih.cons goes rfl

/-- The limit counts the instructions in no delay slot. -/
theorem few (h : Gathered mem stops left pc is t) : (body is).length ≤ left + 1 := by
  induction h with
  | branch => exact Nat.succ_le_succ (Nat.zero_le _)
  | cut => exact Nat.zero_le _
  | ender => exact Nat.succ_le_succ (Nat.zero_le _)
  | limit => exact Nat.le_refl _
  | pageEnd => exact Nat.succ_le_succ (Nat.zero_le _)
  | stop => exact Nat.succ_le_succ (Nat.zero_le _)
  | more _ _ _ _ _ ih => exact Nat.succ_le_succ ih

theorem page (h : Gathered mem stops left pc is t) :
    ∀ i ∈ is, i.inDelaySlot = false → pageOf i.addr.toNat = pageOf pc.toNat := by
  have single {pc word : Word} (i : DecodedInsn) (mem : i ∈ [plainAt pc word]) :
      pageOf i.addr.toNat = pageOf pc.toNat := by
    rw [List.mem_singleton.1 mem]
    rfl
  induction h with
  | branch =>
    intro i mem apart
    obtain same | same : i = _ ∨ i = _ := by simpa using mem
    · rw [same]
      rfl
    · rw [same] at apart
      cases apart
  | cut => exact fun i mem => absurd mem List.not_mem_nil
  | ender => exact fun i mem _ => single i mem
  | limit => exact fun i mem _ => single i mem
  | pageEnd => exact fun i mem _ => single i mem
  | stop => exact fun i mem _ => single i mem
  | more fetched _ inside _ _ ih =>
    intro i mem apart
    rcases List.mem_cons.1 mem with same | mem
    · rw [same]
      rfl
    · rw [ih i mem apart, page_same (aligned_of_fetch fetched) inside]

theorem ending (h : Gathered mem stops left pc is t) :
    Ending mem stops left pc is (pc + BitVec.ofNat 32 (4 * is.length)) t := by
  have single {pc word : Word} (goes : (Insn.decode word).endsBlock = false) (i : DecodedInsn)
      (mem : i ∈ [plainAt pc word]) : i.insn.endsBlock = false := by
    rw [List.mem_singleton.1 mem]
    exact goes
  induction h with
  | branch fetched transfers => exact .ends _ List.mem_cons_self rfl (endsBlock_of_hasDelaySlot transfers)
  | @cut left pc word fetched transfers unmapped =>
    have here : pc + BitVec.ofNat 32 (4 * ([] : List DecodedInsn).length) = pc := BitVec.add_zero pc
    have last : (pc + 4).toNat % pageSize = 0 := by
      by_contra inside
      rw [pageOf_virtToPhys, page_same (aligned_of_fetch fetched) inside, ← pageOf_virtToPhys] at unmapped
      rw [Memory.fetch_eq_error.2 ⟨rfl, .inr unmapped⟩] at fetched
      cases fetched
    rw [here]
    exact .fault (fun i mem => absurd mem List.not_mem_nil) (Nat.zero_le _) (.inl rfl) rfl fetched transfers last
      unmapped
  | ender fetched plain ends => exact .ends _ List.mem_cons_self rfl ends
  | limit fetched goes => exact .limit (single goes) rfl
  | pageEnd fetched goes last =>
    exact .pageEnd (List.cons_ne_nil _ _) (single goes) (Nat.succ_le_succ (Nat.zero_le _)) last
  | stop fetched goes inside listed =>
    exact .stop (List.cons_ne_nil _ _) (single goes) (Nat.succ_le_succ (Nat.zero_le _)) inside listed
  | @more left pc word rest t fetched goes inside free gathered ih =>
    have step : pc + 4 + BitVec.ofNat 32 (4 * rest.length) =
        pc + BitVec.ofNat 32 (4 * (plainAt pc word :: rest).length) := by
      rw [List.length_cons, Nat.mul_succ, Nat.add_comm, BitVec.ofNat_add, BitVec.add_assoc]
      rfl
    rw [step] at ih
    refine ih.cons goes free (page_same (aligned_of_fetch fetched) inside) ?_
    rintro rfl
    rfl

end Gathered

/-! ## The pages -/

theorem Building.fetch_failed_pages {st st' : Building} {addr : Word} {e : MemError} (aligned : addr.toNat % 4 = 0)
    (failed : st.fetch addr = (.error e, st')) : st'.pageNumbers = st.pageNumbers := by
  have same := (st.fetch_contents addr).1
  rw [failed] at same
  obtain ⟨-, misaligned | unmapped⟩ := Memory.fetch_eq_error.1 same.symm
  · exact absurd aligned misaligned
  · unfold fetch Memory.markCode at failed
    dsimp only at failed
    rw [unmapped] at failed
    split at failed
    · obtain ⟨-, rfl⟩ := Prod.mk.inj failed
      rfl
    · obtain ⟨-, rfl⟩ := Prod.mk.inj failed
      rfl

/-- The builder reaches the page of the entry and those of the instructions it takes. -/
theorem scan_pages (stops : List Word) (left : Nat) (st : Building) (pc word : Word) (aligned : pc.toNat % 4 = 0)
    (here : st.pageNumbers = [pageOf (virtToPhys pc)]) (p : Nat) :
    p ∈ (scan stops left st pc word).2.2.pageNumbers ↔ p = pageOf (virtToPhys pc) ∨
      ∃ i ∈ (scan stops left st pc word).1, p = pageOf (virtToPhys i.addr) := by
  have single {pc : Word} {i : DecodedInsn} {pages : List Nat} (at' : i.addr = pc)
      (here : pages = [pageOf (virtToPhys pc)]) :
      p ∈ pages ↔ p = pageOf (virtToPhys pc) ∨ ∃ j ∈ [i], p = pageOf (virtToPhys j.addr) := by
    simp [here, at']
  have aligned_next {pc : Word} (aligned : pc.toNat % 4 = 0) : (pc + 4).toNat % 4 = 0 := by
    have sum : (pc + 4).toNat = (pc.toNat + 4) % 4294967296 := BitVec.toNat_add pc 4
    omega
  fun_induction scan stops left st pc word with
  | case1 left st pc word insn i next branch w st' fetched =>
    obtain ⟨same, known⟩ | more := Building.fetch_reaches fetched
    · have onPage := known rfl
      rw [here, List.mem_singleton] at onPage
      rw [same, here]
      simp [i, onPage]
    · rw [more, here]
      simp [i]
  | case2 left st pc word insn next branch e st' failed =>
    rw [Building.fetch_failed_pages (aligned_next aligned) failed, here]
    simp
  | case3 => exact single rfl here
  | case4 => exact single rfl here
  | case5 => exact single rfl here
  | case6 => exact single rfl here
  | case7 st pc word insn i next branch ends left inside stop e st' failed =>
    exact single rfl ((Building.fetch_failed_pages (aligned_next aligned) failed).trans here)
  | case8 st pc word insn i next branch ends left inside stop w st' fetched rest t st'' scanned ih =>
    have same : pageOf (virtToPhys next) = pageOf (virtToPhys pc) := by rw [page_next aligned, if_neg inside]
    rw [Building.fetch_noted (by rw [same, here]; exact List.mem_cons_self)] at fetched
    obtain ⟨-, rfl⟩ := Prod.mk.inj fetched
    have pages := ih (aligned_next aligned) (by rw [same]; exact here)
    rw [same, scanned] at pages
    refine pages.trans ?_
    simp [i]

/-- What the builder has done to memory so far: the pages it reached are marked, at the versions it noted,
and no other page has changed. -/
structure Marks (mem : Memory) (st : Building) : Prop where
  code : ∀ p, st.mem.codeState p =
    if p ∈ st.pageNumbers then { mem.codeState p with marked := true } else mem.codeState p
  versions : ∀ s ∈ st.pages, s.version = mem.pageVersion s.page
  distinct : st.pageNumbers.Nodup

theorem Marks.note {mem : Memory} {st : Building} (h : Marks mem st) {page : Nat}
    (unlisted : page ∉ st.pageNumbers) {e : PageEntry} (found : st.mem.page? page = some e) :
    Marks mem ⟨(st.mem.markCode page).2, st.pages ++ [⟨page, st.mem.pageVersion page⟩]⟩ := by
  have before : st.mem.codeState page = mem.codeState page := by rw [h.code, if_neg unlisted]
  have pages (m : Memory) (version : Word) :
      Building.pageNumbers ⟨m, st.pages ++ [⟨page, version⟩]⟩ = st.pageNumbers ++ [page] := by
    simp [Building.pageNumbers]
  refine ⟨?_, ?_, ?_⟩
  · intro p
    rw [pages]
    dsimp only
    rw [Memory.codeState_markCode found]
    by_cases own : p = page
    · rw [if_pos own, if_pos (by rw [own]; simp), before, own]
    · rw [if_neg own, h.code]
      simp [own]
  · intro s hs
    rcases List.mem_append.1 hs with old | own
    · exact h.versions s old
    · rw [List.mem_singleton.1 own]
      exact congrArg CodeState.version before
  · rw [pages, List.nodup_append]
    refine ⟨h.distinct, by simp, ?_⟩
    rintro p old q own rfl
    rw [List.mem_singleton.1 own] at old
    exact unlisted old

theorem Marks.fetch {mem : Memory} {st st' : Building} (h : Marks mem st) {addr : Word} {r : Except MemError Word}
    (fetched : st.fetch addr = (r, st')) : Marks mem st' := by
  unfold Building.fetch at fetched
  dsimp only at fetched
  split at fetched
  · obtain ⟨-, rfl⟩ := Prod.mk.inj fetched
    exact h
  · next new =>
    have unlisted : pageOf (virtToPhys addr) ∉ st.pageNumbers := by
      intro listed
      obtain ⟨s, hs, same⟩ := List.mem_map.1 listed
      exact new (List.any_eq_true.2 ⟨s, hs, by rw [same]; simp⟩)
    split at fetched
    · next m marking =>
      obtain ⟨-, rfl⟩ := Prod.mk.inj fetched
      have same : m = st.mem := by
        unfold Memory.markCode at marking
        split at marking
        · exact (Prod.mk.inj marking).2.symm
        · cases (Prod.mk.inj marking).1
      rw [same]
      exact h
    · next version m marking =>
      obtain ⟨-, rfl⟩ := Prod.mk.inj fetched
      obtain ⟨rfl, e, found⟩ := Building.markCode_some marking
      have noted := h.note unlisted found
      rwa [marking] at noted

theorem scan_marks {mem : Memory} (stops : List Word) (left : Nat) (st : Building) (pc word : Word)
    (h : Marks mem st) : Marks mem (scan stops left st pc word).2.2 := by
  fun_induction scan stops left st pc word with
  | case1 left st pc word insn here next branch w st' fetched => exact h.fetch fetched
  | case2 left st pc word insn next branch e st' failed => exact h.fetch failed
  | case3 => exact h
  | case4 => exact h
  | case5 => exact h
  | case6 => exact h
  | case7 st pc word insn here next branch ends left inside stop e st' failed => exact h.fetch failed
  | case8 st pc word insn here next branch ends left inside stop w st' fetched rest t st'' scanned ih =>
    have marks := ih (h.fetch fetched)
    rwa [scanned] at marks

/-! ## The specified block -/

/-- The branch that was left out because its delay slot could not be fetched. -/
def dropped? (b : Block) : Option Word :=
  match b.terminator with
  | .fetchFault _ branchPc => branchPc
  | _ => none

/-- Where the builder fetched words: at the instructions of the block, and at a branch that was left out. -/
def fetched (b : Block) : List Word := b.insns.map DecodedInsn.addr ++ b.dropped?.toList

/-- The block to build, and what building it does to memory. -/
structure Specified (mem : Memory) (limit : Nat) (stops : List Word) (entry : Word) (b : Block)
    (mem' : Memory) : Prop where
  start : b.start = entry
  stop : b.stop = entry + BitVec.ofNat 32 (4 * b.insns.length)
  /-- The instructions stand one after the other. -/
  addr : ∀ (k : Nat) (i : DecodedInsn), b.insns[k]? = some i → i.addr = entry + BitVec.ofNat 32 (4 * k)
  /-- Each is what memory has there; what may not stand in a delay slot is reserved there. -/
  words : ∀ i ∈ b.insns, mem.fetch i.addr = .ok i.word ∧
    i.insn = if i.inDelaySlot then slotInsn i.word else Insn.decode i.word
  /-- An instruction is in a delay slot if it follows a branch, and then it is the last. -/
  slot : ∀ (k : Nat) (i : DecodedInsn), b.insns[k]? = some i → (i.inDelaySlot = true ↔
    ∃ j branch, k = j + 1 ∧ b.insns[j]? = some branch ∧ branch.insn.hasDelaySlot = true)
  slotLast : ∀ (k : Nat) (i : DecodedInsn), b.insns[k]? = some i → i.inDelaySlot = true → k + 1 = b.insns.length
  /-- What ends a block comes last, but for the delay slot of a branch. -/
  ends : ∀ (k : Nat) (i : DecodedInsn), b.insns[k]? = some i → i.insn.endsBlock = true →
    k + (if i.insn.hasDelaySlot then 2 else 1) = b.insns.length
  /-- None but the first and a delay slot is at a stop. -/
  cut : ∀ (k : Nat) (i : DecodedInsn), b.insns[k]? = some i → i.addr ∈ stops → k = 0 ∨ i.inDelaySlot = true
  few : (body b.insns).length ≤ max 1 limit
  page : ∀ i ∈ body b.insns, pageOf i.addr.toNat = pageOf entry.toNat
  /-- The pages are those that words were fetched from, each of them once. -/
  pages : ∀ p, p ∈ b.pageNumbers ↔ ∃ addr ∈ b.fetched, p = pageOf (virtToPhys addr)
  distinct : b.pageNumbers.Nodup
  count : b.pages.length = 1 ∨ b.pages.length = 2
  /-- They are marked, and have the versions that are noted. -/
  marked : ∀ s ∈ b.pages, mem'.isCodePage s.page = true ∧ mem'.pageVersion s.page = s.version
  /-- What could not be fetched is the delay slot of the branch that comes next, on a page that is not
  mapped. -/
  fault : ∀ addr branchPc, b.terminator = .fetchFault addr branchPc → branchPc = some b.stop ∧ addr = b.stop + 4 ∧
    addr.toNat % pageSize = 0 ∧ mem.page? (pageOf (virtToPhys addr)) = none ∧
    ∃ word, mem.fetch b.stop = .ok word ∧ (Insn.decode word).hasDelaySlot = true
  /-- How the block ends. -/
  ending : Ending mem stops (max 1 limit - 1) entry b.insns b.stop b.terminator
  /-- Versions stay, pages that were not reached have the marks they had, and nothing else is known of
  memory that was not before. -/
  versions : ∀ p, mem'.pageVersion p = mem.pageVersion p
  others : ∀ p, p ∉ b.pageNumbers → mem'.isCodePage p = mem.isCodePage p
  contents : mem.SameContents mem'

theorem build_failed_iff (mem : Memory) (limit : Nat) (stops : List Word) (entry : Word) (e : MemError) :
    (build mem limit stops entry).1 = .error e ↔ mem.fetch entry = .error e := by
  rw [← (Building.fetch_contents { mem, pages := [] } entry).1]
  unfold build
  split
  · next e' st failed =>
    rw [failed]
    simp
  · next w st fetched =>
    rw [fetched]
    simp

section
variable {mem mem' : Memory} {limit : Nat} {stops : List Word} {entry : Word} {b : Block}
  (built : build mem limit stops entry = (.ok b, mem'))
include built

theorem build_gathered : Gathered mem stops (max 1 limit - 1) entry b.insns b.terminator := by
  unfold build at built
  split at built
  · cases (Prod.mk.inj built).1
  · next word st fetched =>
    obtain ⟨same, contents⟩ := Building.fetch_contents { mem, pages := [] } entry
    rw [fetched] at same contents
    have gathered := scan_gathered stops (max limit 1 - 1) st entry word contents same.symm
    cases (Prod.mk.inj built).1
    rwa [Nat.max_comm]

theorem build_marks : Marks mem { mem := mem', pages := b.pages } := by
  have start : Marks mem { mem, pages := [] } := ⟨fun p => rfl, nofun, List.nodup_nil⟩
  unfold build at built
  split at built
  · cases (Prod.mk.inj built).1
  · next word st fetched =>
    have marks := scan_marks stops (max limit 1 - 1) st entry word (start.fetch fetched)
    obtain ⟨block, rfl⟩ := Prod.mk.inj built
    cases block
    exact marks

theorem build_pages (p : Nat) : p ∈ b.pageNumbers ↔
    p = pageOf (virtToPhys entry) ∨ ∃ i ∈ b.insns, p = pageOf (virtToPhys i.addr) := by
  unfold build at built
  split at built
  · cases (Prod.mk.inj built).1
  · next word st fetched =>
    have here : st.pageNumbers = [pageOf (virtToPhys entry)] := by
      obtain ⟨-, known⟩ | first := Building.fetch_reaches fetched
      · cases known rfl
      · exact first
    have pages := scan_pages stops (max limit 1 - 1) st entry word
      (aligned_of_fetch (Building.fetch_ok fetched)) here p
    cases (Prod.mk.inj built).1
    exact pages

theorem build_ends_at : b.start = entry ∧ b.stop = entry + BitVec.ofNat 32 (4 * b.insns.length) := by
  unfold build at built
  split at built
  · cases (Prod.mk.inj built).1
  · cases (Prod.mk.inj built).1
    exact ⟨rfl, rfl⟩

/-- The pages reached are those that words were fetched from. -/
theorem build_fetched (p : Nat) : p ∈ b.pageNumbers ↔ ∃ addr ∈ b.fetched, p = pageOf (virtToPhys addr) := by
  obtain ⟨start, stop⟩ := build_ends_at built
  have stands := build_stands built
  have ending := (build_gathered built).ending
  rw [start] at stands
  rw [← stop] at ending
  rw [build_pages built]
  unfold fetched dropped?
  constructor
  · rintro (rfl | ⟨i, own, rfl⟩)
    · refine ⟨entry, ?_, rfl⟩
      cases insns : b.insns with
      | nil =>
        -- The entry is a branch that was left out.
        rw [insns] at ending stop
        obtain rfl : b.stop = entry := stop.trans (BitVec.add_zero entry)
        rw [ending.of_empty]
        exact List.mem_append_right _ List.mem_cons_self
      | cons i rest =>
        have here : i.addr = entry := by simpa using stands.addr 0 i (by rw [insns]; rfl)
        rw [← here]
        exact List.mem_append_left _ List.mem_cons_self
    · exact ⟨i.addr, List.mem_append_left _ (List.mem_map_of_mem own), rfl⟩
  · rintro ⟨addr, own, rfl⟩
    rcases List.mem_append.1 own with taken | left
    · obtain ⟨i, member, rfl⟩ := List.mem_map.1 taken
      exact .inr ⟨i, member, rfl⟩
    · left
      split at left
      · next ends =>
        rw [ends] at ending
        obtain ⟨rfl, -, page, -⟩ := ending.of_fault
        obtain rfl := List.mem_singleton.1 left
        rw [pageOf_virtToPhys, page, ← pageOf_virtToPhys]
      · cases left

theorem build_ok_specified : Specified mem limit stops entry b mem' := by
  obtain ⟨start, stop⟩ := build_ends_at built
  have gathered := build_gathered built
  have stands := build_stands built
  have contents := build_contents mem limit stops entry
  rw [start] at stands
  rw [built] at contents
  have placed := gathered.placed
  have ending := gathered.ending
  rw [← stop] at ending
  obtain ⟨code, versions, distinct⟩ := build_marks built
  change ∀ p, mem'.codeState p = if p ∈ b.pageNumbers then _ else _ at code
  have version (p : Nat) : mem'.pageVersion p = mem.pageVersion p := by
    unfold Memory.pageVersion
    rw [code]
    split <;> rfl
  refine ⟨start, stop, stands.addr, gathered.words, placed.slot, fun k i found => placed.slot_last found,
    placed.ends, (build_cutBefore built).later, ?few, ?page, build_fetched built, distinct, ?count, ?marked, ?fault,
    ending, version, ?others, contents⟩
  case few =>
    have few := gathered.few
    omega
  case page =>
    intro i own
    obtain ⟨own, apart⟩ := List.mem_filter.1 own
    exact gathered.page i own (by simpa using apart)
  case count =>
    have length : b.pageNumbers.length = b.pages.length := List.length_map _
    obtain one | two := build_spans built
    · rw [one] at length
      exact .inl length.symm
    · rw [two] at length
      exact .inr length.symm
  case marked =>
    intro s own
    refine ⟨?_, by rw [version, versions s own]⟩
    unfold Memory.isCodePage
    have listed : s.page ∈ b.pageNumbers := List.mem_map_of_mem own
    rw [code, if_pos listed]
  case fault =>
    rintro addr branchPc ends
    rw [ends] at ending
    obtain ⟨branch, addr, -, rest⟩ := ending.of_fault
    exact ⟨branch, addr, rest⟩
  case others =>
    intro p unreached
    unfold Memory.isCodePage
    rw [code, if_neg unreached]

end

/-- The builder builds the specified block. It fails only where the entry cannot be fetched, because it is not
aligned or neither RAM nor ROM, and says so; and what it builds is what is specified. -/
theorem build_specified (mem : Memory) (limit : Nat) (stops : List Word) (entry : Word) :
    ((∃ e, (build mem limit stops entry).1 = .error e) ↔
      entry.toNat % 4 ≠ 0 ∨ mem.page? (pageOf (virtToPhys entry)) = none) ∧
    (∀ e, (build mem limit stops entry).1 = .error e → e = .invalidAddress entry) ∧
    ∀ b, (build mem limit stops entry).1 = .ok b →
      Specified mem limit stops entry b (build mem limit stops entry).2 := by
  refine ⟨?_, ?_, ?_⟩
  · simp only [build_failed_iff, Memory.fetch_eq_error, exists_eq_left]
  · intro e failed
    rw [build_failed_iff, Memory.fetch_eq_error] at failed
    exact failed.1
  · intro b built
    exact build_ok_specified (Prod.ext built rfl)

end Block

end EmotionEngine
