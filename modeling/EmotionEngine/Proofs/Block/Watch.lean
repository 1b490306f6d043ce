import EmotionEngine.Proofs.Block.Current
import EmotionEngine.Proofs.Block.Effect

/-!
Stores to the pages of the running block. A block lies on one page, or on two where its delay slot starts
the next one, and the processor watches the pages from its first to its last. After the last page of the
physical address space comes page 0; the two pages of a block across that boundary are no such range, and
a store to them goes unnoticed.

Main statement: a store to a marked page of the running block is reported, unless the block lies across
the boundary (`Block.store_reported_iff`).
-/

namespace EmotionEngine

/-! ## Pages of a block -/

/-- How many pages the physical address space has. -/
def pageCount : Nat := physSpace / pageSize

/-- The page after another; the last one is followed by page 0. -/
def pageAfter (p : Nat) : Nat := (p + 1) % pageCount

theorem page_lt (addr : Word) : pageOf (virtToPhys addr) < pageCount := by
  show addr.toNat % 536870912 / 4096 < 131072
  omega

/-- The next instruction is on the same page, unless it starts one. -/
theorem page_next {pc : Word} (aligned : pc.toNat % 4 = 0) :
    pageOf (virtToPhys (pc + 4)) =
      if (pc + 4).toNat % pageSize = 0 then pageAfter (pageOf (virtToPhys pc))
      else pageOf (virtToPhys pc) := by
  have next : (pc + 4).toNat = (pc.toNat + 4) % 4294967296 := BitVec.toNat_add pc 4
  show (pc + 4).toNat % 536870912 / 4096 =
    if (pc + 4).toNat % 4096 = 0 then (pc.toNat % 536870912 / 4096 + 1) % 131072
    else pc.toNat % 536870912 / 4096
  split <;> omega

namespace Block

/-- The pages that a block being built has reached. -/
def Building.pageNumbers (st : Building) : List Nat := st.pages.map PageSnapshot.page

theorem Building.fetch_noted {st : Building} {addr : Word}
    (noted : pageOf (virtToPhys addr) ∈ st.pageNumbers) : st.fetch addr = (st.mem.fetch addr, st) := by
  obtain ⟨s, hs, same⟩ := List.mem_map.1 noted
  unfold fetch
  dsimp only
  rw [if_pos]
  exact List.any_eq_true.2 ⟨s, hs, by rw [same]; simp⟩

/-- A fetch reaches no page but its own, and does so if it succeeds. -/
theorem Building.fetch_reaches {st st' : Building} {addr : Word} {r : Except MemError Word}
    (h : st.fetch addr = (r, st')) :
    st'.pageNumbers = st.pageNumbers ∧ (∀ {w}, r = .ok w → pageOf (virtToPhys addr) ∈ st.pageNumbers) ∨
      st'.pageNumbers = st.pageNumbers ++ [pageOf (virtToPhys addr)] := by
  unfold fetch at h
  dsimp only at h
  split at h
  · next known =>
    obtain ⟨-, rfl⟩ := Prod.mk.inj h
    obtain ⟨s, hs, same⟩ := List.any_eq_true.1 known
    exact .inl ⟨rfl, fun _ => List.mem_map.2 ⟨s, hs, beq_iff_eq.1 same⟩⟩
  · split at h
    · obtain ⟨rfl, rfl⟩ := Prod.mk.inj h
      exact .inl ⟨rfl, nofun⟩
    · obtain ⟨-, rfl⟩ := Prod.mk.inj h
      exact .inr (by simp [pageNumbers])

/-- The pages of a block that starts on page `p`: a delay slot may lie on the next one. -/
def Spans (p : Nat) (pages : List Nat) : Prop := pages = [p] ∨ pages = [p, pageAfter p]

/-- The page of a delay slot is the next one if it is not the page of its branch. -/
theorem Building.spans_fetch {st st' : Building} {pc : Word} (aligned : pc.toNat % 4 = 0)
    (here : st.pageNumbers = [pageOf (virtToPhys pc)]) {r : Except MemError Word}
    (h : st.fetch (pc + 4) = (r, st')) : Spans (pageOf (virtToPhys pc)) st'.pageNumbers := by
  have next := page_next aligned
  split at next
  · obtain ⟨same, -⟩ | more := fetch_reaches h
    · exact .inl (same.trans here)
    · exact .inr (by rw [more, here, next]; rfl)
  · rw [fetch_noted (by rw [next, here]; exact List.mem_cons_self)] at h
    obtain ⟨-, rfl⟩ := Prod.mk.inj h
    exact .inl here

theorem scan_spans (stops : List Word) (left : Nat) (st : Building) (pc word : Word)
    (aligned : pc.toNat % 4 = 0) (here : st.pageNumbers = [pageOf (virtToPhys pc)]) :
    Spans (pageOf (virtToPhys pc)) (scan stops left st pc word).2.2.pageNumbers := by
  fun_induction scan stops left st pc word with
  | case1 left st pc word insn here' next branch w st' fetched => exact st.spans_fetch aligned here fetched
  | case2 left st pc word insn next branch e st' failed => exact st.spans_fetch aligned here failed
  | case3 left st pc word insn here' branch ends => exact .inl here
  | case4 st pc word insn here' branch ends => exact .inl here
  | case5 st pc word insn here' next branch ends left pageEnd => exact .inl here
  | case6 st pc word insn here' next branch ends left pageEnd stop => exact .inl here
  | case7 st pc word insn here' next branch ends left pageEnd stop e st' failed =>
    exact st.spans_fetch aligned here failed
  | case8 st pc word insn here' next branch ends left pageEnd stop w st' fetched rest t st'' scanned ih =>
    have same : pageOf (virtToPhys next) = pageOf (virtToPhys pc) := by
      rw [page_next aligned, if_neg pageEnd]
    rw [Building.fetch_noted (by rw [same, here]; exact List.mem_cons_self)] at fetched
    obtain ⟨-, rfl⟩ := Prod.mk.inj fetched
    have spans := ih (room_next aligned pageEnd).1 (by rw [same]; exact here)
    rwa [same, scanned] at spans

theorem build_spans {mem mem' : Memory} {limit : Nat} {stops : List Word} {entry : Word} {b : Block}
    (h : build mem limit stops entry = (.ok b, mem')) :
    Spans (pageOf (virtToPhys entry)) b.pageNumbers := by
  unfold build at h
  split at h
  · cases (Prod.mk.inj h).1
  · next w st fetched =>
    have here : st.pageNumbers = [pageOf (virtToPhys entry)] := by
      obtain ⟨-, known⟩ | first := Building.fetch_reaches fetched
      · cases known rfl
      · exact first
    have spans := scan_spans stops (max limit 1 - 1) st entry w
      (aligned_of_fetch (Building.fetch_ok fetched)) here
    obtain ⟨block, -⟩ := Prod.mk.inj h
    cases block
    exact spans

theorem firstPage_eq (b : Block) : b.firstPage = b.pageNumbers.head?.getD 0 := by
  simp [firstPage, pageNumbers]

theorem lastPage_eq (b : Block) : b.lastPage = b.pageNumbers.getLast?.getD 0 := by
  simp [lastPage, pageNumbers]

/-- The last page of the physical address space and the first one. -/
def boundary : List Nat := [pageCount - 1, 0]

/-- The pages from a block's first to its last are those it was decoded from, unless it lies across the
boundary; then there are none. -/
theorem build_range {mem mem' : Memory} {limit : Nat} {stops : List Word} {entry : Word} {b : Block}
    (h : build mem limit stops entry = (.ok b, mem')) {p : Nat} (mem : p ∈ b.pageNumbers) :
    b.firstPage ≤ p ∧ p ≤ b.lastPage ↔ b.pageNumbers ≠ boundary := by
  have low := page_lt entry
  rw [firstPage_eq, lastPage_eq]
  obtain one | two := build_spans h
  · rw [one, List.mem_singleton] at mem
    rw [one, mem]
    simp [boundary]
  · rw [two] at mem ⊢
    simp only [List.mem_cons, List.not_mem_nil, or_false] at mem
    simp only [List.head?_cons, List.getLast?_cons_cons, List.getLast?_singleton, Option.getD_some,
      boundary, pageAfter, ne_eq, List.cons.injEq, and_true, not_and] at mem ⊢
    rw [show pageCount = 131072 from rfl] at *
    omega

end Block

/-! ## Stores -/

namespace Guest

/-- A byte of an access lies on page `p`, which is RAM or ROM. -/
def Touches (g : Guest) (w : Width) (vaddr : Word) (p : Nat) : Prop :=
  (∃ i < w.size, pageOf (virtToPhys (accessAddr w vaddr + BitVec.ofNat 32 i)) = p) ∧
    (g.mem.page? p).isSome = true

/-- A store that succeeds is reported if the page it writes is marked and watched. -/
theorem store_codeModified {g : Guest} {w : Width} {vaddr : Word} {v : Quad} {p : Nat}
    (touches : g.Touches w vaddr p) (ok : (g.store w vaddr v).1 ≠ .fault) :
    (∃ e, g.mem.page? p = some e ∧ e.readOnly = false) ∧
      ((g.store w vaddr v).1 = .codeModified ↔
        g.mem.isCodePage p = true ∧ g.cpu.blockFirst ≤ p ∧ p ≤ g.cpu.blockLast) := by
  obtain ⟨⟨i, hi, rfl⟩, mapped⟩ := touches
  unfold store at ok ⊢
  dsimp only at ok ⊢
  split at ok
  · next aligned =>
    rw [aligned_page aligned hi] at mapped ⊢
    obtain ⟨e, found⟩ := Option.isSome_iff_exists.1 mapped
    rw [if_pos aligned]
    rw [Memory.write_mapped (aligned_inPage aligned) found] at ok ⊢
    unfold Memory.writePage at ok ⊢
    dsimp only at ok ⊢
    cases ro : e.readOnly with
    | true =>
      rw [if_pos ro] at ok
      exact absurd rfl ok
    | false =>
      refine ⟨⟨e, found, ro⟩, ?_⟩
      rw [if_neg (by simp)]
      by_cases marked : g.mem.isCodePage (pageOf (virtToPhys (accessAddr w vaddr))) = true
      · rw [if_pos marked]
        simp [WriteEffect.hits, marked, and_comm]
      · rw [if_neg marked]
        simp [WriteEffect.hits, marked]
  · exact absurd rfl ok

/-! ## Pages that are not written -/

variable (g : Guest)

/-- `m'` is what accesses made of `m`, and none of the pages from `first` to `last` was reported. -/
def Quiet (first last : Nat) (m m' : Memory) : Prop :=
  ∃ told, m.Accesses m' told ∧ ∀ p, first ≤ p → p ≤ last → .codeWritten p ∉ told

theorem quiet_refl {m : Memory} (sound : m.Sound) (first last : Nat) : Quiet first last m m :=
  ⟨[], .refl sound, by simp⟩

theorem quiet_call {m : Memory} (sound : m.Sound) {first last : Nat} {c : Call}
    (spared : m.Spared (fun p => first ≤ p ∧ p ≤ last) (m.call c).2) : Quiet first last m (m.call c).2 := by
  obtain ⟨told, called, own⟩ := Memory.accesses_call sound c
  refine ⟨told, called, fun p low high written => ?_⟩
  obtain ⟨d, stored, rfl⟩ := own p written
  exact spared.stores d stored ⟨low, high⟩

/-- A load leaves memory alone or calls a device. -/
theorem load_steps (w : Width) (vaddr : Word) :
    (g.load w vaddr).2.mem = g.mem ∨ ∃ c, (g.load w vaddr).2.mem = (g.mem.call c).2 := by
  unfold load
  dsimp only
  split
  · next aligned =>
    cases found : g.mem.page? (pageOf (virtToPhys (accessAddr w vaddr))) with
    | some e =>
      rw [Memory.read_mapped (aligned_inPage aligned) found]
      exact .inl rfl
    | none =>
      rw [Memory.read_unmapped (aligned_inPage aligned) found]
      unfold Memory.readDevice
      dsimp only
      cases g.mem.device? (virtToPhys (accessAddr w vaddr)) with
      | none => exact .inl rfl
      | some r => exact .inr ⟨_, rfl⟩
  · exact .inl rfl

/-- A store leaves memory alone, calls a device, or writes to its page. -/
theorem store_steps (w : Width) (vaddr : Word) (v : Quad) :
    (g.store w vaddr v).2.mem = g.mem ∨ (∃ c, (g.store w vaddr v).2.mem = (g.mem.call c).2) ∨
      ∃ e, aligned w (accessAddr w vaddr) = true ∧
        g.mem.page? (pageOf (virtToPhys (accessAddr w vaddr))) = some e ∧ (g.store w vaddr v).1 ≠ .fault ∧
        (g.store w vaddr v).2.mem =
          (g.mem.writePage e (accessAddr w vaddr) (leBytes w.size v.toNat)).2 := by
  unfold store
  dsimp only
  split
  · next aligned =>
    cases found : g.mem.page? (pageOf (virtToPhys (accessAddr w vaddr))) with
    | none =>
      rw [Memory.write_unmapped (aligned_inPage aligned) found]
      unfold Memory.writeDevice
      dsimp only
      cases g.mem.device? (virtToPhys (accessAddr w vaddr)) with
      | none => exact .inl rfl
      | some r => exact .inr (.inl ⟨_, rfl⟩)
    | some e =>
      rw [Memory.write_mapped (aligned_inPage aligned) found]
      cases writable : e.readOnly with
      | true =>
        rw [Memory.writePage_locked writable]
        exact .inl rfl
      | false =>
        obtain ⟨effect, ok⟩ :=
          Memory.writePage_ok writable g.mem (accessAddr w vaddr) (leBytes w.size v.toNat)
        refine .inr (.inr ⟨e, aligned, rfl, ?_⟩)
        generalize g.mem.writePage e _ _ = r at ok ⊢
        obtain ⟨r, mem⟩ := r
        obtain rfl : r = .ok effect := ok
        exact ⟨by dsimp only; split <;> nofun, rfl⟩
  · exact .inl rfl

theorem load_quiet (sound : g.mem.Sound) {first last : Nat} {w : Width} {vaddr : Word}
    (spared : g.mem.Spared (fun p => first ≤ p ∧ p ≤ last) (g.load w vaddr).2.mem) :
    Quiet first last g.mem (g.load w vaddr).2.mem := by
  obtain same | ⟨c, called⟩ := g.load_steps w vaddr
  · rw [same]
    exact quiet_refl sound first last
  · rw [called] at spared ⊢
    exact quiet_call sound spared

/-- A store that goes unreported has written none of the pages that are watched. -/
theorem store_quiet (sound : g.mem.Sound) {w : Width} {vaddr : Word} {v : Quad}
    (spared : g.mem.Spared (fun p => g.cpu.blockFirst ≤ p ∧ p ≤ g.cpu.blockLast) (g.store w vaddr v).2.mem)
    (unreported : (g.store w vaddr v).1 ≠ .codeModified) :
    Quiet g.cpu.blockFirst g.cpu.blockLast g.mem (g.store w vaddr v).2.mem := by
  obtain same | ⟨c, called⟩ | ⟨e, aligned, found, ok, written⟩ := g.store_steps w vaddr v
  · rw [same]
    exact quiet_refl sound _ _
  · rw [called] at spared ⊢
    exact quiet_call sound spared
  · have inside : pageOffset (virtToPhys (accessAddr w vaddr)) + (leBytes w.size v.toNat).length ≤ pageSize := by
      rw [length_leBytes]
      exact of_decide_eq_true (aligned_inPage aligned)
    obtain ⟨told, accesses, own⟩ := Memory.accesses_writePage sound found inside
    rw [written]
    refine ⟨told, accesses, fun p low high hit => ?_⟩
    obtain ⟨rfl, marked⟩ := own p hit
    have touches : g.Touches w vaddr (pageOf (virtToPhys (accessAddr w vaddr))) :=
      ⟨⟨0, w.size_pos, by simp⟩, by rw [found]; rfl⟩
    exact unreported ((store_codeModified touches ok).2.2 ⟨marked, low, high⟩)

/-- An instruction that does not report it writes no page that is watched. -/
theorem exec_quiet (sound : g.mem.Sound) (i : DecodedInsn)
    (spared : g.mem.Spared (fun p => g.cpu.blockFirst ≤ p ∧ p ≤ g.cpu.blockLast) (g.exec i).2.mem)
    (unreported : (g.exec i).1 ≠ .codeModified) :
    Quiet g.cpu.blockFirst g.cpu.blockLast g.mem (g.exec i).2.mem := by
  cases exec_kind i with
  | compute e portable goes exec =>
    rw [exec]
    exact quiet_refl sound _ _
  | load w addr put addrUnplaced neutral plain exec =>
    rw [exec] at spared ⊢
    have same : (finishLoad put (g.load w (addr g.cpu))).2.mem = (g.load w (addr g.cpu)).2.mem := by
      generalize g.load w (addr g.cpu) = loaded
      obtain ⟨_ | v, h⟩ := loaded <;> rfl
    rw [same] at spared ⊢
    exact g.load_quiet sound spared
  | store w addr value addrUnplaced valueUnplaced plain exec =>
    have written := @store_quiet g sound w (addr g.cpu) (value g.cpu)
    rw [exec] at spared unreported ⊢
    unfold execStore at spared unreported ⊢
    generalize g.store w (addr g.cpu) (value g.cpu) = stored at written spared unreported ⊢
    obtain ⟨_ | _ | _, h⟩ := stored
    · exact written spared nofun
    · exact written spared nofun
    · exact absurd rfl unreported

end Guest

/-! ## The running block -/

/-- A guest in the middle of a block: the block was built some time ago, its pages are those to watch, and
what is RAM among them is still marked. -/
structure Guest.Runs (g : Guest) (b : Block) : Prop where
  built : ∃ mem limit stops entry mem', Block.build mem limit stops entry = (.ok b, mem')
  first : g.cpu.blockFirst = b.firstPage
  last : g.cpu.blockLast = b.lastPage
  marked : ∀ p ∈ b.pageNumbers, ∀ e, g.mem.page? p = some e → e.readOnly = false →
    g.mem.isCodePage p = true

namespace Block

theorem runs_enter {mem mem' : Memory} (sound : mem.Sound) {limit : Nat} {stops : List Word} {entry : Word}
    {b : Block} (built : build mem limit stops entry = (.ok b, mem')) (cpu : Cpu) :
    (Guest.enter { cpu, mem := mem' } b).Runs b := by
  refine ⟨⟨mem, limit, stops, entry, mem', built⟩, rfl, rfl, ?_⟩
  intro p own e _ _
  obtain ⟨s, hs, rfl⟩ := List.mem_map.1 own
  exact ((build_spec sound built).1.pages s hs).1

/-- A store that succeeds and writes a page of the running block is reported, unless the block lies across
the boundary of the physical address space. -/
theorem store_reported_iff {g : Guest} {b : Block} (runs : g.Runs b) {w : Width} {vaddr : Word} {v : Quad}
    {p : Nat} (own : p ∈ b.pageNumbers) (touches : g.Touches w vaddr p)
    (ok : (g.store w vaddr v).1 ≠ .fault) :
    (g.store w vaddr v).1 = .codeModified ↔ b.pageNumbers ≠ boundary := by
  obtain ⟨mem, limit, stops, entry, mem', built⟩ := runs.built
  obtain ⟨⟨e, found, ram⟩, reported⟩ := Guest.store_codeModified touches ok
  rw [reported, runs.first, runs.last, ← build_range built own, and_iff_right]
  exact runs.marked p own e found ram

theorem eq_ok_of_toOption {r : Except MemError Block × Memory} {b : Block} (h : r.1.toOption = some b) :
    r = (.ok b, r.2) := by
  obtain ⟨_ | b', mem⟩ := r
  · cases h
  · obtain rfl : b' = b := Option.some.inj h
    rfl

def lastWord (p : Nat) : Word := BitVec.ofNat 32 (p * pageSize + 4092)

/-- Page `p` and the next one, both RAM, with a branch in the last word of `p`. -/
def branchAtEnd (p : Nat) : Memory :=
  let mem := ((Memory.empty 8192).withRam (p * pageSize) pageSize).withRam (pageAfter p * pageSize) pageSize
  (mem.write .word (lastWord p) 0x10000000).2

def endBlock (p : Nat) : Block :=
  { start := lastWord p
    stop := lastWord p + 8
    insns := [
      { addr := lastWord p, word := 0x10000000, insn := .branch .eq 0 0 0 false false, inDelaySlot := false },
      { addr := lastWord p + 4, word := 0, insn := .nop, inDelaySlot := true }]
    terminator := .branch
    pages := [{ page := p, version := 0 }, { page := pageAfter p, version := 0 }] }

def atEnd (p : Nat) : Guest :=
  Guest.enter { cpu := Cpu.new, mem := (build (branchAtEnd p) 1 [] (lastWord p)).2 } (endBlock p)

theorem atEnd_runs {p : Nat} (built : (build (branchAtEnd p) 1 [] (lastWord p)).1.toOption = some (endBlock p)) :
    (atEnd p).Runs (endBlock p) := by
  have sound : (branchAtEnd p).Sound := ((((Memory.Arises.empty 8192).withRam _ _).withRam _ _).write _ _ _).sound
  exact runs_enter sound (eq_ok_of_toOption built) Cpu.new

/-- The branch is on page 0 and its slot on page 1; a store just before the branch is reported. -/
theorem store_reported_iff_pageZero :
    (atEnd 0).Runs (endBlock 0) ∧
      (((atEnd 0).store .word 0xFF8 0).1 = .codeModified ↔ (endBlock 0).pageNumbers ≠ boundary) := by
  have runs := atEnd_runs (p := 0) (by decide +kernel)
  refine ⟨runs, store_reported_iff runs (p := 0) (by decide) ?_ (by decide +kernel)⟩
  exact ⟨⟨0, by decide, by decide⟩, by decide +kernel⟩

/-- The branch is on the last page and its slot on page 0; a store just before the branch writes a page of
the running block and is not reported. -/
theorem store_unreported :
    (atEnd 131071).Runs (endBlock 131071) ∧ 131071 ∈ (endBlock 131071).pageNumbers ∧
      (atEnd 131071).Touches .word 0x1FFFFFF8 131071 ∧
      ((atEnd 131071).store .word 0x1FFFFFF8 0).1 = .ok := by
  refine ⟨atEnd_runs (by decide +kernel), by decide, ?_, by decide +kernel⟩
  exact ⟨⟨0, by decide, by decide⟩, by decide +kernel⟩

end Block

end EmotionEngine
