import EmotionEngine.Proofs.Block.Build
import EmotionEngine.Proofs.Memory.Evolve

/-!
Blocks that are current: every page is marked, at the version it had when the block was built, and holds
the words of the block. A block is current when it is built, and stays so until one of its pages is
reported as written. What is more, as long as the page table stays as it is, building again gives the same
block and changes nothing.

Main statements: `build_spec` and `build_again`.
-/

namespace EmotionEngine.Block

/-- A block is as memory has it. -/
structure Current (b : Block) (mem : Memory) : Prop where
  pages : ∀ s ∈ b.pages, mem.isCodePage s.page = true ∧ mem.pageVersion s.page = s.version
  words : ∀ i ∈ b.insns, mem.fetch i.addr = .ok i.word
  covered : ∀ i ∈ b.insns, pageOf (virtToPhys i.addr) ∈ b.pageNumbers

theorem Current.evolve {b : Block} {mem mem' : Memory} {told : List Event} (h : b.Current mem)
    (evolves : mem.Evolves mem' told) (quiet : ∀ p ∈ b.pageNumbers, .codeWritten p ∉ told) :
    b.Current mem' := by
  have quiet' {s : PageSnapshot} (mem : s ∈ b.pages) : .codeWritten s.page ∉ told :=
    quiet _ (List.mem_map.2 ⟨s, mem, rfl⟩)
  refine ⟨?_, ?_, h.covered⟩
  · intro s hs
    obtain ⟨marked, version⟩ := h.pages s hs
    refine ⟨evolves.marked marked (quiet' hs), ?_⟩
    rw [evolves.version, List.count_eq_zero.2 (quiet' hs), version]
    exact BitVec.add_zero _
  · intro i hi
    have covered := h.covered i hi
    obtain ⟨s, hs, same⟩ := List.mem_map.1 covered
    apply evolves.fetch _ (quiet _ covered) (h.words i hi)
    rw [← same]
    exact (h.pages s hs).1

/-! ## Building -/

namespace Building

/-- The pages of a block being built are marked at the versions noted, and none is noted twice. -/
structure Good (st : Building) : Prop where
  sound : st.mem.Sound
  current : ∀ s ∈ st.pages, st.mem.isCodePage s.page = true ∧ st.mem.pageVersion s.page = s.version
  distinct : (st.pages.map PageSnapshot.page).Nodup

/-- A word was fetched from a page that is noted. -/
def Knows (st : Building) (addr w : Word) : Prop :=
  st.mem.fetch addr = .ok w ∧ pageOf (virtToPhys addr) ∈ st.pages.map PageSnapshot.page

/-- What building on does: pages may be marked and noted, and nothing is lost. -/
structure Extends (st st' : Building) : Prop where
  good : st'.Good
  accesses : st.mem.Accesses st'.mem []
  grows : ∀ s ∈ st.pages, s ∈ st'.pages

theorem Extends.refl {st : Building} (good : st.Good) : Extends st st :=
  ⟨good, .refl good.sound, fun _ h => h⟩

theorem Extends.trans {st st' st'' : Building} (h : Extends st st') (h' : Extends st' st'') :
    Extends st st'' :=
  ⟨h'.good, h.accesses.trans h'.accesses, fun s hs => h'.grows s (h.grows s hs)⟩

theorem Good.marked {st : Building} (good : st.Good) {addr w : Word} (h : st.Knows addr w) :
    st.mem.isCodePage (pageOf (virtToPhys addr)) = true := by
  obtain ⟨s, hs, same⟩ := List.mem_map.1 h.2
  rw [← same]
  exact (good.current s hs).1

theorem Knows.extend {st st' : Building} {addr w : Word} (good : st.Good) (h : st.Knows addr w)
    (ext : Extends st st') : st'.Knows addr w := by
  refine ⟨ext.accesses.fetch (good.marked h) (by simp) h.1, ?_⟩
  obtain ⟨s, hs, same⟩ := List.mem_map.1 h.2
  exact List.mem_map.2 ⟨s, ext.grows s hs, same⟩

theorem markCode_some {m : Memory} {page : Nat} {version : Word} {m' : Memory}
    (h : m.markCode page = (some version, m')) :
    version = m.pageVersion page ∧ ∃ e, m.page? page = some e := by
  unfold Memory.markCode at h
  split at h
  · cases (Prod.mk.inj h).1
  · next e found =>
    obtain ⟨same, -⟩ := Prod.mk.inj h
    exact ⟨(Option.some.inj same).symm, e, found⟩

theorem fetch_extends {st st' : Building} (good : st.Good) {addr : Word} {r : Except MemError Word}
    (h : st.fetch addr = (r, st')) :
    Extends st st' ∧ ∀ {w : Word}, r = .ok w → st'.Knows addr w := by
  unfold fetch at h
  dsimp only at h
  split at h
  · next known =>
    obtain ⟨rfl, rfl⟩ := Prod.mk.inj h
    refine ⟨.refl good, fun fetched => ⟨fetched, ?_⟩⟩
    obtain ⟨s, hs, same⟩ := List.any_eq_true.1 known
    exact List.mem_map.2 ⟨s, hs, beq_iff_eq.1 same⟩
  · next unknown =>
    have accesses := Memory.accesses_markCode good.sound (pageOf (virtToPhys addr))
    have kept : ∀ s ∈ st.pages, (st.mem.markCode (pageOf (virtToPhys addr))).2.isCodePage s.page = true ∧
        (st.mem.markCode (pageOf (virtToPhys addr))).2.pageVersion s.page = s.version := by
      intro s hs
      obtain ⟨marked, version⟩ := good.current s hs
      refine ⟨accesses.marked marked (by simp), ?_⟩
      rw [accesses.version, version]
      exact BitVec.add_zero _
    split at h
    · next mem marking =>
      obtain ⟨rfl, rfl⟩ := Prod.mk.inj h
      rw [marking] at accesses kept
      exact ⟨⟨⟨accesses.sound, kept, good.distinct⟩, accesses, fun _ h => h⟩, nofun⟩
    · next version mem marking =>
      obtain ⟨rfl, rfl⟩ := Prod.mk.inj h
      obtain ⟨rfl, e, found⟩ := markCode_some marking
      have state := Memory.codeState_markCode found (pageOf (virtToPhys addr))
      rw [marking, if_pos rfl] at state
      rw [marking] at accesses kept
      refine ⟨⟨⟨accesses.sound, ?_, ?_⟩, accesses, fun _ h => List.mem_append_left _ h⟩, ?_⟩
      · intro s hs
        rcases List.mem_append.1 hs with old | new
        · exact kept s old
        · rw [List.mem_singleton] at new
          subst new
          unfold Memory.isCodePage Memory.pageVersion
          dsimp only at state ⊢
          rw [state]
          exact ⟨rfl, rfl⟩
      · rw [List.map_append, List.nodup_append]
        refine ⟨good.distinct, by simp, ?_⟩
        intro p old p' new same
        obtain ⟨s, hs, rfl⟩ := List.mem_map.1 old
        rw [List.map_singleton, List.mem_singleton] at new
        apply unknown
        exact List.any_eq_true.2 ⟨s, hs, by rw [same, new]; simp⟩
      · intro w fetched
        refine ⟨fetched, ?_⟩
        rw [List.map_append]
        exact List.mem_append_right _ List.mem_cons_self

end Building

open Building in
theorem scan_extends (stops : List Word) (left : Nat) (st : Building) (pc word : Word) (good : st.Good)
    (known : st.Knows pc word) :
    Extends st (scan stops left st pc word).2.2 ∧
      ∀ i ∈ (scan stops left st pc word).1, (scan stops left st pc word).2.2.Knows i.addr i.word := by
  fun_induction scan stops left st pc word with
  | case1 left st pc word insn here next branch w st' fetched =>
    obtain ⟨ext, known'⟩ := fetch_extends good fetched
    refine ⟨ext, ?_⟩
    intro i hi
    rcases List.mem_cons.1 hi with rfl | hi
    · exact known.extend good ext
    · rw [List.mem_singleton] at hi
      rw [hi]
      exact known' rfl
  | case2 left st pc word insn next branch e st' failed =>
    exact ⟨(fetch_extends good failed).1, fun i hi => absurd hi List.not_mem_nil⟩
  | case3 left st pc word insn here branch ends =>
    exact ⟨.refl good, fun i hi => by rw [List.mem_singleton.1 hi]; exact known⟩
  | case4 st pc word insn here branch ends =>
    exact ⟨.refl good, fun i hi => by rw [List.mem_singleton.1 hi]; exact known⟩
  | case5 st pc word insn here next branch ends left pageEnd =>
    exact ⟨.refl good, fun i hi => by rw [List.mem_singleton.1 hi]; exact known⟩
  | case6 st pc word insn here next branch ends left pageEnd stop =>
    exact ⟨.refl good, fun i hi => by rw [List.mem_singleton.1 hi]; exact known⟩
  | case7 st pc word insn here next branch ends left pageEnd stop e st' failed =>
    have ext := (fetch_extends good failed).1
    exact ⟨ext, fun i hi => by rw [List.mem_singleton.1 hi]; exact known.extend good ext⟩
  | case8 st pc word insn here next branch ends left pageEnd stop w st' fetched rest t st'' scanned ih =>
    obtain ⟨ext, known'⟩ := fetch_extends good fetched
    obtain ⟨ext', rest'⟩ := ih ext.good (known' rfl)
    rw [scanned] at ext' rest'
    refine ⟨ext.trans ext', ?_⟩
    intro i hi
    rcases List.mem_cons.1 hi with rfl | hi
    · exact (known.extend good ext).extend ext.good ext'
    · exact rest' i hi

theorem build_accesses {mem mem' : Memory} (sound : mem.Sound) {limit : Nat} {stops : List Word}
    {entry : Word} {r : Except MemError Block} (h : build mem limit stops entry = (r, mem')) :
    mem.Accesses mem' [] := by
  have good : (Building.mk mem []).Good := ⟨sound, nofun, List.nodup_nil⟩
  unfold build at h
  split at h
  · next e st failed =>
    obtain ⟨-, rfl⟩ := Prod.mk.inj h
    exact (Building.fetch_extends good failed).1.accesses
  · next w st fetched =>
    obtain ⟨-, rfl⟩ := Prod.mk.inj h
    obtain ⟨ext, known⟩ := Building.fetch_extends good fetched
    have ext' := (scan_extends stops (max limit 1 - 1) st entry w ext.good (known rfl)).1
    exact (ext.trans ext').accesses

/-- A block that is built is current, starts at its entry, and has no page twice. -/
theorem build_spec {mem mem' : Memory} (sound : mem.Sound) {limit : Nat} {stops : List Word}
    {entry : Word} {b : Block} (h : build mem limit stops entry = (.ok b, mem')) :
    b.Current mem' ∧ b.start = entry ∧ b.pageNumbers.Nodup := by
  have good : (Building.mk mem []).Good := ⟨sound, nofun, List.nodup_nil⟩
  unfold build at h
  split at h
  · cases (Prod.mk.inj h).1
  · next w st fetched =>
    obtain ⟨ext, known⟩ := Building.fetch_extends good fetched
    obtain ⟨ext', words⟩ := scan_extends stops (max limit 1 - 1) st entry w ext.good (known rfl)
    obtain ⟨block, rfl⟩ := Prod.mk.inj h
    cases block
    exact ⟨⟨ext'.good.current, fun i hi => (words i hi).1, fun i hi => (words i hi).2⟩, rfl,
      ext'.good.distinct⟩

/-! ## Building again -/

section
variable {m : Memory}

theorem markCode_marked {page : Nat} {e : PageEntry} (found : m.page? page = some e)
    (marked : m.isCodePage page = true) : m.markCode page = (some (m.pageVersion page), m) := by
  unfold Memory.markCode
  rw [found]
  have same : m.code.insert page { m.codeState page with marked := true } = m.code := by
    apply Std.ExtTreeMap.ext_getElem?
    intro a
    rw [Std.ExtTreeMap.getElem?_insert]
    split
    · next own =>
      rw [Std.LawfulEqCmp.compare_eq_iff_eq] at own
      subst own
      unfold Memory.isCodePage Memory.codeState at marked
      unfold Memory.codeState
      rw [Std.ExtTreeMap.getD_eq_getD_getElem?] at marked ⊢
      cases state : m.code[page]? with
      | none =>
        rw [state] at marked
        cases marked
      | some s =>
        rw [state] at marked
        dsimp only [Option.getD_some] at marked ⊢
        rw [← marked]
    · rfl
  dsimp only
  rw [same]
  rfl

/-- Whether a word can be fetched depends on the page table alone. -/
theorem fetch_error_again {m' : Memory} (regions : m'.regions = m.regions) {addr : Word} {e : MemError}
    (failed : m.fetch addr = .error e) : m'.fetch addr = .error e := by
  have page (p : Nat) : m'.page? p = m.page? p := by
    unfold Memory.page?
    rw [regions]
  unfold Memory.fetch at failed ⊢
  dsimp only at failed ⊢
  rw [page]
  split at failed
  · exact failed
  · split at failed
    · next misaligned =>
      rw [if_pos misaligned]
      exact failed
    · cases failed

/-- `m` is what became of the memory of a block being built, with nothing written to the pages noted
and nothing mapped. -/
structure Building.Survives (st : Building) (m : Memory) : Prop where
  evolves : ∃ told, st.mem.Evolves m told ∧ ∀ s ∈ st.pages, .codeWritten s.page ∉ told
  regions : m.regions = st.mem.regions

open Building

theorem Building.Survives.before {st st' : Building} (ext : Extends st st') (h : st'.Survives m) :
    st.Survives m := by
  obtain ⟨⟨told, evolves, quiet⟩, regions⟩ := h
  refine ⟨⟨told, ext.accesses.toEvolves.trans evolves, fun s hs => quiet s (ext.grows s hs)⟩, ?_⟩
  rw [regions, ext.accesses.regions]

theorem Building.Survives.page {st : Building} (h : st.Survives m) (good : st.Good) {s : PageSnapshot}
    (hs : s ∈ st.pages) : m.isCodePage s.page = true ∧ m.pageVersion s.page = s.version := by
  obtain ⟨told, evolves, quiet⟩ := h.evolves
  obtain ⟨marked, version⟩ := good.current s hs
  refine ⟨evolves.marked marked (quiet s hs), ?_⟩
  rw [evolves.version, List.count_eq_zero.2 (quiet s hs), version]
  exact BitVec.add_zero _

theorem Building.Survives.word {st : Building} (h : st.Survives m) (good : st.Good) {addr : Word}
    (noted : pageOf (virtToPhys addr) ∈ st.pages.map PageSnapshot.page) :
    m.fetch addr = st.mem.fetch addr := by
  cases fetched : st.mem.fetch addr with
  | error e => exact fetch_error_again h.regions fetched
  | ok w =>
    obtain ⟨told, evolves, quiet⟩ := h.evolves
    obtain ⟨s, hs, same⟩ := List.mem_map.1 noted
    refine evolves.fetch (good.marked ⟨fetched, noted⟩) ?_ fetched
    rw [← same]
    exact quiet s hs

theorem Building.fetch_again {st st' : Building} (good : st.Good) {addr : Word} {r : Except MemError Word}
    (h : st.fetch addr = (r, st')) (survives : st'.Survives m) :
    (Building.mk m st.pages).fetch addr = (r, Building.mk m st'.pages) := by
  have ext := (fetch_extends good h).1
  have page (p : Nat) : m.page? p = st.mem.page? p := by
    unfold Memory.page?
    rw [(survives.before ext).regions]
  unfold fetch at h ⊢
  dsimp only at h ⊢
  split at h
  · next known =>
    obtain ⟨rfl, rfl⟩ := Prod.mk.inj h
    obtain ⟨s, hs, same⟩ := List.any_eq_true.1 known
    rw [if_pos known, survives.word good (List.mem_map.2 ⟨s, hs, beq_iff_eq.1 same⟩)]
  · next unknown =>
    rw [if_neg unknown]
    split at h
    · next mem marking =>
      obtain ⟨rfl, rfl⟩ := Prod.mk.inj h
      have unmapped : st.mem.page? (pageOf (virtToPhys addr)) = none := by
        unfold Memory.markCode at marking
        split at marking
        · assumption
        · cases (Prod.mk.inj marking).1
      unfold Memory.markCode
      rw [page, unmapped]
    · next version mem marking =>
      obtain ⟨rfl, rfl⟩ := Prod.mk.inj h
      obtain ⟨-, e, found⟩ := markCode_some marking
      rw [← page] at found
      have noted : PageSnapshot.mk (pageOf (virtToPhys addr)) version ∈
          st.pages ++ [PageSnapshot.mk (pageOf (virtToPhys addr)) version] :=
        List.mem_append_right _ List.mem_cons_self
      obtain ⟨marked, same⟩ := survives.page ext.good noted
      rw [markCode_marked found marked]
      dsimp only at same ⊢
      rw [same, survives.word ext.good (List.mem_map.2 ⟨_, noted, rfl⟩)]

end

open Building in
theorem scan_again {m : Memory} (stops : List Word) (left : Nat) (st : Building) (pc word : Word)
    (good : st.Good) (known : st.Knows pc word)
    (survives : (scan stops left st pc word).2.2.Survives m) :
    scan stops left (Building.mk m st.pages) pc word =
      ((scan stops left st pc word).1, (scan stops left st pc word).2.1,
        Building.mk m (scan stops left st pc word).2.2.pages) := by
  fun_induction scan stops left st pc word with
  | case1 left st pc word insn here next branch w st' fetched =>
    rw [scan.eq_def]
    dsimp only
    rw [if_pos branch, fetch_again good fetched survives]
  | case2 left st pc word insn next branch e st' failed =>
    rw [scan.eq_def]
    dsimp only
    rw [if_pos branch, fetch_again good failed survives]
  | case3 left st pc word insn here branch ends =>
    rw [scan.eq_def]
    dsimp only
    rw [if_neg branch, if_pos ends]
  | case4 st pc word insn here branch ends =>
    rw [scan.eq_def]
    dsimp only
    rw [if_neg branch, if_neg ends]
  | case5 st pc word insn here next branch ends left pageEnd =>
    rw [scan.eq_def]
    dsimp only
    rw [if_neg branch, if_neg ends, if_pos pageEnd]
  | case6 st pc word insn here next branch ends left pageEnd stop =>
    rw [scan.eq_def]
    dsimp only
    rw [if_neg branch, if_neg ends, if_neg pageEnd, if_pos stop]
  | case7 st pc word insn here next branch ends left pageEnd stop e st' failed =>
    rw [scan.eq_def]
    dsimp only
    rw [if_neg branch, if_neg ends, if_neg pageEnd, if_neg stop, fetch_again good failed survives]
  | case8 st pc word insn here next branch ends left pageEnd stop w st' fetched rest t st'' scanned ih =>
    obtain ⟨ext, known'⟩ := fetch_extends good fetched
    have ext' := (scan_extends stops left st' next w ext.good (known' rfl)).1
    have rest' := ih ext.good (known' rfl)
    rw [scanned] at ext' rest'
    rw [scan.eq_def]
    dsimp only
    rw [if_neg branch, if_neg ends, if_neg pageEnd, if_neg stop,
      fetch_again good fetched (survives.before ext')]
    dsimp only
    rw [rest' survives]

/-- Building again gives the same block and leaves memory as it is, as long as nothing was mapped and
no page of the block written. -/
theorem build_again {mem mem' m : Memory} (sound : mem.Sound) {limit : Nat} {stops : List Word}
    {entry : Word} {b : Block} (h : build mem limit stops entry = (.ok b, mem')) {told : List Event}
    (evolves : mem'.Evolves m told) (regions : m.regions = mem'.regions)
    (quiet : ∀ p ∈ b.pageNumbers, .codeWritten p ∉ told) :
    build m limit stops entry = (.ok b, m) := by
  have good : (Building.mk mem []).Good := ⟨sound, nofun, List.nodup_nil⟩
  unfold build at h ⊢
  split at h
  · cases (Prod.mk.inj h).1
  · next w st fetched =>
    obtain ⟨ext, known⟩ := Building.fetch_extends good fetched
    have ext' := (scan_extends stops (max limit 1 - 1) st entry w ext.good (known rfl)).1
    obtain ⟨block, rfl⟩ := Prod.mk.inj h
    cases block
    have survives : (scan stops (max limit 1 - 1) st entry w).2.2.Survives m := by
      refine ⟨⟨told, evolves, ?_⟩, regions⟩
      intro s hs
      exact quiet _ (List.mem_map.2 ⟨s, hs, rfl⟩)
    rw [Building.fetch_again good fetched (survives.before ext')]
    dsimp only
    rw [scan_again stops _ st entry w ext.good (known rfl) survives]

end EmotionEngine.Block
