import EmotionEngine.Proofs.Block.Exec
import EmotionEngine.Proofs.Memory.Pieces

/-!
How a memory changes over time, in terms of what it tells. As long as a marked page is not reported as
written, it keeps its mark, its version and every byte; and each report raises the version by one. All
the ways to change a memory are of this kind (`Evolves`): accesses of any width, byte ranges whether
they fail or not, marks and mappings, and whole blocks of guest code.
-/

namespace EmotionEngine

namespace Memory

/-- `m'` is what became of `m`, which told `told` meanwhile. -/
structure Evolves (m m' : Memory) (told : List Event) : Prop where
  sound : m'.Sound
  stays : ∀ {p e}, m.page? p = some e → m'.page? p = some e
  version : ∀ p,
    m'.pageVersion p = m.pageVersion p + BitVec.ofNat 32 (told.count (.codeWritten p))
  marked : ∀ {p}, m.isCodePage p = true → .codeWritten p ∉ told → m'.isCodePage p = true
  bytes : ∀ {p e}, m.isCodePage p = true → .codeWritten p ∉ told → m.page? p = some e →
    ∀ i < pageSize, m'.storeByte (e.position i) = m.storeByte (e.position i)

/-- What became of a memory by accesses: the page table is as it was, and what it told is recorded. -/
structure Accesses (m m' : Memory) (told : List Event) : Prop extends Evolves m m' told where
  events : m'.events.toList = m.events.toList ++ told
  regions : m'.regions = m.regions
  board : m'.board = m.board
  past : m.past <:+ m'.past

/-- Accesses, whatever they told. -/
def Leads (m m' : Memory) : Prop := ∃ told, Accesses m m' told

theorem Evolves.refl {m : Memory} (sound : m.Sound) : Evolves m m [] :=
  { sound
    stays := id
    version := fun p => by simp
    marked := fun h _ => h
    bytes := fun _ _ _ _ _ => rfl }

theorem Evolves.trans {m m' m'' : Memory} {told told' : List Event} (h : Evolves m m' told)
    (h' : Evolves m' m'' told') : Evolves m m'' (told ++ told') where
  sound := h'.sound
  stays found := h'.stays (h.stays found)
  version p := by
    rw [h'.version, h.version, List.count_append, BitVec.ofNat_add, BitVec.add_assoc]
  marked marked quiet := by
    rw [List.mem_append, not_or] at quiet
    exact h'.marked (h.marked marked quiet.1) quiet.2
  bytes marked quiet found i hi := by
    rw [List.mem_append, not_or] at quiet
    rw [h'.bytes (h.marked marked quiet.1) quiet.2 (h.stays found) i hi,
      h.bytes marked quiet.1 found i hi]

theorem Accesses.refl {m : Memory} (sound : m.Sound) : Accesses m m [] :=
  { Evolves.refl sound with events := by simp, regions := rfl, board := rfl, past := List.suffix_refl _ }

theorem Accesses.trans {m m' m'' : Memory} {told told' : List Event} (h : Accesses m m' told)
    (h' : Accesses m' m'' told') : Accesses m m'' (told ++ told') :=
  { h.toEvolves.trans h'.toEvolves with
    events := by rw [h'.events, h.events, List.append_assoc]
    regions := h'.regions.trans h.regions
    board := h'.board.trans h.board
    past := h.past.trans h'.past }

theorem Leads.refl {m : Memory} (sound : m.Sound) : Leads m m := ⟨[], .refl sound⟩

theorem Leads.trans {m m' m'' : Memory} (h : Leads m m') (h' : m'.Sound → Leads m' m'') :
    Leads m m'' := by
  obtain ⟨told, h⟩ := h
  obtain ⟨told', h'⟩ := h' h.sound
  exact ⟨told ++ told', h.trans h'⟩

theorem Leads.sound {m m' : Memory} (h : Leads m m') : m'.Sound := by
  obtain ⟨told, h⟩ := h
  exact h.sound

/-- A word on a page that keeps its mark can still be fetched. -/
theorem Evolves.fetch {m m' : Memory} {told : List Event} (h : Evolves m m' told) {addr w : Word}
    (marked : m.isCodePage (pageOf (virtToPhys addr)) = true)
    (quiet : .codeWritten (pageOf (virtToPhys addr)) ∉ told) (fetched : m.fetch addr = .ok w) :
    m'.fetch addr = .ok w := by
  unfold Memory.fetch at fetched ⊢
  dsimp only at fetched ⊢
  split at fetched
  · cases fetched
  · next e found =>
    rw [h.stays found]
    dsimp only
    split at fetched
    · cases fetched
    · next aligned =>
      rw [if_neg aligned]
      have same : m'.loadBytes (e.position (pageOffset (virtToPhys addr))) 4 =
          m.loadBytes (e.position (pageOffset (virtToPhys addr))) 4 := by
        unfold loadBytes
        apply List.map_congr_left
        intro i hi
        rw [List.mem_range] at hi
        have inside : pageOffset (virtToPhys addr) + i < pageSize := by
          unfold pageOffset virtToPhys
          rw [show pageSize = 4096 from rfl, show physSpace = 536870912 from rfl]
          omega
        have shift : e.position (pageOffset (virtToPhys addr)) + i =
            e.position (pageOffset (virtToPhys addr) + i) := by
          unfold PageEntry.position
          omega
        rw [shift]
        exact h.bytes marked quiet found _ inside
      rw [same]
      exact fetched

/-! ## Pages -/

theorem isCodePage_invalidateCode (m : Memory) (page p : Nat) :
    (m.invalidateCode page).isCodePage p = (decide (p ≠ page) && m.isCodePage p) := by
  unfold invalidateCode record isCodePage codeState
  dsimp only
  rw [Std.ExtTreeMap.getD_insert]
  by_cases h : p = page
  · simp [h]
  · rw [if_neg (by rw [Std.LawfulEqCmp.compare_eq_iff_eq]; exact Ne.symm h)]
    simp [h]

theorem pageVersion_invalidateCode (m : Memory) (page p : Nat) :
    (m.invalidateCode page).pageVersion p =
      m.pageVersion p + BitVec.ofNat 32 ([Event.codeWritten page].count (.codeWritten p)) := by
  unfold invalidateCode record pageVersion codeState
  dsimp only
  rw [Std.ExtTreeMap.getD_insert, List.count_singleton]
  by_cases h : page = p
  · subst h
    rw [if_pos (by simp), if_pos (by simp)]
    rfl
  · rw [if_neg (by rw [Std.LawfulEqCmp.compare_eq_iff_eq]; exact h), if_neg (by simpa using h)]
    exact (BitVec.add_zero _).symm

section
variable {m : Memory} {page : Nat} {e : PageEntry} {offset : Nat} {data : List Byte}

theorem storeByte_storeBytes_of_page (sound : m.Sound) (found : m.page? page = some e)
    (inside : offset + data.length ≤ pageSize) {p : Nat} {f : PageEntry} (other : p ≠ page)
    (found' : m.page? p = some f) {i : Nat} (hi : i < pageSize) :
    (m.storeBytes (e.position offset) data).storeByte (f.position i) = m.storeByte (f.position i) := by
  have frames : f.frame ≠ e.frame := fun same => other (sound.own found' found same)
  apply storeByte_storeBytes_of_outside
  unfold PageEntry.position
  rw [show pageSize = 4096 from rfl] at *
  omega

theorem accesses_storeBytes (sound : m.Sound) (found : m.page? page = some e)
    (inside : offset + data.length ≤ pageSize) (unmarked : m.isCodePage page = false) :
    Accesses m (m.storeBytes (e.position offset) data) [] := by
  have code (p : Nat) : (m.storeBytes (e.position offset) data).codeState p = m.codeState p := by
    unfold codeState
    rw [storeBytes_code]
  refine ⟨⟨sound.of_regions (by simp) (by simp), ?_, ?_, ?_, ?_⟩, by simp, by simp, by simp, by simp⟩
  · intro p f found'
    rwa [storeBytes_page?]
  · intro p
    unfold pageVersion
    rw [code]
    simp
  · intro p marked _
    unfold isCodePage
    rw [code]
    exact marked
  · intro p f marked _ found' i hi
    refine storeByte_storeBytes_of_page sound found inside ?_ found' hi
    rintro rfl
    rw [unmarked] at marked
    cases marked

theorem accesses_invalidate (sound : m.Sound) (found : m.page? page = some e)
    (inside : offset + data.length ≤ pageSize) :
    Accesses m ((m.storeBytes (e.position offset) data).invalidateCode page) [.codeWritten page] := by
  have code (p : Nat) : (m.storeBytes (e.position offset) data).codeState p = m.codeState p := by
    unfold codeState
    rw [storeBytes_code]
  refine ⟨⟨sound.of_regions ?_ ?_, ?_, ?_, ?_, ?_⟩, ?_, ?_, ?_, ?_⟩
  · simp [invalidateCode, record]
  · simp [invalidateCode, record]
  · intro p f found'
    rw [← storeBytes_page? m (e.position offset) data p] at found'
    exact found'
  · intro p
    rw [pageVersion_invalidateCode]
    unfold pageVersion
    rw [code]
  · intro p marked quiet
    have other : p ≠ page := by simpa using quiet
    rw [isCodePage_invalidateCode]
    unfold isCodePage at marked ⊢
    rw [code, marked]
    simpa using other
  · intro p f _ quiet found' i hi
    have other : p ≠ page := by simpa using quiet
    exact storeByte_storeBytes_of_page sound found inside other found' hi
  · simp [invalidateCode, record]
  · simp [invalidateCode, record]
  · simp [invalidateCode, record]
  · simp [invalidateCode, record]

end

/-- A piece of a write changes its own page alone. -/
theorem accesses_writePage {m : Memory} (sound : m.Sound) {vaddr : Word} {data : List Byte} {e : PageEntry}
    (found : m.page? (pageOf (virtToPhys vaddr)) = some e)
    (inside : pageOffset (virtToPhys vaddr) + data.length ≤ pageSize) :
    ∃ told, Accesses m (m.writePage e vaddr data).2 told ∧
      ∀ p, .codeWritten p ∈ told → p = pageOf (virtToPhys vaddr) ∧ m.isCodePage p = true := by
  unfold writePage
  dsimp only
  split
  · exact ⟨[], .refl sound, by simp⟩
  · split
    · next marked =>
      refine ⟨_, accesses_invalidate sound found inside, fun p written => ?_⟩
      obtain rfl : p = _ := Event.codeWritten.inj (List.mem_singleton.1 written)
      exact ⟨rfl, marked⟩
    · next unmarked =>
      rw [Bool.not_eq_true] at unmarked
      exact ⟨[], accesses_storeBytes sound found inside unmarked, by simp⟩

/-! ## Devices -/

theorem deposit_past (m : Memory) (d : Deposit) : (m.deposit d).past = m.past := by
  unfold deposit
  split
  · next e found =>
    obtain ⟨store, code, events, eq⟩ := m.writePage_eq e d.vaddr d.data
    rw [eq]
  · rfl

theorem foldl_deposit_past (m : Memory) (stores : List Deposit) :
    (stores.foldl deposit m).past = m.past := by
  induction stores generalizing m with
  | nil => rfl
  | cons d rest ih => exact (ih (m.deposit d)).trans (deposit_past m d)

theorem call_past (m : Memory) (c : Call) : (m.call c).2.past = m.moment c :: m.past :=
  foldl_deposit_past _ _

theorem accesses_deposit {m : Memory} (sound : m.Sound) (d : Deposit) :
    ∃ told, Accesses m (m.deposit d) told ∧ ∀ p, .codeWritten p ∈ told → p = d.page := by
  unfold deposit
  split
  · next e found =>
    obtain ⟨told, written, own⟩ := accesses_writePage sound found d.inside
    exact ⟨told, written, fun p hit => (own p hit).1⟩
  · exact ⟨[], .refl sound, by simp⟩

theorem accesses_foldl_deposit {m : Memory} (sound : m.Sound) (stores : List Deposit) :
    ∃ told, Accesses m (stores.foldl deposit m) told ∧
      ∀ p, .codeWritten p ∈ told → ∃ d ∈ stores, d.page = p := by
  induction stores generalizing m with
  | nil => exact ⟨[], .refl sound, by simp⟩
  | cons d rest ih =>
    obtain ⟨told, first, own⟩ := accesses_deposit sound d
    obtain ⟨told', later, owns⟩ := ih first.sound
    refine ⟨told ++ told', first.trans later, fun p written => ?_⟩
    obtain early | late := List.mem_append.1 written
    · exact ⟨d, List.mem_cons_self, (own p early).symm⟩
    · obtain ⟨d', stored, page⟩ := owns p late
      exact ⟨d', List.mem_cons_of_mem _ stored, page⟩

theorem accesses_called {m : Memory} (sound : m.Sound) (c : Call) : Accesses m (m.called c) [c.event] := by
  refine ⟨⟨sound.of_regions rfl rfl, id, fun p => ?_, fun h _ => h, fun _ _ _ _ _ => rfl⟩, ?_, rfl, rfl,
    List.suffix_cons _ _⟩
  · have none : [c.event].count (.codeWritten p) = 0 := by cases c <;> rfl
    rw [none]
    exact (BitVec.add_zero _).symm
  · simp [called, record]

/-- A call of a device changes the pages that the device stores to, and no others. -/
theorem accesses_call {m : Memory} (sound : m.Sound) (c : Call) :
    ∃ told, Accesses m (m.call c).2 told ∧
      ∀ p, .codeWritten p ∈ told → ∃ d ∈ (m.reply c).stores, d.page = p := by
  have called := accesses_called sound c
  obtain ⟨told, stored, own⟩ := accesses_foldl_deposit called.sound (m.reply c).stores
  refine ⟨[c.event] ++ told, called.trans stored, fun p written => ?_⟩
  obtain first | later := List.mem_cons.1 written
  · cases c <;> cases first
  · exact own p later

/-- While `m` became `m'`, no device has stored to a page that has `P`. -/
def Spared (P : Nat → Prop) (m m' : Memory) : Prop :=
  ∀ before now, m.past <:+ before → now :: before <:+ m'.past →
    ∀ d ∈ (m.board.reply before now).stores, ¬ P d.page

namespace Spared

variable {P Q : Nat → Prop} {m m' m'' : Memory}

theorem of_nil (none : m'.past = []) : Spared P m m' := by
  intro before now old made
  rw [none] at made
  cases List.suffix_nil.1 made

theorem mono (h : Spared P m m') (le : ∀ p, Q p → P p) : Spared Q m m' :=
  fun before now old made d stored hit => h before now old made d stored (le _ hit)

theorem first (h : Spared P m m'') (more : m'.past <:+ m''.past) : Spared P m m' :=
  fun before now old made => h before now old (made.trans more)

theorem rest (h : Spared P m m'') (board : m'.board = m.board) (more : m.past <:+ m'.past) :
    Spared P m' m'' := by
  intro before now old made
  rw [board]
  exact h before now (more.trans old) made

theorem stores {c : Call} (h : Spared P m (m.call c).2) : ∀ d ∈ (m.reply c).stores, ¬ P d.page :=
  h m.past (m.moment c) (List.suffix_refl _) ⟨[], (m.call_past c).symm⟩

end Spared

/-! ## Accesses -/

theorem Pieces.leads {m m' : Memory} (h : Pieces m m') (sound : m.Sound) : Leads m m' := by
  induction h with
  | refl => exact .refl sound
  | called _ c ih => exact ih.trans fun sound' => ⟨_, accesses_called sound' c⟩
  | write _ found inside ih =>
    refine ih.trans fun sound' => ?_
    obtain ⟨told, written, -⟩ := accesses_writePage sound' found inside
    exact ⟨told, written⟩

/-! ## Marks and mappings -/

theorem codeState_invalidateCode (m : Memory) (page p : Nat) :
    (m.invalidateCode page).codeState p =
      if p = page then { version := (m.codeState page).version + 1, marked := false } else m.codeState p := by
  unfold invalidateCode record codeState
  dsimp only
  rw [Std.ExtTreeMap.getD_insert]
  simp only [Std.LawfulEqCmp.compare_eq_iff_eq, eq_comm (a := p)]

theorem codeState_markCode {m : Memory} {page : Nat} {e : PageEntry} (found : m.page? page = some e)
    (p : Nat) :
    (m.markCode page).2.codeState p =
      if p = page then { m.codeState page with marked := true } else m.codeState p := by
  unfold markCode
  rw [found]
  dsimp only
  unfold codeState
  rw [Std.ExtTreeMap.getD_insert]
  by_cases h : page = p
  · subst h
    rw [if_pos (by simp), if_pos rfl]
  · rw [if_neg (by rw [Std.LawfulEqCmp.compare_eq_iff_eq]; exact h), if_neg (Ne.symm h)]

theorem accesses_markCode {m : Memory} (sound : m.Sound) (page : Nat) :
    Accesses m (m.markCode page).2 [] := by
  cases found : m.page? page with
  | none =>
    have same : m.markCode page = (none, m) := by
      unfold markCode
      rw [found]
    rw [same]
    exact .refl sound
  | some e =>
    have state := codeState_markCode found
    have eq : (m.markCode page).2 =
        { m with code := m.code.insert page { m.codeState page with marked := true } } := by
      unfold markCode
      rw [found]
    refine ⟨⟨sound.of_regions (by rw [eq]) (by rw [eq]), ?_, ?_, ?_, ?_⟩, by rw [eq]; simp, by rw [eq], by rw [eq],
      by simp only [eq, List.suffix_refl]⟩
    · intro p f found'
      rw [eq]
      exact found'
    · intro p
      unfold pageVersion
      rw [state]
      split
      · next own => rw [own]; simp
      · simp
    · intro p marked _
      unfold isCodePage at marked ⊢
      rw [state]
      split
      · rfl
      · exact marked
    · intro p f _ _ _ i _
      rw [eq]
      rfl

/-- A mapping tells nothing and leaves what was mapped before as it was. -/
theorem evolves_mapFrames {m m' : Memory} {base size frame : Nat} {readOnly : Bool} (sound : m.Sound)
    (h : m.mapFrames base size readOnly = .ok (frame, m')) :
    Evolves m m' [] ∧ m'.events = m.events := by
  have stays := fun {p : Nat} {e : PageEntry} => mapFrames_stays h (p := p) (e := e)
  have sound' := mapFrames_sound sound h
  obtain ⟨-, r, -, rfl, -⟩ := mapFrames_ok h
  refine ⟨⟨sound', stays, ?_, ?_, ?_⟩, rfl⟩
  · intro p
    exact (BitVec.add_zero _).symm
  · intro p marked _
    exact marked
  · intro p e _ _ _ i _
    rfl

theorem evolves_mapRam {m m' : Memory} {base size : Nat} (sound : m.Sound)
    (h : m.mapRam base size = .ok m') : Evolves m m' [] ∧ m'.events = m.events := by
  unfold mapRam at h
  cases mapped : m.mapFrames base size false with
  | error e =>
    rw [mapped] at h
    cases h
  | ok r =>
    rw [mapped] at h
    cases h
    exact evolves_mapFrames sound mapped

theorem evolves_mapRom {m m' : Memory} {base : Nat} {image : List Byte} (sound : m.Sound)
    (h : m.mapRom base image = .ok m') : Evolves m m' [] ∧ m'.events = m.events := by
  unfold mapRom at h
  split at h
  · cases h
  · next frame mapped e =>
    cases h
    obtain ⟨evolves, events⟩ := evolves_mapFrames sound e
    have start := (mapFrames_ok e).1
    refine ⟨⟨evolves.sound.of_regions (by simp) (by simp), ?_, ?_, ?_, ?_⟩, by rw [storeBytes_events, events]⟩
    · intro p f found
      rw [storeBytes_page?]
      exact evolves.stays found
    · intro p
      have := evolves.version p
      unfold pageVersion codeState at this ⊢
      rwa [storeBytes_code]
    · intro p marked quiet
      have := evolves.marked marked quiet
      unfold isCodePage codeState at this ⊢
      rwa [storeBytes_code]
    · intro p f marked quiet found i hi
      rw [← evolves.bytes marked quiet found i hi]
      -- The image goes to frames that no page had before.
      have := sound.below found
      apply storeByte_storeBytes_of_outside
      left
      unfold PageEntry.position
      rw [start]
      rw [show pageSize = 4096 from rfl] at *
      omega

theorem evolves_mapDevice {m m' : Memory} {base size : Nat} {device : Device} (sound : m.Sound)
    (h : m.mapDevice base size device = .ok m') : Evolves m m' [] ∧ m'.events = m.events := by
  unfold mapDevice at h
  split at h
  · cases h
  · dsimp only at h
    split at h
    · cases h
    · cases h
      refine ⟨⟨sound.of_regions rfl rfl, id, ?_, fun h _ => h, fun _ _ _ _ _ => rfl⟩, rfl⟩
      intro p
      exact (BitVec.add_zero _).symm

theorem Accessed.pieces {m m' : Memory} (h : Accessed m m') : Pieces m m' := by
  obtain rfl | ⟨w, a, rfl⟩ | ⟨w, a, v, rfl⟩ := h
  · exact .refl
  · exact pieces_read m w a
  · exact pieces_write m w a v

/-! ## Memories that can come about -/

/-- The memories that mappings, accesses and marks make from one with nothing mapped. -/
inductive Arises : Memory → Prop where
  | empty (size : Nat) (board : Board := .probes) : Arises (empty size board)
  | ram {m m' : Memory} {base size : Nat} (h : Arises m) (mapped : m.mapRam base size = .ok m') : Arises m'
  | rom {m m' : Memory} {base : Nat} {image : List Byte} (h : Arises m)
    (mapped : m.mapRom base image = .ok m') : Arises m'
  | device {m m' : Memory} {base size : Nat} {device : Device} (h : Arises m)
    (mapped : m.mapDevice base size device = .ok m') : Arises m'
  | read {m : Memory} (h : Arises m) (w : Width) (vaddr : Word) : Arises (m.read w vaddr).2
  | write {m : Memory} (h : Arises m) (w : Width) (vaddr : Word) (v : Quad) : Arises (m.write w vaddr v).2
  | writeBytes {m : Memory} (h : Arises m) (vaddr : Word) (data : List Byte) :
    Arises (m.writeBytes vaddr data).2
  | mark {m : Memory} (h : Arises m) (page : Nat) : Arises (m.markCode page).2
  | taken {m : Memory} (h : Arises m) : Arises m.takeEvents.2

theorem Arises.sound {m : Memory} (h : Arises m) : m.Sound := by
  induction h with
  | empty size board => exact sound_empty size board
  | ram _ mapped ih => exact (evolves_mapRam ih mapped).1.sound
  | rom _ mapped ih => exact (evolves_mapRom ih mapped).1.sound
  | device _ mapped ih => exact (evolves_mapDevice ih mapped).1.sound
  | read _ w vaddr ih => exact ((pieces_read _ w vaddr).leads ih).sound
  | write _ w vaddr v ih => exact ((pieces_write _ w vaddr v).leads ih).sound
  | writeBytes _ vaddr data ih => exact ((pieces_writeBytes _ vaddr data).leads ih).sound
  | mark _ page ih => exact (accesses_markCode ih page).sound
  | taken _ ih => exact ih.of_regions rfl rfl

def withRam (m : Memory) (base size : Nat) : Memory := (m.mapRam base size).toOption.getD m

theorem Arises.withRam {m : Memory} (h : Arises m) (base size : Nat) : Arises (m.withRam base size) := by
  unfold Memory.withRam
  cases mapped : m.mapRam base size with
  | error e => exact h
  | ok m' => exact .ram h mapped

end Memory

/-! ## Guest code -/

theorem Guest.leads_execAll (g : Guest) (sound : g.mem.Sound) (is : List DecodedInsn) :
    g.mem.Leads (g.execAll is).2.mem := by
  induction is generalizing g with
  | nil => exact .refl sound
  | cons i rest ih =>
    have first := (g.exec_proceeds i).mem.pieces.leads sound
    unfold execAll
    split
    · next g' e =>
      rw [e] at first
      exact first.trans (fun sound' => ih g' sound')
    · next e =>
      rw [e] at first
      exact first
    · next e =>
      rw [e] at first
      exact first
    · next e =>
      rw [e] at first
      exact first
    · next e =>
      rw [e] at first
      dsimp only
      split <;> exact first

theorem Guest.leave_mem (g : Guest) (b : Block) : (g.leave b).2.mem = g.mem := by
  unfold leave
  split
  · rfl
  · split <;> rfl

theorem Block.leads_run (b : Block) (g : Guest) (sound : g.mem.Sound) :
    g.mem.Leads (b.run g).2.mem := by
  have body := (g.enter b).leads_execAll sound b.insns
  unfold run
  split
  · next e => rwa [e] at body
  · next e =>
    rw [e] at body
    rw [Guest.leave_mem]
    exact body

end EmotionEngine
